import SimulationKey.Kit.JsonWriter
import SimulationKey.Simulation.Result

/-!
# The stored series

`worker/timeseries.py`: the per-timestep series of a result as one JSON
document, written piece by piece. `payload` is the whole document as a value,
the `SimulationTimeseries` its readers expect; joined, the pieces are the text
`json.dumps` writes for it (`streamed_eq_dumps`).
-/

namespace SimulationKey

open Kit Kit.Json Kit.Text PyFloat

variable {F : Type}

/-! ## The series by name -/

/-- `_ITERATION_SERIES`. -/
inductive IterationSeries where
  | consumption
  | energyAllocated
  | energyAllocatedConsumed
  | residualVolume
  | surplus
  | sharingRate
  | selfSufficiencyRate
  deriving DecidableEq, Repr

namespace IterationSeries

def all : List IterationSeries :=
  [consumption, energyAllocated, energyAllocatedConsumed, residualVolume, surplus, sharingRate,
    selfSufficiencyRate]

def name : IterationSeries → String
  | consumption => "consumption"
  | energyAllocated => "energy_allocated"
  | energyAllocatedConsumed => "energy_allocated_consumed"
  | residualVolume => "residual_volume"
  | surplus => "surplus"
  | sharingRate => "sharing_rate"
  | selfSufficiencyRate => "self_sufficiency_rate"

/-- `getattr(iteration, name)`. -/
def of (it : IterationSimResult F) : IterationSeries → List F
  | consumption => it.consumption
  | energyAllocated => it.energyAllocated
  | energyAllocatedConsumed => it.energyAllocatedConsumed
  | residualVolume => it.residualVolume
  | surplus => it.surplus
  | sharingRate => it.sharingRate
  | selfSufficiencyRate => it.selfSufficiencyRate

theorem mem_all (s : IterationSeries) : s ∈ all := by cases s <;> decide

end IterationSeries

/-- `_CONSUMER_SERIES`. -/
inductive ConsumerSeries where
  | consumption
  | energyAllocated
  | energyAllocatedConsumed
  | residualVolume
  | surplus
  deriving DecidableEq, Repr

namespace ConsumerSeries

def all : List ConsumerSeries :=
  [consumption, energyAllocated, energyAllocatedConsumed, residualVolume, surplus]

def name : ConsumerSeries → String
  | consumption => "consumption"
  | energyAllocated => "energy_allocated"
  | energyAllocatedConsumed => "energy_allocated_consumed"
  | residualVolume => "residual_volume"
  | surplus => "surplus"

/-- `getattr(consumer, name)`. -/
def of (c : ConsumerSimResult F) : ConsumerSeries → List F
  | consumption => c.consumption
  | energyAllocated => c.energyAllocated
  | energyAllocatedConsumed => c.energyAllocatedConsumed
  | residualVolume => c.residualVolume
  | surplus => c.surplus

end ConsumerSeries

/-! ## Values -/

section Encoding

variable [PyFloat F] (floatRepr : F → List Char)

def intJson (n : Int) : Json := .num (toString n).toList

/-- A float as `json.dumps` takes it, `floatRepr` being `float.__repr__`. -/
def floatJson (x : F) : Json :=
  if isNaN x then .nonFinite .nan
  else if isFinite x then .num (floatRepr x)
  else if 0 < x then .nonFinite .infinity
  else .nonFinite .negInfinity

def seriesJson (xs : List F) : Json := .arr (xs.map (floatJson floatRepr))

def nameJson (s : String) : Json := .str (points s)

def consumerPayload (c : ConsumerSimResult F) : Json :=
  .obj
    [(points "name", nameJson c.name),
      (points "consumption", seriesJson floatRepr c.consumption),
      (points "energy_allocated", seriesJson floatRepr c.energyAllocated),
      (points "energy_allocated_consumed", seriesJson floatRepr c.energyAllocatedConsumed),
      (points "residual_volume", seriesJson floatRepr c.residualVolume),
      (points "surplus", seriesJson floatRepr c.surplus)]

def iterationPayload (it : IterationSimResult F) : Json :=
  .obj
    [(points "number", intJson it.number),
      (points "consumption", seriesJson floatRepr it.consumption),
      (points "energy_allocated", seriesJson floatRepr it.energyAllocated),
      (points "energy_allocated_consumed", seriesJson floatRepr it.energyAllocatedConsumed),
      (points "residual_volume", seriesJson floatRepr it.residualVolume),
      (points "surplus", seriesJson floatRepr it.surplus),
      (points "sharing_rate", seriesJson floatRepr it.sharingRate),
      (points "self_sufficiency_rate", seriesJson floatRepr it.selfSufficiencyRate),
      (points "consumers", .arr (it.consumers.map (consumerPayload floatRepr)))]

/-- The document as a value. -/
def payload (result : KeySimResult F) : Json :=
  .obj [(points "iterations", .arr (result.iterations.map (iterationPayload floatRepr)))]

/-! ## The writer -/

/-- `_encode`. -/
def encodeJson (v : Json) : List UInt8 := encode (dumps v)

/-- A bytes literal of the source. -/
def literal (s : String) : List UInt8 := encode s.toList

/-- `_write_member`. -/
def writeMember (name : String) (value : Json) : List (List UInt8) :=
  [literal ", " ++ encodeJson (nameJson name) ++ literal ": " ++ encodeJson value]

def writeConsumer (c : ConsumerSimResult F) (position : Nat) : List (List UInt8) :=
  (if position ≠ 0 then [literal ", "] else []) ++
    [literal "\x7b\"name\": " ++ encodeJson (nameJson c.name)] ++
    (ConsumerSeries.all.flatMap fun s => writeMember s.name (seriesJson floatRepr (s.of c))) ++
    [literal "\x7d"]

def writeIteration (it : IterationSimResult F) (index : Nat) : List (List UInt8) :=
  (if index ≠ 0 then [literal ", "] else []) ++
    [literal "\x7b\"number\": " ++ encodeJson (intJson it.number)] ++
    (IterationSeries.all.flatMap fun s => writeMember s.name (seriesJson floatRepr (s.of it))) ++
    [literal ", \"consumers\": ["] ++
    (it.consumers.zipIdx.flatMap fun (c, position) => writeConsumer floatRepr c position) ++
    [literal "]\x7d"]

/-- `write_json`: what each `out.write` appends. -/
def writeJson (result : KeySimResult F) : List (List UInt8) :=
  [literal "\x7b\"iterations\": ["] ++
    (result.iterations.zipIdx.flatMap fun (it, index) => writeIteration floatRepr it index) ++
    [literal "]\x7d"]

/-! ## The pieces joined -/

/-- Elements written with a separator before each but the first. -/
theorem encode_dumpsElements {α : Type} (value : α → Json) (write : α → Nat → List (List UInt8))
    (hfirst : ∀ a, (write a 0).flatten = encodeJson (value a))
    (hnext : ∀ a n, write a (n + 1) = literal ", " :: write a 0)
    (as : List α) :
    (as.zipIdx.flatMap fun (a, n) => write a n).flatten =
      encode (dumpsElements (as.map value)) := by
  have hmore : ∀ (bs : List α) (a : α) (k : Nat),
      encodeJson (value a) ++ ((bs.zipIdx (k + 1)).flatMap fun (b, n) => write b n).flatten =
        encode (dumpsElements ((a :: bs).map value)) := by
    intro bs
    induction bs with
    | nil =>
        intro a k
        simp [dumpsElements, encodeJson]
    | cons b bs ih =>
        intro a k
        have hseparator : encode (',' :: ' ' :: dumpsElements ((b :: bs).map value)) =
            literal ", " ++ encode (dumpsElements ((b :: bs).map value)) := encode_append [',', ' '] _
        rw [List.zipIdx_cons, List.flatMap_cons, List.flatten_append]
        show encodeJson (value a) ++ ((write b (k + 1)).flatten ++ _) = _
        rw [hnext, List.flatten_cons, hfirst, List.append_assoc, ih b (k + 1)]
        show _ = encode (dumps (value a) ++ ',' :: ' ' :: dumpsElements ((b :: bs).map value))
        rw [encode_append, hseparator]
        rfl
  cases as with
  | nil => simp [dumpsElements]
  | cons a as =>
      rw [List.zipIdx_cons, List.flatMap_cons, List.flatten_append, hfirst]
      exact hmore as a 0

/-- The text of a member behind the first. -/
theorem flatten_writeMember (name : String) (value : Json) :
    (writeMember name value).flatten =
      encode (',' :: ' ' :: (dumpsString (points name) ++ ':' :: ' ' :: dumps value)) := by
  have hname : dumps (nameJson name) = dumpsString (points name) := rfl
  have hcomma : literal ", " = encode [',', ' '] := rfl
  have hcolon : literal ": " = encode [':', ' '] := rfl
  simp only [writeMember, encodeJson, hname, hcomma, hcolon, ← encode_append, List.flatten_cons,
    List.flatten_nil, List.append_nil, List.append_assoc, List.cons_append, List.nil_append]

theorem flatten_writeConsumer (c : ConsumerSimResult F) :
    (writeConsumer floatRepr c 0).flatten = encodeJson (consumerPayload floatRepr c) := by
  have hopen : literal "\x7b\"name\": " =
      encode ('{' :: (dumpsString (points "name") ++ [':', ' '])) := by decide
  have hclose : literal "\x7d" = encode ['}'] := rfl
  simp only [writeConsumer, ConsumerSeries.all, ConsumerSeries.name, ConsumerSeries.of,
    List.flatMap_cons, List.flatMap_nil, List.flatten_append, flatten_writeMember, hopen, hclose,
    ne_eq, not_true_eq_false, if_false, List.flatten_cons, List.flatten_nil]
  simp only [encodeJson, consumerPayload, dumps, dumpsMembers, nameJson, ← encode_append,
    List.append_assoc, List.cons_append, List.nil_append, List.append_nil]

theorem flatten_writeIteration (it : IterationSimResult F) :
    (writeIteration floatRepr it 0).flatten = encodeJson (iterationPayload floatRepr it) := by
  have hopen : literal "\x7b\"number\": " =
      encode ('{' :: (dumpsString (points "number") ++ [':', ' '])) := by decide
  have hconsumers : literal ", \"consumers\": [" =
      encode (',' :: ' ' :: (dumpsString (points "consumers") ++ [':', ' ', '['])) := by decide
  have hclose : literal "]\x7d" = encode [']', '}'] := rfl
  have helements := encode_dumpsElements (consumerPayload floatRepr) (writeConsumer floatRepr)
    (flatten_writeConsumer floatRepr) (fun c n => rfl) it.consumers
  simp only [writeIteration, IterationSeries.all, IterationSeries.name, IterationSeries.of,
    List.flatMap_cons, List.flatMap_nil, List.flatten_append, flatten_writeMember, hopen, hclose,
    hconsumers, helements, ne_eq, not_true_eq_false, if_false, List.flatten_cons, List.flatten_nil]
  simp only [encodeJson, iterationPayload, dumps, dumpsMembers, intJson, ← encode_append,
    List.append_assoc, List.cons_append, List.nil_append, List.append_nil]

/-- The iterations of a result, with what stands between them. -/
theorem flatten_writeIterations (its : List (IterationSimResult F)) :
    (its.zipIdx.flatMap fun (it, index) => writeIteration floatRepr it index).flatten =
      encode (dumpsElements (its.map (iterationPayload floatRepr))) :=
  encode_dumpsElements (iterationPayload floatRepr) (writeIteration floatRepr)
    (flatten_writeIteration floatRepr) (fun _ _ => rfl) its

/-- The pieces joined: the one member of the document, and its elements. -/
theorem flatten_writeJson (result : KeySimResult F) :
    (writeJson floatRepr result).flatten =
      encode ('{' :: (dumpsString (points "iterations") ++ ':' :: ' ' :: '[' ::
        (dumpsElements (result.iterations.map (iterationPayload floatRepr)) ++ [']', '}']))) := by
  have hopen : literal "\x7b\"iterations\": [" =
      encode ('{' :: (dumpsString (points "iterations") ++ [':', ' ', '['])) := by decide
  have hclose : literal "]\x7d" = encode [']', '}'] := rfl
  simp only [writeJson, List.flatten_append, List.flatten_cons, List.flatten_nil,
    List.append_nil, flatten_writeIterations, hopen, hclose, ← encode_append, List.append_assoc,
    List.cons_append, List.nil_append]

/-- The pieces are those of the one-shot encoder, in its order. -/
theorem streamed_eq_dumps (result : KeySimResult F) :
    (writeJson floatRepr result).flatten = encode (dumps (payload floatRepr result)) := by
  rw [flatten_writeJson]
  simp only [payload, dumps, dumpsMembers, List.append_assoc, List.cons_append, List.nil_append]

/-! ## A document of the grammar -/

theorem legalAll_map {α : Type} {value : α → Json} (h : ∀ a, (value a).Legal) (as : List α) :
    LegalAll (as.map value) := by
  induction as with
  | nil => trivial
  | cons a as ih => exact ⟨h a, ih⟩

variable {floatRepr}

theorem legal_floatJson (hrepr : ∀ x, isFinite x = true → IsNumeral (floatRepr x)) (x : F) :
    (floatJson floatRepr x).Legal := by
  unfold floatJson
  split_ifs with hnan hfinite
  · trivial
  · exact hrepr x hfinite
  · trivial
  · trivial

/-- Where a finite float is written as a number, the document has a text. -/
theorem legal_payload (hrepr : ∀ x, isFinite x = true → IsNumeral (floatRepr x))
    (result : KeySimResult F) : (payload floatRepr result).Legal := by
  have hseries : ∀ xs, (seriesJson floatRepr xs).Legal :=
    fun xs => legalAll_map (legal_floatJson hrepr) xs
  have hconsumer : ∀ c, (consumerPayload floatRepr c).Legal := fun c =>
    ⟨scalars_points _, scalars_points _, scalars_points _, hseries _, scalars_points _, hseries _,
      scalars_points _, hseries _, scalars_points _, hseries _, scalars_points _, hseries _,
      trivial⟩
  have hiteration : ∀ it, (iterationPayload floatRepr it).Legal := fun it =>
    ⟨scalars_points _, isNumeral_int _, scalars_points _, hseries _, scalars_points _, hseries _,
      scalars_points _, hseries _, scalars_points _, hseries _, scalars_points _, hseries _,
      scalars_points _, hseries _, scalars_points _, hseries _, scalars_points _,
      legalAll_map hconsumer _, trivial⟩
  exact ⟨scalars_points _, legalAll_map hiteration _, trivial⟩

/-- What is stored is a document for the payload. -/
theorem document_writeJson (hrepr : ∀ x, isFinite x = true → IsNumeral (floatRepr x))
    (result : KeySimResult F) :
    ∃ text, Document (payload floatRepr result) text ∧
      (writeJson floatRepr result).flatten = encode text := by
  refine ⟨_, .mk blank_nil (writes_dumps _ (legal_payload hrepr result)) blank_nil, ?_⟩
  rw [flatten_writeJson]
  simp [payload, dumps, dumpsMembers, -encode_append]

end Encoding

end SimulationKey
