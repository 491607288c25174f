import SimulationKey.Kit.Double
import SimulationKey.Kit.Float
import SimulationKey.Kit.JsonReader
import SimulationKey.Worker.Timeseries

/-!
# Reading the stored series

`api/simulation/timeseries_reader.py`: a document that arrives in chunks is
split at its strings, then passed through as the data of an answer or read for
a chart. What a validation accepts as an `int` and what `float` makes of a
number's text are parameters.
-/

namespace SimulationKey

open Kit Kit.Json Kit.Text PyFloat

variable {F : Type}

inductive ReadError where
  | endsInsideString
  | unicodeDecode
  | jsonDecode
  | zeroDivision
  | overflow
  | type
  | validation
  deriving DecidableEq, Repr

/-! ## The pieces of a document -/

def quoteByte : UInt8 := 0x22

def backslashByte : UInt8 := 0x5c

/-- A string token, quotes included, or bytes between two strings. -/
inductive Piece where
  | string (token : List UInt8)
  | run (bytes : List UInt8)
  deriving DecidableEq, Repr

/-- Where `_pieces` stands between two bytes. -/
inductive Scan where
  | outside
  | inside (token : List UInt8) (escaped : Bool)
  deriving DecidableEq, Repr

def yieldRun (run : List UInt8) : List Piece := if run = [] then [] else [.run run]

/-- One chunk. `run` is what precedes in the chunk, up to the last string. -/
def scanChunk : Scan → List UInt8 → List UInt8 → List Piece × Scan
  | .outside, run, [] => (yieldRun run, .outside)
  | .outside, run, b :: rest =>
    if b = quoteByte then
      let (pieces, scan) := scanChunk (.inside [quoteByte] false) [] rest
      (yieldRun run ++ pieces, scan)
    else scanChunk .outside (run ++ [b]) rest
  | .inside token escaped, _, [] => ([], .inside token escaped)
  | .inside token true, run, b :: rest => scanChunk (.inside (token ++ [b]) false) run rest
  | .inside token false, run, b :: rest =>
    if b = backslashByte then scanChunk (.inside (token ++ [b]) true) run rest
    else if b = quoteByte then
      let (pieces, scan) := scanChunk .outside [] rest
      (.string (token ++ [b]) :: pieces, scan)
    else scanChunk (.inside (token ++ [b]) false) run rest

/-- `_pieces`: what it yields, and where it stands at the end. -/
def pieces : Scan → List (List UInt8) → List Piece × Scan
  | scan, [] => ([], scan)
  | scan, chunk :: chunks =>
    let (ps, scan) := scanChunk scan [] chunk
    let (ps', scan) := pieces scan chunks
    (ps ++ ps', scan)

/-! ## The pass-through -/

/-- `bytes.replace`, skipping the bytes of a match it has replaced. -/
def replaceAll (old new : List UInt8) : Nat → List UInt8 → List UInt8
  | _, [] => []
  | skip + 1, _ :: rest => replaceAll old new skip rest
  | 0, b :: rest =>
    if old <+: b :: rest then new ++ replaceAll old new (old.length - 1) rest
    else b :: replaceAll old new 0 rest

/-- `_NON_FINITE`. -/
def nonFiniteTokens : List (List UInt8) := [literal "-Infinity", literal "Infinity", literal "NaN"]

/-- `_NON_FINITE_BYTES`. -/
def isNonFiniteByte (b : UInt8) : Bool := b ∈ nonFiniteTokens.flatten

def nulls (run : List UInt8) : List UInt8 :=
  nonFiniteTokens.foldl (fun run token => replaceAll token (literal "null") 0 run) run

def responsePrefix : List UInt8 := literal "\x7b\"data\": "

def responseSuffix : List UInt8 := literal ", \"error_code\": 0\x7d"

def flushBytes : Nat := 1024 * 1024

/-- `as_api_response` between two pieces: what it has yielded, and holds. -/
structure Passing where
  sent : List (List UInt8)
  out : List UInt8
  held : List UInt8

def Passing.flush (p : Passing) : Passing :=
  if flushBytes ≤ p.out.length then { sent := p.sent ++ [p.out], out := [], held := p.held } else p

def Passing.piece (p : Passing) : Piece → Passing
  | .string token =>
    Passing.flush { sent := p.sent, out := p.out ++ nulls p.held ++ token, held := [] }
  | .run bytes =>
    let run := p.held ++ bytes
    Passing.flush
      { sent := p.sent
        out := p.out ++ nulls (run.rdropWhile isNonFiniteByte)
        held := run.rtakeWhile isNonFiniteByte }

/-- `as_api_response`: what it yields, and the error it ends with. -/
def asApiResponse (chunks : List (List UInt8)) : List (List UInt8) × Option ReadError :=
  let (ps, scan) := pieces .outside chunks
  let p := ps.foldl Passing.piece { sent := [], out := responsePrefix, held := [] }
  match scan with
  | .outside => (p.sent ++ [p.out ++ nulls p.held ++ responseSuffix], none)
  | .inside .. => (p.sent, some .endsInsideString)

/-! ## The chart's series -/

structure ConsumerTimeseries (F : Type) where
  name : String
  consumption : List (Option F)
  energyAllocated : List (Option F)
  energyAllocatedConsumed : List (Option F)
  residualVolume : List (Option F)
  surplus : List (Option F)
  deriving DecidableEq, Repr

structure IterationTimeseries (F : Type) where
  number : Int
  consumption : List (Option F)
  energyAllocated : List (Option F)
  energyAllocatedConsumed : List (Option F)
  residualVolume : List (Option F)
  surplus : List (Option F)
  sharingRate : List (Option F)
  selfSufficiencyRate : List (Option F)
  consumers : List (ConsumerTimeseries F)
  deriving DecidableEq, Repr

/-- A member of an iteration the reader keeps. -/
inductive Member where
  | number
  | series (s : IterationSeries)
  deriving DecidableEq, Repr

namespace Member

def all : List Member := number :: IterationSeries.all.map series

def name : Member → String
  | number => "number"
  | series s => s.name

/-- The member of that name. -/
def named (s : List Nat) : Option Member := all.find? fun m => points m.name = s

end Member

/-- An iteration's members as read so far. -/
structure Members (F : Type) where
  number : Option Json
  series : IterationSeries → Option (List (Option F))

def Members.empty : Members F := { number := none, series := fun _ => none }

/-- `_IterationReader`. The value's pieces are joined as they come. -/
structure IterationReader (F : Type) where
  maxPoints : Nat
  stride : Option Nat
  depth : Int
  iterations : List (Members F)
  member : Option Member
  target : Nat
  value : List UInt8

def IterationReader.start (maxPoints : Nat) : IterationReader F :=
  { maxPoints := maxPoints, stride := none, depth := 0, iterations := [], member := none,
    target := 0, value := [] }

/-- `bytes.lstrip()`. -/
def lstrip (bytes : List UInt8) : List UInt8 :=
  bytes.dropWhile fun b => b = 0x20 || (0x09 ≤ b && b ≤ 0x0d)

/-- `max(1, math.ceil(length / max_points))`. -/
def strideOf (length maxPoints : Nat) : Nat := (max 1 ⌈trueDiv length maxPoints⌉).toNat

/-- `xs[::stride]`. -/
def everyNth {α : Type} (stride : Nat) (xs : List α) : List α :=
  (List.range ((xs.length + stride - 1) / stride)).filterMap fun i => xs[i * stride]?

/-- The number is an `int` of Python. -/
def isIntLexeme (lexeme : List Char) : Bool := lexeme.all fun c => c.isDigit || c = '-'

section Reading

variable [PyFloat F] (floatOf : List Char → F)

/-- `value if math.isfinite(value) else None`, as the `float` it is validated to. -/
def sampleValue : Json → Except ReadError (Option F)
  | .nonFinite _ => .ok none
  | .num lexeme =>
    if isFinite (floatOf lexeme) then .ok (some (floatOf lexeme))
    else if isIntLexeme lexeme then .error .overflow
    else .ok none
  | .bool b => .ok (some (if b then 1 else 0))
  | _ => .error .type

namespace IterationReader

/-- `self.target[name] = …`. -/
def set (r : IterationReader F) (f : Members F → Members F) : IterationReader F :=
  { r with iterations := r.iterations.modify r.target f }

/-- `_sample`. -/
def sample (r : IterationReader F) : Json → Except ReadError (List (Option F) × Nat)
  | .arr values => do
    let stride ← match r.stride with
      | some stride => pure stride
      | none =>
        if r.maxPoints = 0 then throw .zeroDivision
        else pure (strideOf values.length r.maxPoints)
    let sampled ← (everyNth stride values).mapM (sampleValue floatOf)
    pure (sampled, stride)
  | _ => throw .type

/-- `_end_member`. -/
def endMember (r : IterationReader F) : Except ReadError (IterationReader F) :=
  match r.member with
  | none => .ok r
  | some m =>
    let text := lstrip r.value
    let r := { r with member := none, value := [] }
    match text with
    | [] => .ok r
    | b :: rest =>
      if b ≠ 0x3a then .ok r -- a string value, not a key
      else
        match decode (lstrip rest) with
        | none => .error .unicodeDecode
        | some text =>
          match rawDecode false text with
          | none => .error .jsonDecode
          | some (value, _) =>
            match m with
            | .number => .ok (r.set fun members => { members with number := some value })
            | .series s =>
              (r.sample floatOf value).map fun (sampled, stride) =>
                { r with stride := some stride }.set fun members =>
                  { members with series := Function.update members.series s (some sampled) }

def string (r : IterationReader F) (token : List UInt8) : Except ReadError (IterationReader F) := do
  let r ← r.endMember floatOf
  if r.depth = 2 ∧ r.iterations ≠ [] then
    match decode token with
    | none => throw .unicodeDecode
    | some text =>
      match decodeDocument false text with
      | none => throw .jsonDecode
      | some (.str name) =>
        match Member.named name with
        | some m => pure { r with member := some m, target := r.iterations.length - 1 }
        | none => pure r
      | some _ => pure r
  else pure r

end IterationReader

end Reading

namespace IterationReader

/-- The depth and the iterations after a run: the next brace, of either kind, is
what the two `find` look for. -/
def braces (depth : Int) (iterations : List (Members F)) :
    List UInt8 → Int × List (Members F)
  | [] => (depth, iterations)
  | b :: rest =>
    if b = 0x7b then
      braces (depth + 1)
        (if depth + 1 = 2 then iterations ++ [Members.empty] else iterations) rest
    else if b = 0x7d then braces (depth - 1) iterations rest
    else braces depth iterations rest

def run (r : IterationReader F) (piece : List UInt8) : IterationReader F :=
  { maxPoints := r.maxPoints
    stride := r.stride
    depth := (braces r.depth r.iterations piece).1
    iterations := (braces r.depth r.iterations piece).2
    member := r.member
    target := r.target
    value := if r.member = none then r.value else r.value ++ piece }

end IterationReader

/-- `IterationTimeseries.model_validate({**members, "consumers": []})`. -/
def Members.validate (intOf : Json → Option Int) (members : Members F) :
    Except ReadError (IterationTimeseries F) :=
  match members.number.bind intOf, members.series .consumption, members.series .energyAllocated,
    members.series .energyAllocatedConsumed, members.series .residualVolume,
    members.series .surplus, members.series .sharingRate,
    members.series .selfSufficiencyRate with
  | some number, some consumption, some energyAllocated, some energyAllocatedConsumed,
    some residualVolume, some surplus, some sharingRate, some selfSufficiencyRate =>
    .ok
      { number := number
        consumption := consumption
        energyAllocated := energyAllocated
        energyAllocatedConsumed := energyAllocatedConsumed
        residualVolume := residualVolume
        surplus := surplus
        sharingRate := sharingRate
        selfSufficiencyRate := selfSufficiencyRate
        consumers := [] }
  | _, _, _, _, _, _, _, _ => .error .validation

section Reading

variable [PyFloat F] (floatOf : List Char → F)

def IterationReader.piece (r : IterationReader F) : Piece → Except ReadError (IterationReader F)
  | .string token => r.string floatOf token
  | .run bytes => .ok (r.run bytes)

def IterationReader.finish (intOf : Json → Option Int) (r : IterationReader F) :
    Except ReadError (List (IterationTimeseries F) × Nat) := do
  let r ← r.endMember floatOf
  let iterations ← r.iterations.mapM (Members.validate intOf)
  pure (iterations, r.stride.getD 1)

/-- `read_iterations`. -/
def readIterations (intOf : Json → Option Int) (chunks : List (List UInt8)) (maxPoints : Nat) :
    Except ReadError (List (IterationTimeseries F) × Nat) := do
  let (ps, scan) := pieces .outside chunks
  let r ← ps.foldlM (fun r p => IterationReader.piece floatOf r p) (.start maxPoints)
  match scan with
  | .outside => r.finish floatOf intOf
  | .inside .. => throw .endsInsideString

end Reading

end SimulationKey
