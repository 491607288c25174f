import SimulationKey.Simulation.Refinement
import SimulationKey.Theorems.ChartSeries

/-!
# The chart of a run

`write_json` and `read_iterations` over one result: what the solver computed is
what the chart shows, its values sampled and no others. Of the two libraries in
between, the decimal text of a finite float must read back as that float.
-/

namespace SimulationKey.Theorems.ChartOfResult

open Kit Kit.Json Kit.Text PyFloat ChartSeries

variable {F : Type} [PyFloat F]

/-! ## Integers -/

theorem digits_isInt {digits : List Char} (h : IsInt digits) :
    ∀ c ∈ digits, c.isDigit = true := by
  intro c hc
  cases h with
  | zero =>
      obtain rfl := List.mem_singleton.mp hc
      rfl
  | more first nonzero rest =>
      rcases List.mem_cons.mp hc with rfl | hc
      · exact first
      · exact rest c hc

theorem toList_negSucc (n : Nat) :
    (toString (Int.negSucc n)).toList = '-' :: Nat.toDigits 10 (n + 1) := by
  show ("-" ++ Nat.repr (n + 1)).toList = _
  rw [String.toList_append, Nat.toList_repr]
  rfl

theorem isIntLexeme_int (n : Int) : isIntLexeme (toString n).toList = true := by
  have hdigits : ∀ m, isIntLexeme (Nat.toDigits 10 m) = true := fun m =>
    List.all_eq_true.mpr fun c hc => by simp [digits_isInt (isInt_toDigits m) c hc]
  cases n with
  | ofNat n =>
      show isIntLexeme (Nat.repr n).toList = true
      rw [Nat.toList_repr]
      exact hdigits n
  | negSucc n =>
      rw [toList_negSucc]
      have htail : isIntLexeme (Nat.toDigits 10 (n + 1)) = true := hdigits (n + 1)
      simpa [isIntLexeme] using htail

/-- The decimal text of an integer reads back as that integer. -/
theorem intValue_int (n : Int) : intValue (toString n).toList = n := by
  cases n with
  | ofNat n =>
      have hlead : ∀ c ds, Nat.toDigits 10 n = c :: ds → c ≠ '-' := by
        intro c ds h hc
        have hdigit := digits_isInt (isInt_toDigits n) c (by rw [h]; simp)
        rw [hc] at hdigit
        exact absurd hdigit (by decide)
      have hvalue : Nat.ofDigitChars 10 (Nat.toDigits 10 n) 0 = n := Nat.ofDigitChars_ten_toDigits
      show intValue (Nat.repr n).toList = _
      rw [Nat.toList_repr]
      generalize Nat.toDigits 10 n = digits at hlead hvalue
      unfold intValue
      split
      · next ds => exact absurd rfl (hlead '-' ds rfl)
      · rw [hvalue]
        rfl
  | negSucc n =>
      have hvalue : Nat.ofDigitChars 10 (Nat.toDigits 10 (n + 1)) 0 = n + 1 :=
        Nat.ofDigitChars_ten_toDigits
      rw [toList_negSucc, intValue, hvalue]
      omega

/-! ## Floats -/

/-- The text `float.__repr__` gives a finite float: a number with a fraction or an
exponent, which `float` reads back. -/
structure ReadsBack (floatRepr : F → List Char) (floatOf : List Char → F) : Prop where
  not_nan : ∀ x : F, isFinite x = true → isNaN x = false
  numeral : ∀ x, isFinite x = true → IsNumeral (floatRepr x)
  not_int : ∀ x, isFinite x = true → isIntLexeme (floatRepr x) = false
  read : ∀ x, isFinite x = true → floatOf (floatRepr x) = x

variable {floatRepr : F → List Char} {floatOf : List Char → F}

theorem floatJson_finite (h : ReadsBack floatRepr floatOf) {x : F} (hx : isFinite x = true) :
    floatJson floatRepr x = .num (floatRepr x) := by
  rw [floatJson, h.not_nan x hx, if_neg Bool.false_ne_true, if_pos hx]

theorem floatJson_nonFinite (floatRepr : F → List Char) {x : F} (hx : isFinite x = false) :
    ∃ c, floatJson floatRepr x = .nonFinite c := by
  have hnot : ¬ isFinite x = true := by simp [hx]
  unfold floatJson
  split_ifs
  · exact ⟨_, rfl⟩
  · exact ⟨_, rfl⟩
  · exact ⟨_, rfl⟩

theorem isSample_floatJson (h : ReadsBack floatRepr floatOf) (x : F) :
    IsSample floatOf (floatJson floatRepr x) := by
  cases hx : isFinite x with
  | true =>
      rw [floatJson_finite h hx]
      intro hint
      rw [h.not_int x hx] at hint
      cases hint
  | false =>
      obtain ⟨c, hc⟩ := floatJson_nonFinite floatRepr hx
      rw [hc]
      exact trivial

/-- `value if math.isfinite(value) else None`, of the solver's value. -/
def finiteOrNone (x : F) : Option F := if isFinite x then some x else none

theorem sample_floatJson (h : ReadsBack floatRepr floatOf) (x : F) :
    sample floatOf (floatJson floatRepr x) = finiteOrNone x := by
  cases hx : isFinite x with
  | true => rw [floatJson_finite h hx, sample, h.read x hx, finiteOrNone]
  | false =>
      obtain ⟨c, hc⟩ := floatJson_nonFinite floatRepr hx
      rw [hc, finiteOrNone, hx]
      rfl

/-! ## A result -/

def shown (stride : Nat) (xs : List F) : List (Option F) := (everyNth stride xs).map finiteOrNone

/-- What the chart is to show of an iteration. -/
def charted (stride : Nat) (it : IterationSimResult F) : IterationTimeseries F :=
  { number := it.number
    consumption := shown stride it.consumption
    energyAllocated := shown stride it.energyAllocated
    energyAllocatedConsumed := shown stride it.energyAllocatedConsumed
    residualVolume := shown stride it.residualVolume
    surplus := shown stride it.surplus
    sharingRate := shown stride it.sharingRate
    selfSufficiencyRate := shown stride it.selfSufficiencyRate
    consumers := [] }

theorem everyNth_map {α β : Type} (f : α → β) (stride : Nat) (xs : List α) :
    everyNth stride (xs.map f) = (everyNth stride xs).map f := by
  simp [everyNth, List.map_filterMap]

/-- The members of a consumer in the document. -/
def consumerMembers (floatRepr : F → List Char) (c : ConsumerSimResult F) :
    List (List Nat × Json) :=
  (points "name", nameJson c.name) ::
    ConsumerSeries.all.map fun s => (points s.name, seriesJson floatRepr (s.of c))

/-- An iteration of a result as the document has it. -/
def storedIteration (h : ReadsBack floatRepr floatOf) {T : Nat} (it : IterationSimResult F)
    (hlength : ∀ s : IterationSeries, (s.of it).length = T) : StoredIteration floatOf T where
  number := (toString it.number).toList
  series s := (s.of it).map (floatJson floatRepr)
  consumers := it.consumers.map (consumerMembers floatRepr)
  number_numeral := isNumeral_int it.number
  number_int := isIntLexeme_int it.number
  length_series s := by rw [List.length_map, hlength s]
  samples s v hv := by
    obtain ⟨x, -, rfl⟩ := List.mem_map.mp hv
    exact isSample_floatJson h x

section Stored

variable (h : ReadsBack floatRepr floatOf) {T : Nat} {it : IterationSimResult F}
  (hlength : ∀ s : IterationSeries, (s.of it).length = T)

theorem isStored_payload :
    IsStored (storedIteration h it hlength) (iterationPayload floatRepr it) := by
  refine ⟨_, rfl, ?_⟩
  have hconsumers : it.consumers.map (consumerPayload floatRepr) =
      (it.consumers.map (consumerMembers floatRepr)).map .obj := by
    rw [List.map_map]
    rfl
  rw [hconsumers]
  exact .refl _

theorem chart_stored (stride : Nat) :
    (storedIteration h it hlength).chart stride = charted stride it := by
  have hsampled : ∀ s : IterationSeries,
      (storedIteration h it hlength).sampled stride s = shown stride (s.of it) := by
    intro s
    show (everyNth stride ((s.of it).map (floatJson floatRepr))).map (sample floatOf) = _
    rw [everyNth_map, List.map_map, shown]
    exact List.map_congr_left fun x _ => sample_floatJson h x
  simp only [StoredIteration.chart, hsampled, charted]
  rw [storedIteration, intValue_int]
  rfl

end Stored

/-- The document of a result whose series all have `T` values. -/
theorem isDocument_writeJson (h : ReadsBack floatRepr floatOf) {T : Nat}
    {result : KeySimResult F}
    (hlength : ∀ it ∈ result.iterations, ∀ s : IterationSeries, (s.of it).length = T) :
    ∃ (its : List (StoredIteration floatOf T)) (text : List Char), IsDocument its text ∧
      (writeJson floatRepr result).flatten = encode text ∧
      ∀ stride, its.map (·.chart stride) = result.iterations.map (charted stride) := by
  obtain ⟨text, hdocument, htext⟩ := document_writeJson h.numeral result
  refine ⟨result.iterations.attach.map fun it => storedIteration h it.1 (hlength it.1 it.2), text,
    ⟨_, ?_, hdocument⟩, htext, fun stride => ?_⟩
  · rw [List.forall₂_map_left_iff, List.forall₂_map_right_iff]
    refine List.forall₂_iff_get.mpr ⟨by simp, fun i hi hi' => ?_⟩
    simp only [List.get_eq_getElem, List.getElem_attach]
    exact isStored_payload h _
  · rw [List.map_map]
    conv_rhs => rw [← List.attach_map_subtype_val result.iterations, List.map_map]
    exact List.map_congr_left fun it _ => chart_stored h (hlength it.1 it.2) stride

/-! ## A run -/

theorem length_iterationResult {consumerNames : List String} {T : Nat}
    (it : SimulationIterationInput F) (p : Pass F consumerNames.length T) (s : IterationSeries) :
    (s.of (iterationResult consumerNames it p)).length = T := by
  cases s <;> exact List.length_ofFn

/-- The chart of a run, from its stored series in any chunks: its iterations, each
series at the stride of the run's timesteps, with no value for a float that is not
finite. -/
theorem charted_as_computed (h : ReadsBack floatRepr floatOf) {intOf : Json → Option Int}
    (hint : ∀ lexeme, IsNumeral lexeme → isIntLexeme lexeme = true →
      intOf (.num lexeme) = some (intValue lexeme))
    {key : SimulationKeyInput F} {C VA : Mat F} {consumerNames : List String}
    {result : KeySimResult F} (hrun : runSimulation key C VA consumerNames = .ok result)
    {maxPoints : Nat} (hpoints : 1 ≤ maxPoints) {chunks : List (List UInt8)}
    (hchunks : chunks.flatten = (writeJson floatRepr result).flatten) :
    readIterations floatOf intOf chunks maxPoints =
      .ok (result.iterations.map (charted (strideOf C.cols maxPoints)),
        strideOf C.cols maxPoints) := by
  obtain ⟨haccepted, first, rest, hresults, rfl⟩ := runSimulation_ok_iff.mp hrun
  have hlength : ∀ it ∈ (keyResult key first rest).iterations, ∀ s : IterationSeries,
      (s.of it).length = C.cols := by
    intro it hit s
    have hmem : it ∈ haccepted.results := by
      rw [hresults]
      exact hit
    obtain ⟨x, -, rfl⟩ := List.mem_map.mp hmem
    exact length_iterationResult x.1 x.2 s
  obtain ⟨its, text, hdocument, htext, hcharts⟩ := isDocument_writeJson h hlength
  obtain ⟨s, hread, -, hstride⟩ :=
    readIterations_stored hint hpoints hdocument (hchunks.trans htext)
  have hits : its ≠ [] := by
    rintro rfl
    have hnone := hcharts 1
    cases hnone
  rw [hread, hstride hits, hcharts]

/-! ## Whole numbers -/

/-- A format with the whole numbers, quotients rounded down to them, and one value
that is not a number. -/
structure NanInt where
  value : Option Int
  deriving DecidableEq, Repr

namespace NanInt

def map₂ (f : Int → Int → Int) (x y : NanInt) : NanInt := ⟨Option.map₂ f x.value y.value⟩

/-- A comparison with it is false. -/
def less : NanInt → NanInt → Bool
  | ⟨some m⟩, ⟨some n⟩ => m < n
  | _, _ => false

instance : PyFloat NanInt where
  zero := ⟨some 0⟩
  one := ⟨some 1⟩
  neg x := ⟨x.value.map (- ·)⟩
  add := map₂ (· + ·)
  sub := map₂ (· - ·)
  mul := map₂ (· * ·)
  div := map₂ (· / ·)
  min := map₂ min
  lt x y := less x y = true
  eqDec := inferInstance
  ltDec x y := inferInstanceAs (Decidable (less x y = true))
  isNaN x := x.value.isNone
  isFinite x := x.value.isSome
  isFinite_zero := rfl
  isNaN_of_finite x h := by simpa using h
  sumBy _ l := l.foldl (map₂ (· + ·)) ⟨some 0⟩
  overflows _ := false

/-- `1.0`, as `float.__repr__` gives a whole number. -/
def repr (x : NanInt) : List Char := (toString (x.value.getD 0)).toList ++ ['.', '0']

def ofLexeme (lexeme : List Char) : NanInt := ⟨some (intValue (lexeme.takeWhile (· ≠ '.')))⟩

end NanInt

theorem isNumeral_point (n : Int) : IsNumeral ((toString n).toList ++ ['.', '0']) := by
  have hfraction : IsFrac ['.', '0'] := .some (by simp) fun c hc => by
    obtain rfl := List.mem_singleton.mp hc
    rfl
  cases n with
  | ofNat n =>
      show IsNumeral ((Nat.repr n).toList ++ _)
      rw [Nat.toList_repr]
      exact @IsNumeral.mk [] _ _ [] (Or.inl rfl) (isInt_toDigits n) hfraction .none
  | negSucc n =>
      rw [toList_negSucc]
      exact @IsNumeral.mk ['-'] _ _ [] (Or.inr rfl) (isInt_toDigits (n + 1)) hfraction .none

theorem takeWhile_point (n : Int) :
    ((toString n).toList ++ ['.', '0']).takeWhile (· ≠ '.') = (toString n).toList := by
  have hint := List.all_eq_true.mp (isIntLexeme_int n)
  rw [List.takeWhile_append_of_pos]
  · simp
  · intro c hc
    have hchar := hint c hc
    simp only [ne_eq, decide_eq_true_eq]
    rintro rfl
    exact absurd hchar (by decide)

theorem readsBack_nanInt : ReadsBack NanInt.repr NanInt.ofLexeme where
  not_nan x hx := by
    show x.value.isNone = false
    have hsome : x.value.isSome = true := hx
    rw [← Option.not_isSome, hsome]
    rfl
  numeral x _ := isNumeral_point _
  not_int x _ := by
    rw [NanInt.repr, isIntLexeme, List.all_append]
    simp
  read x hx := by
    obtain ⟨n, hn⟩ := Option.isSome_iff_exists.mp (show x.value.isSome = true from hx)
    cases x with
    | mk value =>
        obtain rfl : value = some n := hn
        show NanInt.ofLexeme (NanInt.repr ⟨some n⟩) = _
        rw [NanInt.repr, Option.getD_some, NanInt.ofLexeme, takeWhile_point, intValue_int]

/-- One consumer over three timesteps, the last one not a number. -/
def gapConsumption : Mat NanInt := ⟨1, 3, fun _ t => if t = 2 then ⟨none⟩ else ⟨some (t + 1)⟩⟩

def gapProduction : Mat NanInt := ⟨1, 3, fun _ t => ⟨some (5 * t - 2)⟩⟩

def gapKey : SimulationKeyInput NanInt :=
  { name := "key", description := "", iterations := [⟨1, ⟨some 1⟩, [⟨"A", ⟨some (-1)⟩⟩]⟩] }

/-- Two of the three timesteps, from chunks of one byte. -/
theorem charted_as_computed_gap :
    ∃ result, runSimulation gapKey gapConsumption gapProduction ["A"] = .ok result ∧
      readIterations NanInt.ofLexeme intOfNumber
          ((writeJson NanInt.repr result).flatten.map fun b => [b]) 2 =
        .ok (result.iterations.map (charted (strideOf 3 2)), strideOf 3 2) := by
  have haccepted : Accepted gapKey gapConsumption gapProduction ["A"] :=
    ⟨by decide, by decide, rfl, ⟨le_rfl, rfl⟩, by decide⟩
  obtain ⟨result, hrun⟩ := haccepted.run_ok
  exact ⟨result, hrun, charted_as_computed readsBack_nanInt intOfNumber_int hrun (by omega)
    (List.flatMap_singleton' _)⟩

end SimulationKey.Theorems.ChartOfResult
