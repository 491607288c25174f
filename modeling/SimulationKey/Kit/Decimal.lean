import SimulationKey.Kit.Text

/-!
# Decimal numbers

`int` reads the digits that `str` writes, up to the length it takes.
-/

namespace SimulationKey.Kit.Text

theorem isDigit_bounds {c : Char} (h : c.isDigit = true) : 0x30 ≤ c.toNat ∧ c.toNat < 0x3a := by
  simp only [Char.isDigit, Bool.and_eq_true, decide_eq_true_eq, ge_iff_le, UInt32.le_iff_toNat_le]
    at h
  have hlow : 0x30 ≤ c.val.toNat := h.1
  have hhigh : c.val.toNat ≤ 0x39 := h.2
  constructor
  · exact hlow
  · show c.val.toNat < 0x3a
    omega

theorem digitValue_digit {c : Char} (h : c.isDigit = true) :
    digitValue c = some (c.toNat - '0'.toNat) := by
  have hbounds := isDigit_bounds h
  have hfirst : decide (0x30 ≤ c.toNat ∧ c.toNat < 0x30 + 10) = true := by
    simp only [decide_eq_true_eq]
    omega
  have hzeros : decimalZeros = 0x30 :: decimalZeros.tail := rfl
  have hfind : (decimalZeros.find? fun first => first ≤ c.toNat ∧ c.toNat < first + 10) =
      some 0x30 := by
    rw [hzeros]
    exact List.find?_cons_of_pos hfirst
  rw [digitValue, hfind]
  rfl

theorem not_intBlank_of_digit {c : Char} (h : c.isDigit = true) : isIntBlank c = false := by
  have hbounds := isDigit_bounds h
  simp only [isIntBlank, Bool.or_eq_false_iff, Bool.and_eq_false_iff, decide_eq_false_iff_not]
  omega

theorem ne_of_digit {c d : Char} (h : c.isDigit = true) (hd : d.isDigit = false) : c ≠ d := by
  rintro rfl
  rw [h] at hd
  cases hd

section Digits

variable {ds : List Char} (hd : ∀ c ∈ ds, c.isDigit = true)

include hd

theorem dropWhile_intBlank : ds.dropWhile isIntBlank = ds := by
  cases ds with
  | nil => rfl
  | cons c ds =>
      rw [List.dropWhile_cons_of_neg]
      rw [not_intBlank_of_digit (hd c List.mem_cons_self)]
      exact Bool.false_ne_true

theorem rdropWhile_intBlank : ds.rdropWhile isIntBlank = ds := by
  have hreverse : ∀ c ∈ ds.reverse, c.isDigit = true := fun c hc => hd c (List.mem_reverse.mp hc)
  rw [List.rdropWhile, dropWhile_intBlank hreverse, List.reverse_reverse]

theorem mapM_digitValue :
    ds.mapM digitValue = some (ds.map fun c => c.toNat - '0'.toNat) := by
  induction ds with
  | nil => rfl
  | cons c ds ih =>
      rw [List.mapM_cons, digitValue_digit (hd c List.mem_cons_self),
        ih fun d hmem => hd d (List.mem_cons_of_mem c hmem)]
      rfl

/-- Digits, not too many, are read as the number they write. -/
theorem pyInt_digits (hne : ds ≠ []) (hlength : ds.length ≤ maxStrDigits) :
    pyInt (String.ofList ds) = some ((Nat.ofDigitChars 10 ds 0 : Nat) : Int) := by
  have hsign : ∀ c : Char, c.isDigit = false → ds.head? ≠ some c := by
    intro c hc hhead
    exact ne_of_digit (hd c (List.mem_of_mem_head? hhead)) hc rfl
  have hminus : ds.head? ≠ some '-' := hsign '-' (by decide)
  have hplus : ds.head? ≠ some '+' := hsign '+' (by decide)
  have hunderscore : ∀ c ∈ ds, c ≠ '_' := fun c hc => ne_of_digit (hd c hc) (by decide)
  have hsplit : ds.splitOn '_' = [ds] :=
    List.splitOnP_eq_singleton fun c hc => by simpa using hunderscore c hc
  have hfilter : ds.filter (· ≠ '_') = ds :=
    List.filter_eq_self.mpr fun c hc => by simpa using hunderscore c hc
  have hempty : ([ds].any List.isEmpty) = false := by simpa using hne
  simp only [pyInt, String.toList_ofList, dropWhile_intBlank hd, rdropWhile_intBlank hd, hminus,
    hplus, or_self, if_false, hsplit, hempty, Bool.false_eq_true, hfilter, mapM_digitValue hd,
    List.length_map, Nat.not_lt.mpr hlength]
  rw [List.foldl_map, Nat.ofDigitChars_eq_foldl]

end Digits

/-- `int(str(n))`. -/
theorem pyInt_toString {n : Nat} (hlength : (Nat.toDigits 10 n).length ≤ maxStrDigits) :
    pyInt (toString n) = some ((n : Nat) : Int) := by
  have hdigits : ∀ c ∈ Nat.toDigits 10 n, c.isDigit = true := fun c hc =>
    Nat.isDigit_of_mem_toDigits (by omega) le_rfl hc
  rw [Nat.toString_eq_ofList_toDigits, pyInt_digits hdigits Nat.toDigits_ne_nil hlength,
    Nat.ofDigitChars_ten_toDigits]

end SimulationKey.Kit.Text
