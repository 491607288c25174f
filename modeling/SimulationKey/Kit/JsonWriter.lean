import SimulationKey.Kit.Json

/-!
# Writing JSON texts

Python's `json.dumps` with its defaults: a comma and a blank between elements, a
colon and a blank behind a name, every character outside ASCII escaped. What it
writes for a value the grammar derives for that value.
-/

namespace SimulationKey.Kit.Json

open Text

/-! ## The writer -/

/-- `'{:04x}'.format(n)`. -/
def hex4 (n : Nat) : List Char :=
  [Nat.digitChar (n / 0x1000 % 16), Nat.digitChar (n / 0x100 % 16), Nat.digitChar (n / 0x10 % 16),
    Nat.digitChar (n % 16)]

/-- A code point inside a string. -/
def escapeAscii (n : Nat) : List Char :=
  if n = 0x22 then [backslash, doubleQuote]
  else if n = 0x5c then [backslash, backslash]
  else if n = 0x0a then [backslash, 'n']
  else if n = 0x0d then [backslash, 'r']
  else if n = 0x09 then [backslash, 't']
  else if n = 0x0c then [backslash, 'f']
  else if n = 0x08 then [backslash, 'b']
  else if 0x20 ≤ n ∧ n ≤ 0x7e then [Char.ofNat n]
  else if n < 0x10000 then backslash :: 'u' :: hex4 n
  else
    backslash :: 'u' :: (hex4 (0xd800 + (n - 0x10000) / 0x400 % 0x400) ++
      backslash :: 'u' :: hex4 (0xdc00 + (n - 0x10000) % 0x400))

/-- `encode_basestring_ascii`. -/
def dumpsString (s : List Nat) : List Char :=
  doubleQuote :: (s.flatMap escapeAscii ++ [doubleQuote])

mutual

def dumps : Json → List Char
  | .null => "null".toList
  | .bool true => "true".toList
  | .bool false => "false".toList
  | .num lexeme => lexeme
  | .nonFinite c => c.text
  | .str s => dumpsString s
  | .arr vs => '[' :: (dumpsElements vs ++ [']'])
  | .obj ms => '{' :: (dumpsMembers ms ++ ['}'])

def dumpsElements : List Json → List Char
  | [] => []
  | [v] => dumps v
  | v :: u :: vs => dumps v ++ ',' :: ' ' :: dumpsElements (u :: vs)

def dumpsMembers : List (List Nat × Json) → List Char
  | [] => []
  | [(k, v)] => dumpsString k ++ ':' :: ' ' :: dumps v
  | (k, v) :: m :: ms =>
    dumpsString k ++ ':' :: ' ' :: (dumps v ++ ',' :: ' ' :: dumpsMembers (m :: ms))

end

/-! ## Values with a text -/

/-- Code points of Unicode characters. -/
def Scalars (s : List Nat) : Prop := ∀ n ∈ s, n.isValidChar

theorem scalars_points (s : String) : Scalars (points s) := by
  intro n hn
  obtain ⟨c, -, rfl⟩ := List.mem_map.mp hn
  exact c.valid

mutual

/-- Numbers are numbers of the grammar, and strings of Unicode characters. -/
def Legal : Json → Prop
  | .num lexeme => IsNumeral lexeme
  | .str s => Scalars s
  | .arr vs => LegalAll vs
  | .obj ms => LegalMembers ms
  | _ => True

def LegalAll : List Json → Prop
  | [] => True
  | v :: vs => v.Legal ∧ LegalAll vs

def LegalMembers : List (List Nat × Json) → Prop
  | [] => True
  | (k, v) :: ms => Scalars k ∧ v.Legal ∧ LegalMembers ms

end

/-! ## What it writes -/

theorem hexDigit_digitChar : ∀ d < 16, hexDigit (Nat.digitChar d) = some d := by decide

/-- The four digits of a number are read as it. -/
theorem hex4_value {n : Nat} (h : n < 0x10000) :
    ∃ a b c d, hex4 n = [a, b, c, d] ∧ hexValue a b c d = some n := by
  refine ⟨_, _, _, _, rfl, ?_⟩
  simp only [hexValue, hexDigit_digitChar _ (Nat.mod_lt _ (by omega : 0 < 16)),
    Option.bind_eq_bind, Option.bind_some, Option.some.injEq]
  omega

theorem writes_escape {n : Nat} (h : n.isValidChar) : WritesPoint n (escapeAscii n) := by
  have hvalid : n < 0xd800 ∨ 0xdfff < n ∧ n < 0x110000 := h
  unfold escapeAscii
  split_ifs with h₁ h₂ h₃ h₄ h₅ h₆ h₇ h₈ h₉
  · exact h₁ ▸ .short rfl
  · exact h₂ ▸ .short rfl
  · exact h₃ ▸ .short rfl
  · exact h₄ ▸ .short rfl
  · exact h₅ ▸ .short rfl
  · exact h₆ ▸ .short rfl
  · exact h₇ ▸ .short rfl
  · -- a printable character
    have hchar : (Char.ofNat n).toNat = n := by
      rw [Char.toNat_ofNat, if_pos h]
    have hraw : WritesPoint (Char.ofNat n).toNat [Char.ofNat n] := by
      refine .raw (fun heq => h₁ ?_) (fun heq => h₂ ?_) (by omega)
      · rw [← hchar, heq]; decide
      · rw [← hchar, heq]; decide
    rwa [hchar] at hraw
  · -- the basic plane
    obtain ⟨a, b, c, d, htext, hvalue⟩ := hex4_value h₉
    rw [htext]
    refine .hex hvalue ?_
    simp only [isHigh, Bool.and_eq_false_iff, decide_eq_false_iff_not]
    omega
  · -- a surrogate pair
    obtain ⟨a, b, c, d, htext, hvalue⟩ :=
      hex4_value (n := 0xd800 + (n - 0x10000) / 0x400 % 0x400) (by omega)
    obtain ⟨a', b', c', d', htext', hvalue'⟩ :=
      hex4_value (n := 0xdc00 + (n - 0x10000) % 0x400) (by omega)
    have hpair := WritesPoint.pair hvalue hvalue' (by simp [isHigh]; omega)
      (by simp [isLow]; omega)
    have hn : pairValue (0xd800 + (n - 0x10000) / 0x400 % 0x400)
        (0xdc00 + (n - 0x10000) % 0x400) = n := by
      unfold pairValue
      omega
    rw [hn] at hpair
    rw [htext, htext']
    exact hpair

theorem writes_dumpsString {s : List Nat} (h : Scalars s) : WritesString s (dumpsString s) := by
  refine .mk ?_
  induction s with
  | nil => exact .nil
  | cons n s ih =>
      exact .cons (writes_escape (h n (by simp))) (ih fun m hm => h m (by simp [hm]))

/-- The digits of a natural number. -/
theorem isInt_toDigits (n : Nat) : IsInt (Nat.toDigits 10 n) := by
  induction n using Nat.strong_induction_on with
  | _ n ih =>
      by_cases hn : n < 10
      · rw [Nat.toDigits_of_lt_base hn]
        rcases Nat.eq_zero_or_pos n with rfl | hpos
        · exact .zero
        · refine .more ?_ ?_ fun c hc => by cases hc
          · interval_cases n <;> decide
          · interval_cases n <;> decide
      · have hdigit : (Nat.digitChar (n % 10)).isDigit = true := by
          have hlt : n % 10 < 10 := Nat.mod_lt _ (by omega)
          interval_cases n % 10 <;> decide
        have hlead := ih (n / 10) (by omega)
        rw [Nat.toDigits_of_base_le (by omega) (by omega)]
        generalize hdigits : Nat.toDigits 10 (n / 10) = ds at hlead
        cases hlead with
        | zero =>
            -- the digits in front are not those of zero
            have hvalue : n / 10 = 0 := by
              rw [← Nat.ofDigitChars_ten_toDigits (n := n / 10), hdigits]
              rfl
            omega
        | more first nonzero rest =>
            refine .more first nonzero fun c hc => ?_
            rcases List.mem_append.mp hc with hc | hc
            · exact rest c hc
            · obtain rfl := List.mem_singleton.mp hc
              exact hdigit

theorem isNumeral_int (n : Int) : IsNumeral (toString n).toList := by
  cases n with
  | ofNat n =>
      have htext : (toString (Int.ofNat n)).toList = [] ++ (Nat.toDigits 10 n ++ ([] ++ [])) := by
        rw [List.nil_append, List.append_nil, List.append_nil]
        exact Nat.toList_repr
      rw [htext]
      exact .mk (Or.inl rfl) (isInt_toDigits n) .none .none
  | negSucc n =>
      have htext : (toString (Int.negSucc n)).toList =
          ['-'] ++ (Nat.toDigits 10 (n + 1) ++ ([] ++ [])) := by
        rw [List.append_nil, List.append_nil]
        show ("-" ++ Nat.repr (n + 1)).toList = _
        rw [String.toList_append, Nat.toList_repr]
        rfl
      rw [htext]
      exact .mk (Or.inr rfl) (isInt_toDigits (n + 1)) .none .none

theorem blank_nil : Blank [] := fun c hc => by cases hc

theorem blank_space : Blank [' '] := by
  intro c hc
  obtain rfl := List.mem_singleton.mp hc
  decide

mutual

/-- What is written for a value is a text for it. -/
theorem writes_dumps : (v : Json) → v.Legal → Writes (.value v) (dumps v)
  | .null, _ => .null
  | .bool true, _ => .true
  | .bool false, _ => .false
  | .num _, h => .num h
  | .nonFinite c, _ => .nonFinite c
  | .str _, h => .str (writes_dumpsString h)
  | .arr vs, h => .arr (writes_dumpsElements vs h [] blank_nil)
  | .obj ms, h => .obj (writes_dumpsMembers ms h [] blank_nil)

theorem writes_dumpsElements : (vs : List Json) → LegalAll vs → (w : List Char) → Blank w →
    Writes (.elements vs) (w ++ dumpsElements vs)
  | [], _, w, hw => by
      rw [dumpsElements, List.append_nil]
      exact .noElement hw
  | [v], h, w, hw => by
      have hv := Writes.lastElement hw (writes_dumps v h.1) blank_nil
      rw [List.append_nil] at hv
      exact hv
  | v :: u :: vs, h, w, hw =>
      .nextElement hw (writes_dumps v h.1) blank_nil
        (writes_dumpsElements (u :: vs) h.2 [' '] blank_space)

theorem writes_dumpsMembers : (ms : List (List Nat × Json)) → LegalMembers ms →
    (w : List Char) → Blank w → Writes (.members ms) (w ++ dumpsMembers ms)
  | [], _, w, hw => by
      rw [dumpsMembers, List.append_nil]
      exact .noMember hw
  | [(k, v)], h, w, hw => by
      have hm := Writes.lastMember hw (writes_dumpsString h.1) blank_nil blank_space
        (writes_dumps v h.2.1) blank_nil
      rw [List.append_nil] at hm
      exact hm
  | (k, v) :: m :: ms, h, w, hw =>
      .nextMember hw (writes_dumpsString h.1) blank_nil blank_space (writes_dumps v h.2.1)
        blank_nil (writes_dumpsMembers (m :: ms) h.2.2 [' '] blank_space)

end

end SimulationKey.Kit.Json
