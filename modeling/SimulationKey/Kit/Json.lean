import SimulationKey.Kit.Text

/-!
# JSON texts

Values, the texts that write them, and a reader. `Writes` is the grammar: the
same value has many texts (blanks between tokens, escapes inside strings), and
a text is read with what really follows it, so that no number is cut short.

Besides the grammar's own tokens a text may hold the three a lenient writer
puts for the numbers JSON has none for; a `Strict` value has none of them.
Numbers are kept as their lexemes, strings as code points.
-/

namespace SimulationKey.Kit

open Text

/-- The numbers JSON has no token for. -/
inductive NonFinite where
  | nan
  | infinity
  | negInfinity
  deriving DecidableEq, Repr

def NonFinite.text : NonFinite → List Char
  | .nan => "NaN".toList
  | .infinity => "Infinity".toList
  | .negInfinity => "-Infinity".toList

inductive Json where
  | null
  | bool (b : Bool)
  | num (lexeme : List Char)
  | nonFinite (c : NonFinite)
  | str (s : List Nat)
  | arr (vs : List Json)
  | obj (ms : List (List Nat × Json))
  deriving Repr

namespace Json

/-- The code points of a string. -/
def points (s : String) : List Nat := s.toList.map Char.toNat

/-! ## Strict values -/

mutual

/-- No number JSON has no token for. -/
def Strict : Json → Prop
  | .nonFinite _ => False
  | .arr vs => StrictAll vs
  | .obj ms => StrictMembers ms
  | _ => True

def StrictAll : List Json → Prop
  | [] => True
  | v :: vs => v.Strict ∧ StrictAll vs

def StrictMembers : List (List Nat × Json) → Prop
  | [] => True
  | (_, v) :: ms => v.Strict ∧ StrictMembers ms

end

mutual

/-- The value with `null` for every number JSON has no token for. -/
def nulled : Json → Json
  | .nonFinite _ => .null
  | .arr vs => .arr (nulledAll vs)
  | .obj ms => .obj (nulledMembers ms)
  | v => v

def nulledAll : List Json → List Json
  | [] => []
  | v :: vs => v.nulled :: nulledAll vs

def nulledMembers : List (List Nat × Json) → List (List Nat × Json)
  | [] => []
  | (k, v) :: ms => (k, v.nulled) :: nulledMembers ms

end

mutual

theorem strict_nulled : (v : Json) → v.nulled.Strict
  | .null | .bool _ | .num _ | .nonFinite _ | .str _ => trivial
  | .arr vs => strictAll_nulled vs
  | .obj ms => strictMembers_nulled ms

theorem strictAll_nulled : (vs : List Json) → StrictAll (nulledAll vs)
  | [] => trivial
  | v :: vs => ⟨strict_nulled v, strictAll_nulled vs⟩

theorem strictMembers_nulled : (ms : List (List Nat × Json)) → StrictMembers (nulledMembers ms)
  | [] => trivial
  | (_, v) :: ms => ⟨strict_nulled v, strictMembers_nulled ms⟩

end

/-! ## Tokens -/

/-- `ws = *( %x20 / %x09 / %x0A / %x0D )` -/
def isBlank (c : Char) : Bool :=
  c ∈ [Char.ofNat 0x20, Char.ofNat 0x09, Char.ofNat 0x0a, Char.ofNat 0x0d]

def Blank (w : List Char) : Prop := ∀ c ∈ w, isBlank c = true

/-- `*DIGIT` -/
def Digits (ds : List Char) : Prop := ∀ c ∈ ds, c.isDigit = true

/-- `int = zero / ( digit1-9 *DIGIT )` -/
inductive IsInt : List Char → Prop where
  | zero : IsInt ['0']
  | more {d : Char} {ds : List Char} (first : d.isDigit = true) (nonzero : d ≠ '0')
      (rest : Digits ds) : IsInt (d :: ds)

/-- `[ frac ]`, `frac = decimal-point 1*DIGIT` -/
inductive IsFrac : List Char → Prop where
  | none : IsFrac []
  | some {ds : List Char} (nonempty : ds ≠ []) (digits : Digits ds) : IsFrac ('.' :: ds)

/-- `[ exp ]`, `exp = e [ minus / plus ] 1*DIGIT` -/
inductive IsExp : List Char → Prop where
  | none : IsExp []
  | some {e : Char} {sign ds : List Char} (mark : e = 'e' ∨ e = 'E')
      (signed : sign = [] ∨ sign = ['+'] ∨ sign = ['-']) (nonempty : ds ≠ [])
      (digits : Digits ds) : IsExp (e :: (sign ++ ds))

/-- `number = [ minus ] int [ frac ] [ exp ]` -/
inductive IsNumeral : List Char → Prop where
  | mk {minus int frac exp : List Char} (sign : minus = [] ∨ minus = ['-']) (whole : IsInt int)
      (fraction : IsFrac frac) (exponent : IsExp exp) :
      IsNumeral (minus ++ (int ++ (frac ++ exp)))

/-- The characters of a number. -/
theorem IsNumeral.chars {lexeme : List Char} (h : IsNumeral lexeme) :
    ∀ c ∈ lexeme, c.isDigit = true ∨ c ∈ ['-', '+', '.', 'e', 'E'] := by
  cases h with
  | @mk minus int frac exp sign whole fraction exponent =>
      intro c hc
      simp only [List.mem_append] at hc
      rcases hc with hc | hc | hc | hc
      · rcases sign with rfl | rfl
        · cases hc
        · exact Or.inr (by simp_all)
      · cases whole with
        | zero => exact Or.inl (by simp_all)
        | more first nonzero rest =>
            rcases List.mem_cons.mp hc with rfl | hc
            · exact Or.inl first
            · exact Or.inl (rest c hc)
      · cases fraction with
        | none => cases hc
        | some nonempty digits =>
            rcases List.mem_cons.mp hc with rfl | hc
            · exact Or.inr (by decide)
            · exact Or.inl (digits c hc)
      · cases exponent with
        | none => cases hc
        | some mark signed nonempty digits =>
            rcases List.mem_cons.mp hc with rfl | hc
            · exact Or.inr (by rcases mark with rfl | rfl <;> decide)
            · rcases List.mem_append.mp hc with hc | hc
              · rcases signed with rfl | rfl | rfl
                · cases hc
                · exact Or.inr (by simp_all)
                · exact Or.inr (by simp_all)
              · exact Or.inl (digits c hc)

/-- The escapes of one letter. -/
def shortEscape (e : Char) : Option Nat :=
  if e = doubleQuote then some 0x22
  else if e = backslash then some 0x5c
  else match e with
    | '/' => some 0x2f
    | 'b' => some 0x08
    | 'f' => some 0x0c
    | 'n' => some 0x0a
    | 'r' => some 0x0d
    | 't' => some 0x09
    | _ => none

def hexDigit (c : Char) : Option Nat :=
  if '0' ≤ c ∧ c ≤ '9' then some (c.toNat - 48)
  else if 'a' ≤ c ∧ c ≤ 'f' then some (c.toNat - 87)
  else if 'A' ≤ c ∧ c ≤ 'F' then some (c.toNat - 55)
  else none

/-- Four hexadecimal digits. -/
def hexValue (a b c d : Char) : Option Nat := do
  let a ← hexDigit a
  let b ← hexDigit b
  let c ← hexDigit c
  let d ← hexDigit d
  some (a * 0x1000 + b * 0x100 + c * 0x10 + d)

def isHigh (n : Nat) : Bool := 0xd800 ≤ n && n ≤ 0xdbff

def isLow (n : Nat) : Bool := 0xdc00 ≤ n && n ≤ 0xdfff

/-- The code point of a surrogate pair. -/
def pairValue (high low : Nat) : Nat := 0x10000 + (high - 0xd800) * 0x400 + (low - 0xdc00)

/-- A text for one code point inside a string. -/
inductive WritesPoint : Nat → List Char → Prop where
  | raw {c : Char} (quote : c ≠ doubleQuote) (escape : c ≠ backslash) (control : 0x20 ≤ c.toNat) :
      WritesPoint c.toNat [c]
  | short {n : Nat} {e : Char} (h : shortEscape e = some n) : WritesPoint n [backslash, e]
  | hex {n : Nat} {a b c d : Char} (h : hexValue a b c d = some n) (high : isHigh n = false) :
      WritesPoint n [backslash, 'u', a, b, c, d]
  | pair {high low : Nat} {a b c d a' b' c' d' : Char} (h : hexValue a b c d = some high)
      (h' : hexValue a' b' c' d' = some low) (first : isHigh high = true)
      (second : isLow low = true) :
      WritesPoint (pairValue high low)
        [backslash, 'u', a, b, c, d, backslash, 'u', a', b', c', d']

/-- `*char` -/
inductive WritesPoints : List Nat → List Char → Prop where
  | nil : WritesPoints [] []
  | cons {n : Nat} {s : List Nat} {t ts : List Char} (head : WritesPoint n t)
      (tail : WritesPoints s ts) : WritesPoints (n :: s) (t ++ ts)

/-- `string = quotation-mark *char quotation-mark` -/
inductive WritesString (s : List Nat) : List Char → Prop where
  | mk {body : List Char} (points : WritesPoints s body) :
      WritesString s (doubleQuote :: (body ++ [doubleQuote]))

/-! ## Values -/

/-- What a text stands for: a value, or what stands between two brackets. -/
inductive Shape where
  | value (v : Json)
  | elements (vs : List Json)
  | members (ms : List (List Nat × Json))

def Shape.Strict : Shape → Prop
  | .value v => v.Strict
  | .elements vs => StrictAll vs
  | .members ms => StrictMembers ms

def Shape.nulled : Shape → Shape
  | .value v => .value v.nulled
  | .elements vs => .elements (nulledAll vs)
  | .members ms => .members (nulledMembers ms)

/-- A text for a value, or for what stands between two brackets. -/
inductive Writes : Shape → List Char → Prop where
  | null : Writes (.value .null) "null".toList
  | true : Writes (.value (.bool true)) "true".toList
  | false : Writes (.value (.bool false)) "false".toList
  | num {lexeme : List Char} (h : IsNumeral lexeme) : Writes (.value (.num lexeme)) lexeme
  | nonFinite (c : NonFinite) : Writes (.value (.nonFinite c)) c.text
  | str {s : List Nat} {token : List Char} (h : WritesString s token) :
      Writes (.value (.str s)) token
  /-- `array = begin-array [ value *( value-separator value ) ] end-array` -/
  | arr {vs : List Json} {text : List Char} (h : Writes (.elements vs) text) :
      Writes (.value (.arr vs)) ('[' :: (text ++ [']']))
  /-- `object = begin-object [ member *( value-separator member ) ] end-object` -/
  | obj {ms : List (List Nat × Json)} {text : List Char} (h : Writes (.members ms) text) :
      Writes (.value (.obj ms)) ('{' :: (text ++ ['}']))
  | noElement {w : List Char} (blank : Blank w) : Writes (.elements []) w
  | lastElement {v : Json} {w text w' : List Char} (blank : Blank w)
      (h : Writes (.value v) text) (blank' : Blank w') :
      Writes (.elements [v]) (w ++ (text ++ w'))
  | nextElement {v u : Json} {vs : List Json} {w text w' texts : List Char} (blank : Blank w)
      (h : Writes (.value v) text) (blank' : Blank w') (rest : Writes (.elements (u :: vs)) texts) :
      Writes (.elements (v :: u :: vs)) (w ++ (text ++ (w' ++ ',' :: texts)))
  | noMember {w : List Char} (blank : Blank w) : Writes (.members []) w
  | lastMember {k : List Nat} {v : Json} {w key w₁ w₂ text w' : List Char} (blank : Blank w)
      (name : WritesString k key) (blank₁ : Blank w₁) (blank₂ : Blank w₂)
      (h : Writes (.value v) text) (blank' : Blank w') :
      Writes (.members [(k, v)]) (w ++ (key ++ (w₁ ++ ':' :: (w₂ ++ (text ++ w')))))
  | nextMember {k : List Nat} {v : Json} {m : List Nat × Json} {ms : List (List Nat × Json)}
      {w key w₁ w₂ text w' texts : List Char} (blank : Blank w) (name : WritesString k key)
      (blank₁ : Blank w₁) (blank₂ : Blank w₂) (h : Writes (.value v) text) (blank' : Blank w')
      (rest : Writes (.members (m :: ms)) texts) :
      Writes (.members ((k, v) :: m :: ms))
        (w ++ (key ++ (w₁ ++ ':' :: (w₂ ++ (text ++ (w' ++ ',' :: texts))))))

/-- `JSON-text = ws value ws` -/
inductive Document (v : Json) : List Char → Prop where
  | mk {w text w' : List Char} (blank : Blank w) (h : Writes (.value v) text) (blank' : Blank w') :
      Document v (w ++ (text ++ w'))

end Json

end SimulationKey.Kit
