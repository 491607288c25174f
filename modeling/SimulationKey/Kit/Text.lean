import Mathlib

/-!
# Python texts

The string operations the program's messages and comparisons rest on: `strip`,
`repr`, slicing and the text of a list or a shape. Strings are sequences of code
points, as Python's are.
-/

namespace SimulationKey.Kit.Text

/-! ## Trimming -/

/-- The code points `str.isspace` accepts, which `str.strip` removes. -/
def isSpace (c : Char) : Bool :=
  c.toNat ∈ [0x20, 0x85, 0xa0, 0x1680, 0x2028, 0x2029, 0x202f, 0x205f, 0x3000] ||
    (0x09 ≤ c.toNat && c.toNat ≤ 0x0d) || (0x1c ≤ c.toNat && c.toNat ≤ 0x1f) ||
    (0x2000 ≤ c.toNat && c.toNat ≤ 0x200a)

/-- `str.strip()`. -/
def strip (s : String) : String :=
  String.ofList ((s.toList.dropWhile isSpace).rdropWhile isSpace)

/-- What is left after trimming both ends starts with no trimmed element. -/
theorem dropWhile_rdropWhile {α : Type} (p : α → Bool) (l : List α) :
    ((l.dropWhile p).rdropWhile p).dropWhile p = (l.dropWhile p).rdropWhile p := by
  rcases hcut : (l.dropWhile p).rdropWhile p with _ | ⟨a, rest⟩
  · rfl
  · obtain ⟨suffix, hsuffix⟩ := List.rdropWhile_prefix p (l.dropWhile p)
    rw [hcut, List.cons_append] at hsuffix
    have hhead := List.head?_dropWhile_not p l
    rw [← hsuffix] at hhead
    exact List.dropWhile_cons_of_neg (by simpa using hhead)

@[simp] theorem strip_strip (s : String) : strip (strip s) = strip s := by
  simp only [strip, String.toList_ofList, dropWhile_rdropWhile, List.rdropWhile_idempotent]

theorem length_strip_le (s : String) : (strip s).length ≤ s.length := by
  have htrimmed : ((s.toList.dropWhile isSpace).rdropWhile isSpace).length ≤ s.toList.length :=
    (List.rdropWhile_prefix isSpace _).length_le.trans (List.length_dropWhile_le _ _)
  rw [String.length_toList] at htrimmed
  simpa [strip] using htrimmed

/-! ## Slicing -/

/-- `s[:n]`. -/
def clip (n : Nat) (s : String) : String := String.ofList (s.toList.take n)

theorem length_clip_le (n : Nat) (s : String) : (clip n s).length ≤ n := by
  simp [clip, List.length_take]

/-! ## Representations -/

/-- The quote characters and the escaping one. -/
def singleQuote : Char := Char.ofNat 39

def doubleQuote : Char := Char.ofNat 34

def backslash : Char := Char.ofNat 92

/-- One character inside a quoted text: control characters are escaped,
characters outside ASCII kept. -/
def escape (quote c : Char) : String :=
  if c = quote || c = backslash then String.ofList [backslash, c]
  else if c.toNat = 0x0a then String.ofList [backslash, 'n']
  else if c.toNat = 0x0d then String.ofList [backslash, 'r']
  else if c.toNat = 0x09 then String.ofList [backslash, 't']
  else if c.toNat < 0x20 || c.toNat = 0x7f then
    String.ofList [backslash, 'x', Nat.digitChar (c.toNat / 16), Nat.digitChar (c.toNat % 16)]
  else String.singleton c

/-- `repr(s)`: single quotes, unless the text has one and no double quote. -/
def pyRepr (s : String) : String :=
  let quote :=
    if s.toList.contains singleQuote && !s.toList.contains doubleQuote then doubleQuote
    else singleQuote
  String.singleton quote ++ String.join (s.toList.map (escape quote)) ++ String.singleton quote

/-- The texts joined by a comma and a blank. -/
def commaJoin (texts : List String) : String := String.intercalate ", " texts

/-- `repr` of a list of strings. -/
def reprList (names : List String) : String := "[" ++ commaJoin (names.map pyRepr) ++ "]"

/-- `repr` of an array's two-dimensional shape. -/
def reprShape (shape : Nat × Nat) : String :=
  "(" ++ toString shape.1 ++ ", " ++ toString shape.2 ++ ")"

example : reprList ["A", "B C"] = "['A', 'B C']" := by decide +kernel

/-! ## Integers -/

/-- The digits of zero, in every script that has decimal digits. -/
def decimalZeros : List Nat :=
  [0x30, 0x660, 0x6f0, 0x7c0, 0x966, 0x9e6, 0xa66, 0xae6, 0xb66, 0xbe6, 0xc66, 0xce6, 0xd66, 0xde6,
    0xe50, 0xed0, 0xf20, 0x1040, 0x1090, 0x17e0, 0x1810, 0x1946, 0x19d0, 0x1a80, 0x1a90, 0x1b50,
    0x1bb0, 0x1c40, 0x1c50, 0xa620, 0xa8d0, 0xa900, 0xa9d0, 0xa9f0, 0xaa50, 0xabf0, 0xff10, 0x104a0,
    0x10d30, 0x11066, 0x110f0, 0x11136, 0x111d0, 0x112f0, 0x11450, 0x114d0, 0x11650, 0x116c0,
    0x11730, 0x118e0, 0x11950, 0x11c50, 0x11d50, 0x11da0, 0x11f50, 0x16a60, 0x16ac0, 0x16b50,
    0x1d7ce, 0x1d7d8, 0x1d7e2, 0x1d7ec, 0x1d7f6, 0x1e140, 0x1e2f0, 0x1e4f0, 0x1e950, 0x1fbf0]

def digitValue (c : Char) : Option Nat :=
  (decimalZeros.find? fun first => first ≤ c.toNat ∧ c.toNat < first + 10).map (c.toNat - ·)

/-- The blanks `int` skips; of ASCII, fewer than `str.isspace` accepts. -/
def isIntBlank (c : Char) : Bool :=
  c.toNat = 0x20 || (0x09 ≤ c.toNat && c.toNat ≤ 0x0d) || (127 ≤ c.toNat && isSpace c)

/-- `sys.int_info.default_max_str_digits`. -/
def maxStrDigits : Nat := 4300

/-- `int(s)`, `none` for a `ValueError`. -/
def pyInt (s : String) : Option Int :=
  let body := (s.toList.dropWhile isIntBlank).rdropWhile isIntBlank
  let negative := body.head? = some '-'
  let digits := if negative ∨ body.head? = some '+' then body.tail else body
  -- an underscore stands between two digits
  if (digits.splitOn '_').any List.isEmpty then none
  else
    match (digits.filter (· ≠ '_')).mapM digitValue with
    | none => none
    | some values =>
      if maxStrDigits < values.length then none
      else
        let n : Nat := values.foldl (fun n d => 10 * n + d) 0
        some (if negative then -(n : Int) else n)

example : (pyInt " 1_0", pyInt "-٣", pyInt "1__0", pyInt "+ 1") = (some 10, some (-3), none, none) :=
  by decide +kernel

/-! ## UTF-8 -/

/-- `str.encode()`. -/
def encode (s : List Char) : List UInt8 := s.flatMap String.utf8EncodeChar

/-- `bytes.decode()`, `none` where the bytes are not UTF-8. -/
def decode (bytes : List UInt8) : Option (List Char) :=
  bytes.toByteArray.utf8Decode?.map Array.toList

@[simp] theorem encode_nil : encode [] = [] := rfl

@[simp] theorem encode_append (s s' : List Char) : encode (s ++ s') = encode s ++ encode s' := by
  simp [encode]

theorem encode_cons (c : Char) (s : List Char) :
    encode (c :: s) = String.utf8EncodeChar c ++ encode s := by
  simp [encode]

@[simp] theorem decode_encode (s : List Char) : decode (encode s) = some s := by
  have hdecode := List.utf8Decode?_utf8Encode (l := s)
  rw [List.utf8Encode] at hdecode
  rw [decode, encode, hdecode]
  simp

/-- A character of ASCII is one byte. -/
theorem encode_ascii {c : Char} (h : c.toNat < 0x80) (s : List Char) :
    encode (c :: s) = UInt8.ofNat c.toNat :: encode s := by
  have hle : c.val.toNat ≤ 0x7f := by
    have : c.val.toNat < 0x80 := h
    omega
  rw [encode_cons, String.utf8EncodeChar]
  simp only [hle, if_true]
  rfl

/-- A byte of ASCII is a character of its own. -/
theorem toNat_eq_of_ascii {c : Char} {b : UInt8} (hb : b ∈ String.utf8EncodeChar c)
    (h : b.toNat < 0x80) : c.toNat = b.toNat := by
  rw [String.utf8EncodeChar] at hb
  by_cases hle : c.val.toNat ≤ 0x7f
  · simp only [hle, if_true, List.mem_singleton] at hb
    rw [hb, UInt8.toNat_ofNat']
    show c.val.toNat = c.val.toNat % 2 ^ 8
    omega
  · -- every byte of the character has its high bit set
    exfalso
    simp only [hle, if_false] at hb
    split_ifs at hb <;> simp only [List.mem_cons, List.not_mem_nil, or_false] at hb <;>
      rcases hb with rfl | rfl | rfl | rfl <;> simp at h <;> omega

theorem ne_of_mem_encode {s : List Char} {b b' : UInt8} (hb : b ∈ encode s) (h : b'.toNat < 0x80)
    (hs : ∀ c ∈ s, c.toNat ≠ b'.toNat) : b ≠ b' := by
  rintro rfl
  obtain ⟨c, hc, hbc⟩ := List.mem_flatMap.mp hb
  exact hs c hc (toNat_eq_of_ascii hbc h)

/-- What the first byte of a character promises: how many bytes follow, the range
of the next one, and the bits so far. -/
structure Pending where
  need : Nat
  low : Nat
  high : Nat
  bits : Nat
  deriving DecidableEq, Repr

inductive Lead where
  | char (c : Char)
  | start (pending : Pending)
  | invalid
  deriving DecidableEq, Repr

def leadOf (b : UInt8) : Lead :=
  let n := b.toNat
  if n < 0x80 then .char (Char.ofNat n)
  else if n < 0xc2 then .invalid
  else if n < 0xe0 then .start ⟨1, 0x80, 0xbf, n - 0xc0⟩
  else if n < 0xf0 then
    -- no overlong form, no surrogate
    .start ⟨2, if n = 0xe0 then 0xa0 else 0x80, if n = 0xed then 0x9f else 0xbf, n - 0xe0⟩
  else if n < 0xf5 then
    .start ⟨3, if n = 0xf0 then 0x90 else 0x80, if n = 0xf4 then 0x8f else 0xbf, n - 0xf0⟩
  else .invalid

/-- U+FFFD. -/
def replacement : Char := Char.ofNat 0xfffd

/-- `bytes.decode(errors="replace")`: one U+FFFD for each longest start of a
character that is not continued, one for each byte that starts none. -/
def decodeReplaceFrom : Option Pending → List UInt8 → List Char
  | none, [] => []
  | some _, [] => [replacement]
  | none, b :: rest =>
    match leadOf b with
    | .char c => c :: decodeReplaceFrom none rest
    | .start pending => decodeReplaceFrom (some pending) rest
    | .invalid => replacement :: decodeReplaceFrom none rest
  | some pending, b :: rest =>
    if pending.low ≤ b.toNat ∧ b.toNat ≤ pending.high then
      let bits := pending.bits * 64 + (b.toNat - 0x80)
      if pending.need = 1 then Char.ofNat bits :: decodeReplaceFrom none rest
      else decodeReplaceFrom (some ⟨pending.need - 1, 0x80, 0xbf, bits⟩) rest
    else
      replacement ::
        match leadOf b with
        | .char c => c :: decodeReplaceFrom none rest
        | .start pending' => decodeReplaceFrom (some pending') rest
        | .invalid => replacement :: decodeReplaceFrom none rest

def decodeReplace (bytes : List UInt8) : List Char := decodeReplaceFrom none bytes

example : decodeReplace ("é€𝄞".toUTF8.toList ++ [0xe2, 0x82, 0x41, 0xff]) =
    "é€𝄞\uFFFDA\uFFFD".toList := by decide +kernel

end SimulationKey.Kit.Text
