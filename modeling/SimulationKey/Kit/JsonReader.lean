import SimulationKey.Kit.Json

/-!
# Reading JSON texts

The scanner of Python's `json` module: `scanOnce` reads the value a text starts
with and returns the rest of the text, `loads` reads a whole document. Unless
`strict`, it also takes `NaN`, `Infinity` and `-Infinity`.

`reads_of_writes` is its completeness: what the grammar derives for a value, it
reads as that value, wherever the value stands. Its recursion is on a fuel that
the length of the text bounds.
-/

namespace SimulationKey.Kit.Json

open Text

/-! ## The scanner -/

def skipBlank (text : List Char) : List Char := text.dropWhile isBlank

def scanMinus : List Char → List Char × List Char
  | '-' :: rest => (['-'], rest)
  | text => ([], text)

def scanInt : List Char → Option (List Char × List Char)
  | [] => none
  | c :: rest =>
    if c = '0' then some (['0'], rest)
    else if c.isDigit then some (c :: rest.takeWhile Char.isDigit, rest.dropWhile Char.isDigit)
    else none

def scanFrac : List Char → List Char × List Char
  | '.' :: rest =>
    if rest.takeWhile Char.isDigit = [] then ([], '.' :: rest)
    else ('.' :: rest.takeWhile Char.isDigit, rest.dropWhile Char.isDigit)
  | text => ([], text)

def scanSign : List Char → List Char × List Char
  | '+' :: rest => (['+'], rest)
  | text => scanMinus text

def scanExp : List Char → List Char × List Char
  | [] => ([], [])
  | c :: rest =>
    let (sign, digits) := scanSign rest
    if (c = 'e' ∨ c = 'E') ∧ digits.takeWhile Char.isDigit ≠ [] then
      (c :: (sign ++ digits.takeWhile Char.isDigit), digits.dropWhile Char.isDigit)
    else ([], c :: rest)

/-- The longest number the text starts with. -/
def scanNumeral (text : List Char) : Option (List Char × List Char) :=
  let (minus, text) := scanMinus text
  match scanInt text with
  | none => none
  | some (int, text) =>
    let (frac, text) := scanFrac text
    let (exp, text) := scanExp text
    some (minus ++ (int ++ (frac ++ exp)), text)

/-- A string from behind its opening quote, an escaped surrogate by itself. -/
def scanUnits : List Char → Option (List Nat × List Char)
  | [] => none
  | c :: rest =>
    if c = doubleQuote then some ([], rest)
    else if c.toNat < 0x20 then none
    else if c = backslash then
      match rest with
      | 'u' :: a :: b :: d :: e :: rest =>
        match hexValue a b d e with
        | none => none
        | some n => (scanUnits rest).map fun (s, rest) => (n :: s, rest)
      | e :: rest =>
        match shortEscape e with
        | none => none
        | some n => (scanUnits rest).map fun (s, rest) => (n :: s, rest)
      | [] => none
    else (scanUnits rest).map fun (s, rest) => (c.toNat :: s, rest)

/-- An escaped high surrogate and the low one behind it are one code point. -/
def joinSurrogates : List Nat → List Nat
  | a :: b :: s =>
    if isHigh a && isLow b then pairValue a b :: joinSurrogates s
    else a :: joinSurrogates (b :: s)
  | s => s

def scanString (text : List Char) : Option (List Nat × List Char) :=
  (scanUnits text).map fun (s, rest) => (joinSurrogates s, rest)

/-- What follows `word`, if the text starts with it. -/
def scanWord (word text : List Char) : Option (List Char) :=
  if word <+: text then some (text.drop word.length) else none

def scanNonFinite (text : List Char) : Option (NonFinite × List Char) :=
  ((scanWord NonFinite.nan.text text).map (NonFinite.nan, ·)).or
    (((scanWord NonFinite.infinity.text text).map (NonFinite.infinity, ·)).or
      ((scanWord NonFinite.negInfinity.text text).map (NonFinite.negInfinity, ·)))

/-- A literal name or a number. -/
def scanToken (strict : Bool) (text : List Char) : Option (Json × List Char) :=
  ((scanWord "null".toList text).map (Json.null, ·)).or
    (((scanWord "true".toList text).map (Json.bool true, ·)).or
      (((scanWord "false".toList text).map (Json.bool false, ·)).or
        (((scanNumeral text).map fun (lexeme, rest) => (Json.num lexeme, rest)).or
          (if strict then none
          else (scanNonFinite text).map fun (c, rest) => (Json.nonFinite c, rest)))))

mutual

/-- The value a text starts with, and the rest of the text. -/
def scanOnce (strict : Bool) : Nat → List Char → Option (Json × List Char)
  | 0, _ => none
  | _ + 1, [] => none
  | fuel + 1, c :: rest =>
    if c = doubleQuote then (scanString rest).map fun (s, rest) => (.str s, rest)
    else if c = '[' then
      match skipBlank rest with
      | ']' :: rest => some (.arr [], rest)
      | text => (scanElements strict fuel text).map fun (vs, rest) => (.arr vs, rest)
    else if c = '{' then
      match skipBlank rest with
      | '}' :: rest => some (.obj [], rest)
      | text => (scanMembers strict fuel text).map fun (ms, rest) => (.obj ms, rest)
    else scanToken strict (c :: rest)

/-- The values up to the closing bracket, from the first. -/
def scanElements (strict : Bool) : Nat → List Char → Option (List Json × List Char)
  | 0, _ => none
  | fuel + 1, text =>
    match scanOnce strict fuel text with
    | none => none
    | some (v, rest) =>
      match skipBlank rest with
      | ']' :: rest => some ([v], rest)
      | ',' :: rest =>
        (scanElements strict fuel (skipBlank rest)).map fun (vs, rest) => (v :: vs, rest)
      | _ => none

/-- The members up to the closing bracket, from the first. -/
def scanMembers (strict : Bool) : Nat → List Char → Option (List (List Nat × Json) × List Char)
  | 0, _ => none
  | _ + 1, [] => none
  | fuel + 1, c :: text =>
    if c ≠ doubleQuote then none
    else
      match scanString text with
      | none => none
      | some (k, rest) =>
        match skipBlank rest with
        | ':' :: rest =>
          match scanOnce strict fuel (skipBlank rest) with
          | none => none
          | some (v, rest) =>
            match skipBlank rest with
            | '}' :: rest => some ([(k, v)], rest)
            | ',' :: rest =>
              (scanMembers strict fuel (skipBlank rest)).map fun (ms, rest) => ((k, v) :: ms, rest)
            | _ => none
        | _ => none

end

/-- `JSONDecoder.raw_decode`: the value a text starts with, and the rest. -/
def rawDecode (strict : Bool) (text : List Char) : Option (Json × List Char) :=
  scanOnce strict (2 * text.length + 1) text

/-- `JSONDecoder.decode`: a value between blanks, and nothing else. -/
def decodeDocument (strict : Bool) (text : List Char) : Option Json :=
  match rawDecode strict (skipBlank text) with
  | some (v, rest) => if skipBlank rest = [] then some v else none
  | none => none

/-- `json.loads` of UTF-8 bytes; `strict` is a `parse_constant` that refuses. -/
def loads (strict : Bool) (bytes : List UInt8) : Option Json :=
  (decode bytes).bind (decodeDocument strict)

/-! ## Blanks -/

theorem skipBlank_blank {w : List Char} (h : Blank w) (text : List Char) :
    skipBlank (w ++ text) = skipBlank text :=
  List.dropWhile_append_of_pos h

theorem skipBlank_cons {c : Char} (h : isBlank c = false) (text : List Char) :
    skipBlank (c :: text) = c :: text :=
  List.dropWhile_cons_of_neg (by simp [h])

/-! ## Numbers -/

/-- No text that starts with a character of `p`. -/
def StopsAt (p : Char → Bool) (text : List Char) : Prop := ∀ c ∈ text.head?, p c = false

theorem StopsAt.append {p : Char → Bool} {t t' : List Char} (h : StopsAt p t)
    (h' : StopsAt p t') : StopsAt p (t ++ t') := by
  cases t with
  | nil => exact h'
  | cons c t => exact h

theorem StopsAt.mono {p q : Char → Bool} {t : List Char} (h : StopsAt p t)
    (hpq : ∀ c, q c = true → p c = true) : StopsAt q t := by
  intro c hc
  by_contra hq
  have hp := hpq c (by simpa using hq)
  rw [h c hc] at hp
  cases hp

theorem takeWhile_digits {ds rest : List Char} (h : Digits ds) (hrest : StopsAt Char.isDigit rest) :
    (ds ++ rest).takeWhile Char.isDigit = ds ∧ (ds ++ rest).dropWhile Char.isDigit = rest := by
  rw [List.takeWhile_append_of_pos h, List.dropWhile_append_of_pos h]
  cases rest with
  | nil => simp
  | cons c rest => simp [hrest c rfl]

/-- The characters that would go on a number. -/
def goesOn (c : Char) : Bool := c.isDigit || c = '.' || c = 'e' || c = 'E'

theorem scanInt_append {int rest : List Char} (h : IsInt int)
    (hrest : StopsAt Char.isDigit rest) : scanInt (int ++ rest) = some (int, rest) := by
  cases h with
  | zero => rfl
  | more first nonzero digits =>
      obtain ⟨htake, hdrop⟩ := takeWhile_digits digits hrest
      simp [scanInt, first, nonzero, htake, hdrop]

theorem scanFrac_append {frac rest : List Char} (h : IsFrac frac)
    (hrest : StopsAt (fun c => c.isDigit || c = '.') rest) :
    scanFrac (frac ++ rest) = (frac, rest) := by
  cases h with
  | none =>
      cases rest with
      | nil => rfl
      | cons c rest =>
          have hc := hrest c rfl
          simp only [Bool.or_eq_false_iff, decide_eq_false_iff_not] at hc
          simp [scanFrac, hc.2]
  | some nonempty digits =>
      obtain ⟨htake, hdrop⟩ := takeWhile_digits digits
        (hrest.mono fun c hc => by simp [hc])
      simp [scanFrac, htake, hdrop, nonempty]

theorem scanSign_append {sign ds : List Char} (h : sign = [] ∨ sign = ['+'] ∨ sign = ['-'])
    (nonempty : ds ≠ []) (digits : Digits ds) (rest : List Char) :
    scanSign (sign ++ (ds ++ rest)) = (sign, ds ++ rest) := by
  rcases h with rfl | rfl | rfl
  · cases ds with
    | nil => exact absurd rfl nonempty
    | cons d ds =>
        have hd : d.isDigit = true := digits d (by simp)
        have hplus : d ≠ '+' := by rintro rfl; simp at hd
        have hminus : d ≠ '-' := by rintro rfl; simp at hd
        simp [scanSign, scanMinus, hplus, hminus]
  · rfl
  · rfl

theorem scanExp_append {exp rest : List Char} (h : IsExp exp) (hrest : StopsAt goesOn rest) :
    scanExp (exp ++ rest) = (exp, rest) := by
  cases h with
  | none =>
      cases rest with
      | nil => rfl
      | cons c rest =>
          have hc := hrest c rfl
          simp only [goesOn, Bool.or_eq_false_iff, decide_eq_false_iff_not] at hc
          simp [scanExp, hc.1.2, hc.2]
  | @some e sign ds mark signed nonempty digits =>
      obtain ⟨htake, hdrop⟩ := takeWhile_digits digits
        (hrest.mono fun c hc => by simp [goesOn, hc])
      rw [List.cons_append, scanExp, List.append_assoc, scanSign_append signed nonempty digits]
      simp [htake, hdrop, mark, nonempty]

theorem IsExp.stops {exp : List Char} (h : IsExp exp) :
    StopsAt (fun c => c.isDigit || c = '.') exp := by
  cases h with
  | none => intro c hc; cases hc
  | some mark =>
      intro c hc
      obtain rfl := Option.some.inj hc
      rcases mark with rfl | rfl <;> decide

theorem IsFrac.stops {frac : List Char} (h : IsFrac frac) : StopsAt Char.isDigit frac := by
  cases h with
  | none => intro c hc; cases hc
  | some =>
      intro c hc
      obtain rfl := Option.some.inj hc
      decide

theorem IsInt.head {int : List Char} (h : IsInt int) :
    ∃ d ds, int = d :: ds ∧ d.isDigit = true := by
  cases h with
  | zero => exact ⟨'0', [], rfl, by decide⟩
  | more first => exact ⟨_, _, rfl, first⟩

/-- A number is read to its end. -/
theorem scanNumeral_append {lexeme rest : List Char} (h : IsNumeral lexeme)
    (hrest : StopsAt goesOn rest) : scanNumeral (lexeme ++ rest) = some (lexeme, rest) := by
  cases h with
  | @mk minus int frac exp sign whole fraction exponent =>
      have hexp : StopsAt (fun c => c.isDigit || c = '.') (exp ++ rest) :=
        exponent.stops.append (hrest.mono fun c hc => by
          simp only [Bool.or_eq_true, decide_eq_true_eq] at hc
          rcases hc with hc | hc <;> simp [goesOn, hc])
      have hfrac : StopsAt Char.isDigit (frac ++ (exp ++ rest)) :=
        fraction.stops.append (hexp.mono fun c hc => by simp [hc])
      have hminus : scanMinus (minus ++ (int ++ (frac ++ (exp ++ rest)))) =
          (minus, int ++ (frac ++ (exp ++ rest))) := by
        rcases sign with rfl | rfl
        · obtain ⟨d, ds, rfl, hd⟩ := whole.head
          have hne : d ≠ '-' := by rintro rfl; simp at hd
          simp [scanMinus, hne]
        · rfl
      simp only [List.append_assoc, scanNumeral, hminus, scanInt_append whole hfrac,
        scanFrac_append fraction hexp, scanExp_append exponent hrest]

/-! ## Strings -/

theorem joinSurrogates_cons {n : Nat} (h : isHigh n = false) (s : List Nat) :
    joinSurrogates (n :: s) = n :: joinSurrogates s := by
  cases s with
  | nil => rfl
  | cons m s => simp [joinSurrogates, h]

/-- A character is not a surrogate. -/
theorem isHigh_char (c : Char) : isHigh c.toNat = false := by
  have hvalid : c.toNat < 0xd800 ∨ 0xdfff < c.toNat ∧ c.toNat < 0x110000 := c.valid
  simp only [isHigh, Bool.and_eq_false_iff, decide_eq_false_iff_not]
  omega

/-- The units a text for a code point is read as. -/
theorem scanUnits_point {n : Nat} {t : List Char} (h : WritesPoint n t) :
    ∃ us, (∀ s, joinSurrogates (us ++ s) = n :: joinSurrogates s) ∧
      ∀ rest, scanUnits (t ++ rest) = (scanUnits rest).map fun x => (us ++ x.1, x.2) := by
  have hquote : backslash ≠ doubleQuote := by decide
  have hcontrol : ¬ backslash.toNat < 0x20 := by decide
  cases h with
  | @raw c quote escape control =>
      refine ⟨[c.toNat], joinSurrogates_cons (isHigh_char c), fun rest => ?_⟩
      have hprint : ¬ c.toNat < 0x20 := by omega
      rw [List.singleton_append, scanUnits.eq_def]
      simp [quote, escape, hprint]
  | @short _ e h =>
      have hu : e ≠ 'u' := by rintro rfl; cases h
      have hlow : isHigh n = false := by
        unfold shortEscape at h
        split_ifs at h
        · cases h; rfl
        · cases h; rfl
        · split at h <;> cases h <;> rfl
      refine ⟨[n], joinSurrogates_cons hlow, fun rest => ?_⟩
      simp [scanUnits, hquote, hcontrol, hu, h]
  | hex h high =>
      refine ⟨[n], joinSurrogates_cons high, fun rest => ?_⟩
      simp [scanUnits, hquote, hcontrol, h]
  | @pair high low a b c d a' b' c' d' h h' first second =>
      refine ⟨[high, low], fun s => ?_, fun rest => ?_⟩
      · simp [joinSurrogates, first, second]
      · simp [scanUnits, hquote, hcontrol, h, h', Function.comp_def]

theorem scanString_body {s : List Nat} {body : List Char} (h : WritesPoints s body)
    (rest : List Char) : scanString (body ++ doubleQuote :: rest) = some (s, rest) := by
  have hunits : ∃ us, joinSurrogates us = s ∧
      ∀ rest, scanUnits (body ++ doubleQuote :: rest) = some (us, rest) := by
    induction h with
    | nil =>
        refine ⟨[], rfl, fun rest => ?_⟩
        rw [List.nil_append, scanUnits.eq_def]
        rfl
    | cons head tail ih =>
        obtain ⟨us, hus, hread⟩ := ih
        obtain ⟨vs, hvs, hpoint⟩ := scanUnits_point head
        refine ⟨vs ++ us, by rw [hvs, hus], fun rest => ?_⟩
        rw [List.append_assoc, hpoint, hread]
        rfl
  obtain ⟨us, hus, hread⟩ := hunits
  simp [scanString, hread, hus]

/-! ## Literal names -/

theorem scanWord_ne {c d : Char} (h : c ≠ d) (word text : List Char) :
    scanWord (c :: word) (d :: text) = none := by
  simp [scanWord, h]

theorem scanToken_numeral {strict : Bool} {lexeme rest : List Char} (h : IsNumeral lexeme)
    (hrest : StopsAt goesOn rest) :
    scanToken strict (lexeme ++ rest) = some (.num lexeme, rest) := by
  have hscan := scanNumeral_append h hrest
  have hhead : ∃ c t, lexeme ++ rest = c :: t ∧ c ≠ 'n' ∧ c ≠ 't' ∧ c ≠ 'f' := by
    cases h with
    | @mk minus int frac exp sign whole =>
        rcases sign with rfl | rfl
        · obtain ⟨d, ds, rfl, hd⟩ := whole.head
          refine ⟨d, _, rfl, ?_, ?_, ?_⟩ <;> rintro rfl <;> simp at hd
        · exact ⟨'-', _, rfl, by decide, by decide, by decide⟩
  obtain ⟨c, t, htext, hn, ht, hf⟩ := hhead
  rw [htext] at hscan ⊢
  have hnull : scanWord "null".toList (c :: t) = none := scanWord_ne (Ne.symm hn) _ _
  have htrue : scanWord "true".toList (c :: t) = none := scanWord_ne (Ne.symm ht) _ _
  have hfalse : scanWord "false".toList (c :: t) = none := scanWord_ne (Ne.symm hf) _ _
  rw [scanToken, hnull, htrue, hfalse, hscan]
  rfl

/-! ## Values -/

theorem blank_cases {c : Char} (h : isBlank c = true) :
    c = Char.ofNat 0x20 ∨ c = Char.ofNat 0x09 ∨ c = Char.ofNat 0x0a ∨ c = Char.ofNat 0x0d := by
  simpa [isBlank] using h

theorem not_blank_of_digit {c : Char} (h : c.isDigit = true) : isBlank c = false := by
  by_contra hblank
  rcases blank_cases (by simpa using hblank) with rfl | rfl | rfl | rfl <;> revert h <;> decide

theorem stops_of_blank {w rest : List Char} (h : Blank w) (hrest : StopsAt goesOn rest) :
    StopsAt goesOn (w ++ rest) := by
  cases w with
  | nil => exact hrest
  | cons b w =>
      intro c hc
      obtain rfl := Option.some.inj hc
      rcases blank_cases (h b (by simp)) with rfl | rfl | rfl | rfl <;> decide

/-- The first character of a value's text. -/
theorem value_head {v : Json} {text : List Char} (h : Writes (.value v) text) :
    ∃ c t, text = c :: t ∧ isBlank c = false ∧ c ≠ ']' := by
  cases h with
  | null | true | false => exact ⟨_, _, rfl, by decide, by decide⟩
  | nonFinite c => cases c <;> exact ⟨_, _, rfl, by decide, by decide⟩
  | arr | obj => exact ⟨_, _, rfl, by decide, by decide⟩
  | str h =>
      cases h with
      | mk => exact ⟨_, _, rfl, by decide, by decide⟩
  | num h =>
      cases h with
      | @mk minus int frac exp sign whole =>
          rcases sign with rfl | rfl
          · obtain ⟨d, ds, rfl, hd⟩ := whole.head
            refine ⟨d, _, rfl, not_blank_of_digit hd, ?_⟩
            rintro rfl
            simp at hd
          · exact ⟨'-', _, rfl, by decide, by decide⟩

theorem WritesString.head {s : List Nat} {token : List Char} (h : WritesString s token) :
    ∃ t, token = doubleQuote :: t := by
  cases h with
  | mk => exact ⟨_, rfl⟩

theorem scanOnce_string (strict : Bool) (fuel : Nat) {s : List Nat} {token : List Char}
    (h : WritesString s token) (rest : List Char) :
    scanOnce strict (fuel + 1) (token ++ rest) = some (.str s, rest) := by
  cases h with
  | @mk body points =>
      have hscan := scanString_body points rest
      rw [List.cons_append, List.append_assoc, List.singleton_append, scanOnce]
      simp [hscan]

theorem scanOnce_numeral (strict : Bool) (fuel : Nat) {lexeme rest : List Char}
    (h : IsNumeral lexeme) (hrest : StopsAt goesOn rest) :
    scanOnce strict (fuel + 1) (lexeme ++ rest) = some (.num lexeme, rest) := by
  have htoken : scanToken strict (lexeme ++ rest) = some (.num lexeme, rest) :=
    scanToken_numeral h hrest
  have hhead : ∃ c t, lexeme ++ rest = c :: t ∧ c ≠ doubleQuote ∧ c ≠ '[' ∧ c ≠ '{' := by
    cases h with
    | @mk minus int frac exp sign whole =>
        rcases sign with rfl | rfl
        · obtain ⟨d, ds, rfl, hd⟩ := whole.head
          refine ⟨d, _, rfl, ?_, ?_, ?_⟩ <;> rintro rfl <;> revert hd <;> decide
        · exact ⟨'-', _, rfl, by decide, by decide, by decide⟩
  obtain ⟨c, t, htext, hquote, hbracket, hbrace⟩ := hhead
  rw [htext] at htoken ⊢
  simp [scanOnce, hquote, hbracket, hbrace, htoken]

/-- What reading a text for a shape gives. -/
def Reads (strict : Bool) : Shape → List Char → Prop
  | .value v, text => ∀ fuel rest, 2 * text.length < fuel → StopsAt goesOn rest →
      scanOnce strict fuel (text ++ rest) = some (v, rest)
  | .elements [], text => Blank text
  | .elements (v :: vs), text => ∀ fuel rest, 2 * text.length + 1 < fuel →
      ∃ c t, skipBlank (text ++ ']' :: rest) = c :: t ∧ c ≠ ']' ∧
        scanElements strict fuel (c :: t) = some (v :: vs, rest)
  | .members [], text => Blank text
  | .members (m :: ms), text => ∀ fuel rest, 2 * text.length + 1 < fuel →
      ∃ t, skipBlank (text ++ '}' :: rest) = doubleQuote :: t ∧
        scanMembers strict fuel (doubleQuote :: t) = some (m :: ms, rest)

/-- A separator ends a value. -/
theorem stops_of_separator {c : Char} (h : goesOn c = false) {w : List Char} (blank : Blank w)
    (rest : List Char) : StopsAt goesOn (w ++ c :: rest) := by
  refine stops_of_blank blank fun c' hc' => ?_
  obtain rfl := Option.some.inj hc'
  exact h

/-- A member, up to what separates it from the next. -/
theorem scanMembers_member {strict : Bool} {n : Nat} {k : List Nat} {v : Json}
    {body w₁ w₂ text tail : List Char} (points : WritesPoints k body) (blank₁ : Blank w₁)
    (blank₂ : Blank w₂) (h : Writes (.value v) text)
    (hread : scanOnce strict n (text ++ tail) = some (v, tail)) :
    scanMembers strict (n + 1)
        (doubleQuote :: (body ++ doubleQuote :: (w₁ ++ ':' :: (w₂ ++ (text ++ tail))))) =
      match skipBlank tail with
      | '}' :: rest => some ([(k, v)], rest)
      | ',' :: rest =>
        (scanMembers strict n (skipBlank rest)).map fun (ms, rest) => ((k, v) :: ms, rest)
      | _ => none := by
  have hname := scanString_body points (w₁ ++ ':' :: (w₂ ++ (text ++ tail)))
  have hcolon : skipBlank (w₁ ++ ':' :: (w₂ ++ (text ++ tail))) = ':' :: (w₂ ++ (text ++ tail)) :=
    skipBlank_blank blank₁ _
  have hvalue : skipBlank (w₂ ++ (text ++ tail)) = text ++ tail := by
    obtain ⟨c, t, rfl, hc, -⟩ := value_head h
    rw [skipBlank_blank blank₂, List.cons_append, skipBlank_cons hc]
  rw [scanMembers]
  simp [hname, hcolon, hvalue, hread]

/-- What the grammar derives is read as what it stands for. -/
theorem reads_of_writes {strict : Bool} {s : Shape} {text : List Char} (h : Writes s text)
    (hstrict : strict = true → s.Strict) : Reads strict s text := by
  induction h with
  | null | true | false =>
      intro fuel rest hfuel hrest
      obtain ⟨n, rfl⟩ : ∃ n, fuel = n + 1 := ⟨fuel - 1, by omega⟩
      rfl
  | num h =>
      intro fuel rest hfuel hrest
      obtain ⟨n, rfl⟩ : ∃ n, fuel = n + 1 := ⟨fuel - 1, by omega⟩
      exact scanOnce_numeral strict n h hrest
  | nonFinite c =>
      intro fuel rest hfuel hrest
      obtain ⟨n, rfl⟩ : ∃ n, fuel = n + 1 := ⟨fuel - 1, by omega⟩
      have hlenient : strict = false := by
        by_contra h
        exact hstrict (by simpa using h)
      subst hlenient
      cases c <;> rfl
  | str h =>
      intro fuel rest hfuel hrest
      obtain ⟨n, rfl⟩ : ∃ n, fuel = n + 1 := ⟨fuel - 1, by omega⟩
      exact scanOnce_string strict n h rest
  | @arr vs text h ih =>
      intro fuel rest hfuel hrest
      obtain ⟨n, rfl⟩ : ∃ n, fuel = n + 1 := ⟨fuel - 1, by omega⟩
      have ih := ih hstrict
      have htext : '[' :: (text ++ [']']) ++ rest = '[' :: (text ++ ']' :: rest) := by simp
      have hquote : '[' ≠ doubleQuote := by decide
      rw [htext]
      cases vs with
      | nil =>
          have hskip : skipBlank (text ++ ']' :: rest) = ']' :: rest := skipBlank_blank ih _
          simp [scanOnce, hskip, hquote]
      | cons v vs =>
          obtain ⟨c, t, hskip, hc, hscan⟩ := ih n rest (by simp at hfuel; omega)
          simp [scanOnce, hskip, hc, hscan, hquote]
  | @obj ms text h ih =>
      intro fuel rest hfuel hrest
      obtain ⟨n, rfl⟩ : ∃ n, fuel = n + 1 := ⟨fuel - 1, by omega⟩
      have ih := ih hstrict
      have htext : '{' :: (text ++ ['}']) ++ rest = '{' :: (text ++ '}' :: rest) := by simp
      have hquote : '{' ≠ doubleQuote ∧ doubleQuote ≠ '}' := by decide
      rw [htext]
      cases ms with
      | nil =>
          have hskip : skipBlank (text ++ '}' :: rest) = '}' :: rest := skipBlank_blank ih _
          simp [scanOnce, hskip, hquote]
      | cons m ms =>
          obtain ⟨t, hskip, hscan⟩ := ih n rest (by simp at hfuel; omega)
          simp [scanOnce, hskip, hscan, hquote]
  | noElement blank => exact blank
  | @lastElement v w text w' blank h blank' ih =>
      intro fuel rest hfuel
      obtain ⟨n, rfl⟩ : ∃ n, fuel = n + 1 := ⟨fuel - 1, by omega⟩
      obtain ⟨c, t, rfl, hc, hclose⟩ := value_head h
      refine ⟨c, t ++ (w' ++ ']' :: rest), ?_, hclose, ?_⟩
      · rw [List.append_assoc, List.append_assoc, skipBlank_blank blank, List.cons_append,
          skipBlank_cons hc]
      · have hread := ih (fun h => (hstrict h).1) n (w' ++ ']' :: rest)
          (by simp only [List.length_append] at hfuel; omega)
          (stops_of_separator (by decide) blank' rest)
        rw [List.cons_append] at hread
        have hskip : skipBlank (w' ++ ']' :: rest) = ']' :: rest := skipBlank_blank blank' _
        simp [scanElements, hread, hskip]
  | @nextElement v u vs w text w' texts blank h blank' more ih ih' =>
      intro fuel rest hfuel
      obtain ⟨n, rfl⟩ : ∃ n, fuel = n + 1 := ⟨fuel - 1, by omega⟩
      obtain ⟨c, t, rfl, hc, hclose⟩ := value_head h
      refine ⟨c, t ++ (w' ++ ',' :: (texts ++ ']' :: rest)), ?_, hclose, ?_⟩
      · rw [List.append_assoc, List.append_assoc, List.append_assoc, skipBlank_blank blank,
          List.cons_append, skipBlank_cons hc, List.cons_append]
      · simp only [List.length_append, List.length_cons] at hfuel
        have hread := ih (fun h => (hstrict h).1) n (w' ++ ',' :: (texts ++ ']' :: rest))
          (by simp only [List.length_cons]; omega) (stops_of_separator (by decide) blank' _)
        rw [List.cons_append] at hread
        have hskip : skipBlank (w' ++ ',' :: (texts ++ ']' :: rest)) =
            ',' :: (texts ++ ']' :: rest) := skipBlank_blank blank' _
        obtain ⟨c', t', hskip', hclose', hscan⟩ :=
          ih' (fun h => (hstrict h).2) n rest (by omega)
        simp [scanElements, hread, hskip, hskip', hscan]
  | noMember blank => exact blank
  | @lastMember k v w key w₁ w₂ text w' blank name blank₁ blank₂ h blank' ih =>
      intro fuel rest hfuel
      obtain ⟨n, rfl⟩ : ∃ n, fuel = n + 1 := ⟨fuel - 1, by omega⟩
      obtain @⟨body, points⟩ := name
      simp only [List.length_append, List.length_cons] at hfuel
      refine ⟨body ++ doubleQuote :: (w₁ ++ ':' :: (w₂ ++ (text ++ (w' ++ '}' :: rest)))), ?_, ?_⟩
      · rw [List.append_assoc, skipBlank_blank blank, List.append_assoc, List.cons_append,
          skipBlank_cons (by decide)]
        simp
      · have hread := ih (fun h => (hstrict h).1) n (w' ++ '}' :: rest) (by omega)
          (stops_of_separator (by decide) blank' rest)
        have hskip : skipBlank (w' ++ '}' :: rest) = '}' :: rest := skipBlank_blank blank' _
        simpa [hskip] using scanMembers_member points blank₁ blank₂ h hread
  | @nextMember k v m ms w key w₁ w₂ text w' texts blank name blank₁ blank₂ h blank' more ih ih' =>
      intro fuel rest hfuel
      obtain ⟨n, rfl⟩ : ∃ n, fuel = n + 1 := ⟨fuel - 1, by omega⟩
      obtain @⟨body, points⟩ := name
      simp only [List.length_append, List.length_cons] at hfuel
      refine ⟨body ++ doubleQuote ::
        (w₁ ++ ':' :: (w₂ ++ (text ++ (w' ++ ',' :: (texts ++ '}' :: rest))))), ?_, ?_⟩
      · rw [List.append_assoc, skipBlank_blank blank, List.append_assoc, List.cons_append,
          skipBlank_cons (by decide)]
        simp
      · have hread := ih (fun h => (hstrict h).1) n (w' ++ ',' :: (texts ++ '}' :: rest)) (by omega)
          (stops_of_separator (by decide) blank' _)
        have hskip : skipBlank (w' ++ ',' :: (texts ++ '}' :: rest)) =
            ',' :: (texts ++ '}' :: rest) := skipBlank_blank blank' _
        obtain ⟨t', hskip', hscan⟩ := ih' (fun h => (hstrict h).2) n rest (by omega)
        simpa [hskip, hskip', hscan] using scanMembers_member points blank₁ blank₂ h hread

/-- A value is read from a text for it, whatever ends it there. -/
theorem rawDecode_writes {strict : Bool} {v : Json} {text rest : List Char}
    (h : Writes (.value v) text) (hstrict : strict = true → v.Strict)
    (hrest : StopsAt goesOn rest) : rawDecode strict (text ++ rest) = some (v, rest) := by
  refine reads_of_writes h hstrict _ rest ?_ hrest
  simp only [List.length_append]
  omega

theorem decodeDocument_writes {strict : Bool} {v : Json} {text : List Char} (h : Document v text)
    (hstrict : strict = true → v.Strict) : decodeDocument strict text = some v := by
  cases h with
  | @mk w text w' blank h blank' =>
      have hread : rawDecode strict (text ++ w') = some (v, w') :=
        rawDecode_writes h hstrict (by
          have hstops : StopsAt goesOn (w' ++ []) := stops_of_blank blank' fun c hc => by cases hc
          rwa [List.append_nil] at hstops)
      have hskip : skipBlank (w ++ (text ++ w')) = text ++ w' := by
        obtain ⟨c, t, rfl, hc, -⟩ := value_head h
        rw [skipBlank_blank blank, List.cons_append, skipBlank_cons hc]
      have hend : skipBlank w' = [] := List.dropWhile_eq_nil_iff.mpr blank'
      simp [decodeDocument, hskip, hread, hend]

/-- A document is read as what it is a document of. -/
theorem loads_document {strict : Bool} {v : Json} {text : List Char} (h : Document v text)
    (hstrict : strict = true → v.Strict) : loads strict (encode text) = some v := by
  rw [loads, decode_encode]
  exact decodeDocument_writes h hstrict

end SimulationKey.Kit.Json
