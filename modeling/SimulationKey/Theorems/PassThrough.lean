import SimulationKey.Api.Pieces
import SimulationKey.Kit.JsonWriter

/-!
# The pass-through is exact

`as_api_response` turns a stored document into a strict one, whatever the
chunks: strings and finite numbers as they were, `null` for the others. A run
between two strings is replaced as a whole (`passed`), since what is held back
is at most one token; over the grammar, token by token.
-/

namespace SimulationKey.Theorems.PassThrough

open Kit Kit.Json Kit.Text

/-! ## Replacing tokens -/

theorem prefix_cons_append {old a b : List UInt8} {c : UInt8} (hc : c ∉ old) :
    old <+: a ++ c :: b ↔ old <+: a := by
  constructor
  · intro h
    have hsplit : a ++ [c] <+: a ++ c :: b := ⟨b, by simp⟩
    rcases List.prefix_or_prefix_of_prefix h hsplit with h | h
    · rcases List.prefix_concat_iff.mp h with rfl | h
      · simp at hc
      · exact h
    · exact absurd (h.subset (by simp)) hc
  · exact fun h => h.trans (List.prefix_append a _)

/-- No match spans a byte its token has not. -/
theorem replaceAll_split {old new : List UInt8} {c : UInt8} (hc : c ∉ old) (hold : old ≠ [])
    (a b : List UInt8) (skip : Nat) (hskip : skip ≤ a.length) :
    replaceAll old new skip (a ++ c :: b) =
      replaceAll old new skip a ++ c :: replaceAll old new 0 b := by
  induction a generalizing skip with
  | nil =>
      obtain rfl : skip = 0 := by simpa using hskip
      have hno : ¬ old <+: c :: b := by
        rw [← List.nil_append (c :: b), prefix_cons_append hc]
        simpa using hold
      simp [replaceAll, hno]
  | cons x a ih =>
      cases skip with
      | succ skip =>
          simp only [List.length_cons] at hskip
          simp only [List.cons_append, replaceAll]
          exact ih skip (by omega)
      | zero =>
          have hlead : old <+: x :: (a ++ c :: b) ↔ old <+: x :: a :=
            prefix_cons_append (a := x :: a) hc
          simp only [List.cons_append, replaceAll, hlead]
          split_ifs with h
          · have hlength := h.length_le
            simp only [List.length_cons] at hlength
            rw [ih _ (by omega), List.append_assoc]
          · rw [ih 0 (by omega), List.cons_append]

/-- Without one of its bytes, a token does not occur. -/
theorem replaceAll_eq_self {old new bytes : List UInt8} {c : UInt8} (hc : c ∈ old)
    (hbytes : c ∉ bytes) : replaceAll old new 0 bytes = bytes := by
  induction bytes with
  | nil => rfl
  | cons b bytes ih =>
      simp only [List.mem_cons, not_or] at hbytes
      have hno : ¬ old <+: b :: bytes := by
        intro h
        have hmem := h.subset hc
        simp only [List.mem_cons] at hmem
        rcases hmem with rfl | hmem
        · exact hbytes.1 rfl
        · exact hbytes.2 hmem
      simp [replaceAll, hno, ih hbytes.2]

/-- A byte no token has cuts a run in two. -/
theorem nulls_split {c : UInt8} (hc : isNonFiniteByte c = false) (a b : List UInt8) :
    nulls (a ++ c :: b) = nulls a ++ c :: nulls b := by
  have hnot : ∀ token ∈ nonFiniteTokens, c ∉ token := by
    intro token htoken hmem
    have : isNonFiniteByte c = true := by
      simpa [isNonFiniteByte] using ⟨token, htoken, hmem⟩
    rw [hc] at this
    cases this
  have hfold : ∀ tokens : List (List UInt8), (∀ token ∈ tokens, c ∉ token ∧ token ≠ []) →
      ∀ a b, tokens.foldl (fun run token => replaceAll token (literal "null") 0 run) (a ++ c :: b) =
        tokens.foldl (fun run token => replaceAll token (literal "null") 0 run) a ++
          c :: tokens.foldl (fun run token => replaceAll token (literal "null") 0 run) b := by
    intro tokens
    induction tokens with
    | nil => intro _ a b; rfl
    | cons token tokens ih =>
        intro h a b
        obtain ⟨hmem, hne⟩ := h token (by simp)
        simp only [List.foldl_cons]
        rw [replaceAll_split hmem hne a b 0 (by omega)]
        exact ih (fun t ht => h t (by simp [ht])) _ _
  refine hfold nonFiniteTokens (fun token htoken => ⟨hnot token htoken, ?_⟩) a b
  simp only [nonFiniteTokens, List.mem_cons, List.not_mem_nil, or_false] at htoken
  rcases htoken with rfl | rfl | rfl <;> decide

theorem nulls_nil : nulls [] = [] := rfl

/-- What ends in a byte no token has is replaced on its own. -/
theorem nulls_append {a : List UInt8} (ha : ∀ c ∈ a.getLast?, isNonFiniteByte c = false)
    (b : List UInt8) : nulls (a ++ b) = nulls a ++ nulls b := by
  rcases List.eq_nil_or_concat a with rfl | ⟨a, c, rfl⟩
  · rfl
  · have hc : isNonFiniteByte c = false := ha c (by simp)
    have hleft := nulls_split hc a []
    rw [List.concat_eq_append, List.append_assoc, List.singleton_append, nulls_split hc, hleft,
      nulls_nil, List.append_assoc, List.singleton_append]

/-! ## The output -/

/-- The output for the pieces, after a run that has not ended. -/
def passed (run : List UInt8) : List Piece → List UInt8
  | [] => nulls run
  | .string token :: ps => nulls run ++ token ++ passed [] ps
  | .run bytes :: ps => passed (run ++ bytes) ps

theorem passed_append {a : List UInt8} (ha : ∀ c ∈ a.getLast?, isNonFiniteByte c = false)
    (b : List UInt8) (ps : List Piece) : passed (a ++ b) ps = nulls a ++ passed b ps := by
  induction ps generalizing b with
  | nil => exact nulls_append ha b
  | cons p ps ih =>
      cases p with
      | string token => simp [passed, nulls_append ha]
      | run bytes => rw [passed, passed, List.append_assoc, ih]

theorem passed_byteRuns (run bytes : List UInt8) (ps : List Piece) :
    passed run (byteRuns bytes ++ ps) = passed (run ++ bytes) ps := by
  induction bytes generalizing run with
  | nil => simp [byteRuns]
  | cons b bytes ih =>
      have h := ih (run ++ [b])
      rw [List.append_assoc] at h
      exact h

theorem passed_bytewise (run : List UInt8) (ps : List Piece) :
    passed run (bytewise ps) = passed run ps := by
  induction ps generalizing run with
  | nil => rfl
  | cons p ps ih =>
      show passed run (p.bytewise ++ bytewise ps) = _
      cases p with
      | string token => simp [Piece.bytewise, passed, ih]
      | run bytes => rw [Piece.bytewise, passed_byteRuns, ih, passed]

/-- All it has yielded or will yield of what it has read for good. -/
def total (p : Passing) : List UInt8 := p.sent.flatten ++ p.out

theorem total_flush (p : Passing) : total p.flush = total p := by
  unfold Passing.flush
  split_ifs
  · simp [total]
  · rfl

theorem held_flush (p : Passing) : p.flush.held = p.held := by
  unfold Passing.flush
  split_ifs <;> rfl

/-- What is held back goes through with what follows. -/
theorem total_piece (p : Passing) (ps : List Piece) (piece : Piece) :
    total (p.piece piece) ++ passed (p.piece piece).held ps =
      total p ++ passed p.held (piece :: ps) := by
  cases piece with
  | string token =>
      simp only [Passing.piece, total_flush, held_flush, passed]
      simp [total]
  | run bytes =>
      have hlast : ∀ c ∈ ((p.held ++ bytes).rdropWhile isNonFiniteByte).getLast?,
          isNonFiniteByte c = false := by
        intro c hc
        obtain ⟨hne, rfl⟩ := List.mem_getLast?_eq_getLast hc
        simpa using List.rdropWhile_last_not isNonFiniteByte _ hne
      have hrun : (p.held ++ bytes).rdropWhile isNonFiniteByte ++
          (p.held ++ bytes).rtakeWhile isNonFiniteByte = p.held ++ bytes := by
        rw [List.rdropWhile, List.rtakeWhile, ← List.reverse_append,
          List.takeWhile_append_dropWhile, List.reverse_reverse]
      have hpassed := passed_append hlast ((p.held ++ bytes).rtakeWhile isNonFiniteByte) ps
      rw [hrun] at hpassed
      simp only [Passing.piece, total_flush, held_flush, passed, hpassed]
      simp [total]

theorem total_foldl (p : Passing) (ps : List Piece) :
    total (ps.foldl Passing.piece p) ++ nulls (ps.foldl Passing.piece p).held =
      total p ++ passed p.held ps := by
  induction ps generalizing p with
  | nil => rfl
  | cons piece ps ih => rw [List.foldl_cons, ih, total_piece]

/-! ## Over the grammar -/

/-- The output for a text from behind a token. -/
def passedText (bytes : List UInt8) : List UInt8 := passed [] (scanBytes .outside bytes).1

/-- What follows starts no token. -/
def Separated (rest : List UInt8) : Prop :=
  ∀ c ∈ rest.head?, isNonFiniteByte c = false ∧ c ≠ quoteByte

theorem passedText_separator {c : UInt8} (hc : isNonFiniteByte c = false) (hquote : c ≠ quoteByte)
    (rest : List UInt8) : passedText (c :: rest) = c :: passedText rest := by
  have hself : nulls [c] = [c] := nulls_split hc [] []
  have hpassed := passed_append (a := [c]) (by simpa using hc) [] (scanBytes .outside rest).1
  rw [hself] at hpassed
  simpa [passedText, scanBytes, stepByte, hquote, passed] using hpassed

/-- A token without a quote is replaced on its own. -/
theorem passedText_token {text : List Char} (h : Plain text) {rest : List UInt8}
    (hrest : Separated rest) :
    passedText (encode text ++ rest) = nulls (encode text) ++ passedText rest := by
  cases rest with
  | nil =>
      have hscan := scanBytes_plain h []
      have hpassed := passed_byteRuns [] (encode text) []
      simp only [List.append_nil] at hscan hpassed
      simp [passedText, hscan, scanBytes, hpassed, passed, nulls_nil]
  | cons c rest =>
      obtain ⟨hc, hquote⟩ := hrest c rfl
      have hscan := scanBytes_plain h (c :: rest)
      rw [passedText_separator hc hquote]
      have hone : nulls (encode text ++ [c]) = nulls (encode text) ++ [c] :=
        nulls_split hc (encode text) []
      have hpassed := passed_append (a := encode text ++ [c]) (by simpa using hc) []
        (scanBytes .outside rest).1
      rw [hone, List.append_nil] at hpassed
      simp only [passedText, hscan, passed_byteRuns]
      simpa [scanBytes, stepByte, hquote, passed, passedText] using hpassed

/-- A text that goes through as it is, whatever follows. -/
def Passes (text : List Char) : Prop :=
  ∀ rest, passedText (encode text ++ rest) = encode text ++ passedText rest

theorem Passes.append {t t' : List Char} (h : Passes t) (h' : Passes t') : Passes (t ++ t') := by
  intro rest
  rw [encode_append, List.append_assoc, h, h', List.append_assoc]

theorem passes_string {s : List Nat} {token : List Char} (h : WritesString s token) :
    Passes token := by
  intro rest
  simp [passedText, scanBytes_string h, passed, nulls_nil]

theorem passes_char {c : Char} (hascii : c.toNat < 0x80)
    (hc : isNonFiniteByte (UInt8.ofNat c.toNat) = false)
    (hquote : UInt8.ofNat c.toNat ≠ quoteByte) : Passes [c] := by
  intro rest
  rw [encode_ascii hascii]
  exact passedText_separator hc hquote rest

theorem passes_blank {w : List Char} (h : Blank w) : Passes w := by
  induction w with
  | nil => exact fun rest => rfl
  | cons c w ih =>
      have hc : Passes [c] := by
        rcases blank_cases (h c (by simp)) with rfl | rfl | rfl | rfl <;>
          exact passes_char (by decide) (by decide) (by decide)
      exact hc.append (ih fun c' hc' => h c' (by simp [hc']))

theorem separated_blank {w : List Char} (h : Blank w) {rest : List UInt8}
    (hrest : Separated rest) : Separated (encode w ++ rest) := by
  cases w with
  | nil => exact hrest
  | cons c w =>
      rcases blank_cases (h c (by simp)) with rfl | rfl | rfl | rfl <;>
        · rw [encode_ascii (by decide)]
          intro b hb
          obtain rfl := Option.some.inj hb
          decide

/-- The characters between tokens. -/
theorem passes_punctuation :
    Passes ['['] ∧ Passes [']'] ∧ Passes ['{'] ∧ Passes ['}'] ∧ Passes [','] ∧ Passes [':'] := by
  refine ⟨?_, ?_, ?_, ?_, ?_, ?_⟩ <;>
    exact passes_char (by decide) (by decide) (by decide)

theorem notMem_numeral {lexeme : List Char} (h : IsNumeral lexeme) {x : Char}
    (hx : x.isDigit = false) (hx' : x ∉ ['-', '+', '.', 'e', 'E']) : x ∉ lexeme := by
  intro hc
  rcases h.chars x hc with h | h
  · rw [hx] at h
    cases h
  · exact hx' h

/-- A number has no letter `N` or `I`. -/
theorem nulls_numeral {lexeme : List Char} (h : IsNumeral lexeme) :
    nulls (encode lexeme) = encode lexeme := by
  have hne : ∀ x : Char, x.isDigit = false → x ∉ ['-', '+', '.', 'e', 'E'] → x.toNat < 0x80 →
      UInt8.ofNat x.toNat ∉ encode lexeme := by
    intro x hx hx' hascii hmem
    refine @ne_of_mem_encode _ _ (UInt8.ofNat x.toNat) hmem ?_ (fun c hc heq => ?_) rfl
    · rw [UInt8.toNat_ofNat']; omega
    · rw [UInt8.toNat_ofNat'] at heq
      obtain rfl : c = x := Char.toNat_inj.mp (by omega)
      exact notMem_numeral h hx hx' hc
  have hI : UInt8.ofNat 'I'.toNat ∉ encode lexeme := hne 'I' (by decide) (by decide) (by decide)
  have hN : UInt8.ofNat 'N'.toNat ∉ encode lexeme := hne 'N' (by decide) (by decide) (by decide)
  have hnegative : replaceAll (literal "-Infinity") (literal "null") 0 (encode lexeme) =
      encode lexeme := replaceAll_eq_self (by decide) hI
  have hinfinity : replaceAll (literal "Infinity") (literal "null") 0 (encode lexeme) =
      encode lexeme := replaceAll_eq_self (by decide) hI
  have hnan : replaceAll (literal "NaN") (literal "null") 0 (encode lexeme) = encode lexeme :=
    replaceAll_eq_self (by decide) hN
  simp only [nulls, nonFiniteTokens, List.foldl_cons, List.foldl_nil, hnegative, hinfinity, hnan]

/-- The output for the text is a text for `s`. -/
def Becomes (text : List Char) (s : Shape) : Prop :=
  ∃ text', Writes s text' ∧ ∀ rest, Separated rest →
    passedText (encode text ++ rest) = encode text' ++ passedText rest

theorem becomes_token {v : Json} {text text' : List Char} (hplain : Plain text)
    (hnulls : nulls (encode text) = encode text') (h : Writes (.value v) text') :
    Becomes text (.value v) :=
  ⟨text', h, fun rest hrest => by rw [passedText_token hplain hrest, hnulls]⟩

theorem separated_char {c : Char} (hascii : c.toNat < 0x80)
    (hc : isNonFiniteByte (UInt8.ofNat c.toNat) = false)
    (hquote : UInt8.ofNat c.toNat ≠ quoteByte) (rest : List UInt8) :
    Separated (encode [c] ++ rest) := by
  rw [encode_ascii hascii]
  intro b hb
  obtain rfl := Option.some.inj hb
  exact ⟨hc, hquote⟩

/-- A document goes through as one with `null` for every number that is not
finite. -/
theorem becomes_of_writes {s : Shape} {text : List Char} (h : Writes s text) :
    Becomes text s.nulled := by
  obtain ⟨hopen, hclose, hopenBrace, hcloseBrace, hcomma, hcolon⟩ := passes_punctuation
  induction h with
  | null => exact becomes_token (by decide) rfl .null
  | true => exact becomes_token (by decide) rfl .true
  | false => exact becomes_token (by decide) rfl .false
  | num h =>
      exact becomes_token (plain_numeral h) (nulls_numeral h) (.num h)
  | nonFinite c =>
      cases c <;> exact becomes_token (by decide) rfl .null
  | str h => exact ⟨_, .str h, fun rest _ => passes_string h rest⟩
  | @arr vs text h ih =>
      obtain ⟨text', hwrites, hpassed⟩ := ih
      refine ⟨_, .arr hwrites, fun rest _ => ?_⟩
      show passedText (encode (['['] ++ (text ++ [']'])) ++ rest) =
        encode (['['] ++ (text' ++ [']'])) ++ passedText rest
      simp only [encode_append, List.append_assoc]
      rw [hopen, hpassed _ (separated_char (by decide) (by decide) (by decide) rest), hclose]
  | @obj ms text h ih =>
      obtain ⟨text', hwrites, hpassed⟩ := ih
      refine ⟨_, .obj hwrites, fun rest _ => ?_⟩
      show passedText (encode (['{'] ++ (text ++ ['}'])) ++ rest) =
        encode (['{'] ++ (text' ++ ['}'])) ++ passedText rest
      simp only [encode_append, List.append_assoc]
      rw [hopenBrace, hpassed _ (separated_char (by decide) (by decide) (by decide) rest),
        hcloseBrace]
  | noElement blank => exact ⟨_, .noElement blank, fun rest _ => passes_blank blank rest⟩
  | @lastElement v w text w' blank h blank' ih =>
      obtain ⟨text', hwrites, hpassed⟩ := ih
      refine ⟨_, .lastElement blank hwrites blank', fun rest hrest => ?_⟩
      simp only [encode_append, List.append_assoc]
      rw [passes_blank blank, hpassed _ (separated_blank blank' hrest), passes_blank blank']
  | @nextElement v u vs w text w' texts blank h blank' more ih ih' =>
      obtain ⟨text', hwrites, hpassed⟩ := ih
      obtain ⟨texts', hmore, hpassed'⟩ := ih'
      refine ⟨_, .nextElement blank hwrites blank' hmore, fun rest hrest => ?_⟩
      show passedText (encode (w ++ (text ++ (w' ++ ([','] ++ texts)))) ++ rest) =
        encode (w ++ (text' ++ (w' ++ ([','] ++ texts')))) ++ passedText rest
      simp only [encode_append, List.append_assoc]
      rw [passes_blank blank, hpassed _ (separated_blank blank'
        (separated_char (by decide) (by decide) (by decide) _)), passes_blank blank', hcomma,
        hpassed' _ hrest]
  | noMember blank => exact ⟨_, .noMember blank, fun rest _ => passes_blank blank rest⟩
  | @lastMember k v w key w₁ w₂ text w' blank name blank₁ blank₂ h blank' ih =>
      obtain ⟨text', hwrites, hpassed⟩ := ih
      refine ⟨_, .lastMember blank name blank₁ blank₂ hwrites blank', fun rest hrest => ?_⟩
      show passedText (encode (w ++ (key ++ (w₁ ++ ([':'] ++ (w₂ ++ (text ++ w')))))) ++ rest) =
        encode (w ++ (key ++ (w₁ ++ ([':'] ++ (w₂ ++ (text' ++ w')))))) ++ passedText rest
      simp only [encode_append, List.append_assoc]
      rw [passes_blank blank, passes_string name, passes_blank blank₁, hcolon,
        passes_blank blank₂, hpassed _ (separated_blank blank' hrest), passes_blank blank']
  | @nextMember k v m ms w key w₁ w₂ text w' texts blank name blank₁ blank₂ h blank' more ih ih' =>
      obtain ⟨text', hwrites, hpassed⟩ := ih
      obtain ⟨texts', hmore, hpassed'⟩ := ih'
      refine ⟨_, .nextMember blank name blank₁ blank₂ hwrites blank' hmore, fun rest hrest => ?_⟩
      show passedText (encode (w ++ (key ++ (w₁ ++ ([':'] ++
          (w₂ ++ (text ++ (w' ++ ([','] ++ texts)))))))) ++ rest) =
        encode (w ++ (key ++ (w₁ ++ ([':'] ++ (w₂ ++ (text' ++ (w' ++ ([','] ++ texts')))))))) ++
          passedText rest
      simp only [encode_append, List.append_assoc]
      rw [passes_blank blank, passes_string name, passes_blank blank₁, hcolon,
        passes_blank blank₂, hpassed _ (separated_blank blank'
        (separated_char (by decide) (by decide) (by decide) _)), passes_blank blank', hcomma,
        hpassed' _ hrest]

/-! ## The answer -/

/-- The answer with a document as its data. -/
def answer (data : Json) : Json :=
  .obj [(points "data", data), (points "error_code", .num ['0'])]

theorem answer_document {data : Json} {w text w' : List Char} (blank : Blank w)
    (h : Writes (.value data) text) (blank' : Blank w') :
    ∃ out, Document (answer data) out ∧
      encode out = responsePrefix ++ encode (w ++ (text ++ w')) ++ responseSuffix := by
  have hcode := Writes.lastMember blank_space (writes_dumpsString (scalars_points "error_code"))
    blank_nil blank_space (.num (.mk (Or.inl rfl) .zero .none .none)) blank_nil
  have hdata := Writes.nextMember blank_nil (writes_dumpsString (scalars_points "data")) blank_nil
    (show Blank (' ' :: w) from fun c hc => by
      rcases List.mem_cons.mp hc with rfl | hc
      · decide
      · exact blank c hc) h blank' hcode
  refine ⟨_, .mk blank_nil (.obj hdata) blank_nil, ?_⟩
  have hlead : responsePrefix = encode ('{' :: (dumpsString (points "data") ++ [':', ' '])) := by
    decide
  have hsuffix : responseSuffix =
      encode (',' :: ' ' :: (dumpsString (points "error_code") ++ [':', ' ', '0', '}'])) := by
    decide
  rw [hlead, hsuffix, ← encode_append, ← encode_append]
  simp only [List.nil_append, List.append_nil, List.append_assoc, List.cons_append]

/-- Whatever the chunks, the answer is a document with the stored one's data. -/
theorem asApiResponse_document {data : Json} {text : List Char} (h : Document data text)
    {chunks : List (List UInt8)} (hchunks : chunks.flatten = encode text) :
    ∃ out, Document (answer data.nulled) out ∧ (asApiResponse chunks).1.flatten = encode out ∧
      (asApiResponse chunks).2 = none := by
  have hclosed : (pieces .outside chunks).2 = .outside := by
    rw [(pieces_bytewise .outside chunks).2, hchunks]
    exact closed_of_document h
  have hpassed : passed [] (pieces .outside chunks).1 = passedText (encode text) := by
    rw [← passed_bytewise, (pieces_bytewise .outside chunks).1, hchunks]
    rfl
  have htotal := total_foldl { sent := [], out := responsePrefix, held := [] }
    (pieces .outside chunks).1
  obtain @⟨w, body, w', blank, hbody, blank'⟩ := h
  obtain ⟨body', hwrites, hnulled⟩ := becomes_of_writes hbody
  obtain ⟨out, hdocument, hout⟩ := answer_document blank hwrites blank'
  have hend : passedText (encode w') = encode w' := by
    have h := passes_blank blank' []
    rwa [List.append_nil, show passedText [] = [] from rfl, List.append_nil] at h
  have hseparated : Separated (encode w') := by
    have h : Separated (encode w' ++ []) := separated_blank blank' fun c hc => by cases hc
    rwa [List.append_nil] at h
  have htext : passedText (encode (w ++ (body ++ w'))) = encode (w ++ (body' ++ w')) := by
    simp only [encode_append]
    rw [passes_blank blank, hnulled _ hseparated, hend]
  refine ⟨out, hdocument, ?_, ?_⟩
  · rw [hpassed, htext] at htotal
    simp only [total, List.flatten_nil, List.nil_append] at htotal
    simp only [asApiResponse, hclosed, List.flatten_append, List.flatten_cons, List.flatten_nil,
      List.append_nil, hout, ← List.append_assoc, htotal]
  · simp only [asApiResponse, hclosed]

variable {F : Type} [PyFloat F] {floatRepr : F → List Char}

/-- Where `json.dumps` writes a finite float as a number, a stored result passes
through as strict JSON with its strings and finite numbers, and `null` for the
others. -/
theorem pass_through_exact (hrepr : ∀ x, PyFloat.isFinite x = true → IsNumeral (floatRepr x))
    (result : KeySimResult F) {chunks : List (List UInt8)}
    (hchunks : chunks.flatten = (writeJson floatRepr result).flatten) :
    ∃ stored, loads false chunks.flatten = some stored ∧ stored = payload floatRepr result ∧
      (asApiResponse chunks).2 = none ∧
      loads true (asApiResponse chunks).1.flatten =
        some (.obj [(points "data", stored.nulled), (points "error_code", .num ['0'])]) := by
  obtain ⟨text, hdocument, htext⟩ := document_writeJson hrepr result
  rw [htext] at hchunks
  obtain ⟨out, hout, hbytes, herror⟩ := asApiResponse_document hdocument hchunks
  rw [hchunks, hbytes]
  refine ⟨_, loads_document hdocument (by simp), rfl, herror, ?_⟩
  exact loads_document hout fun _ => ⟨strict_nulled _, trivial, trivial⟩

/-! ## A result with a value that is not a number -/

/-- `repr` of one and a half, and of zero for the others. -/
def oneAndAHalf (x : NanRat) : List Char :=
  if x = ⟨some (3 / 2)⟩ then "1.5".toList else "0.0".toList

theorem isNumeral_oneAndAHalf (x : NanRat) : IsNumeral (oneAndAHalf x) := by
  have hfive : IsNumeral ([] ++ (['1'] ++ (['.', '5'] ++ []))) :=
    .mk (Or.inl rfl) (.more (by decide) (by decide) fun c hc => by cases hc)
      (.some (by decide) fun c hc => by
        obtain rfl := List.mem_singleton.mp hc
        decide) .none
  have hzero : IsNumeral ([] ++ (['0'] ++ (['.', '0'] ++ []))) :=
    .mk (Or.inl rfl) .zero
      (.some (by decide) fun c hc => by
        obtain rfl := List.mem_singleton.mp hc
        decide) .none
  unfold oneAndAHalf
  split_ifs
  · exact hfive
  · exact hzero

def nanIteration : IterationSimResult NanRat :=
  { number := 1, energyAllocatedPercentage := 0, consumption := [⟨none⟩, ⟨some (3 / 2)⟩],
    consumptionTotal := 0, energyAllocated := [], energyAllocatedTotal := 0,
    energyAllocatedConsumed := [], energyAllocatedConsumedTotal := 0, residualVolume := [],
    residualVolumeTotal := 0, surplus := [], surplusTotal := 0, sharingRate := [],
    sharingRateTotal := 0, selfSufficiencyRate := [], selfSufficiencyRateTotal := 0,
    consumers :=
      [{ name := "NaN, \"Infinity\"", energyAllocatedPercentage := 0, consumption := [],
         consumptionTotal := 0, energyAllocated := [], energyAllocatedTotal := 0,
         energyAllocatedConsumed := [], energyAllocatedConsumedTotal := 0, residualVolume := [],
         residualVolumeTotal := 0, surplus := [], surplusTotal := 0 }] }

def nanResult : KeySimResult NanRat :=
  { name := "key", description := "", consumptionTotal := 0, energyAllocatedTotal := 0,
    energyAllocatedConsumedTotal := 0, residualVolumeTotal := 0, surplusTotal := 0,
    selfSufficiencyRateTotal := 0, sharingRateTotal := 0, iterations := [nanIteration] }

/-- The document in chunks of one byte. -/
def oneByteChunks : List (List UInt8) :=
  (writeJson oneAndAHalf nanResult).flatten.map fun b => [b]

theorem pass_through_exact_nan :
    ∃ stored, loads false oneByteChunks.flatten = some stored ∧
      stored = payload oneAndAHalf nanResult ∧ (asApiResponse oneByteChunks).2 = none ∧
      loads true (asApiResponse oneByteChunks).1.flatten =
        some (.obj [(points "data", stored.nulled), (points "error_code", .num ['0'])]) := by
  refine pass_through_exact (fun x _ => isNumeral_oneAndAHalf x) nanResult ?_
  exact List.flatMap_singleton' _

end SimulationKey.Theorems.PassThrough
