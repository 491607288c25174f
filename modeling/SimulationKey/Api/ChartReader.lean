import SimulationKey.Api.Pieces

/-!
# The chart's reader over a text

`_IterationReader` fed the pieces of a text. A value ends only where the next
string or the end of the document settles it, so what the reader has read is
told by the state it would be in if it settled now (`Settles r r'`).
-/

namespace SimulationKey

open Kit Kit.Json Kit.Text PyFloat

variable {F : Type}

/-! ## Runs -/

theorem braces_append (depth : Int) (iterations : List (Members F)) (a b : List UInt8) :
    IterationReader.braces depth iterations (a ++ b) =
      IterationReader.braces (IterationReader.braces depth iterations a).1
        (IterationReader.braces depth iterations a).2 b := by
  induction a generalizing depth iterations with
  | nil => rfl
  | cons c a ih =>
      rw [List.cons_append, IterationReader.braces, IterationReader.braces]
      split_ifs <;> exact ih _ _

/-- What the braces add to the iterations does not depend on those before. -/
theorem braces_iterations (depth : Int) (bytes : List UInt8) :
    ∃ depth' new, ∀ iterations : List (Members F),
      IterationReader.braces depth iterations bytes = (depth', iterations ++ new) := by
  induction bytes generalizing depth with
  | nil => exact ⟨depth, [], fun its => by simp [IterationReader.braces]⟩
  | cons c bytes ih =>
      by_cases hopen : c = 0x7b
      · obtain ⟨depth', new, h⟩ := ih (depth + 1)
        refine ⟨depth', (if depth + 1 = 2 then [Members.empty] else []) ++ new, fun its => ?_⟩
        rw [IterationReader.braces, if_pos hopen]
        split_ifs
        · rw [h, List.append_assoc]
        · exact h its
      · by_cases hclose : c = 0x7d
        · obtain ⟨depth', new, h⟩ := ih (depth - 1)
          refine ⟨depth', new, fun its => ?_⟩
          rw [IterationReader.braces, if_neg hopen, if_pos hclose]
          exact h its
        · obtain ⟨depth', new, h⟩ := ih depth
          refine ⟨depth', new, fun its => ?_⟩
          rw [IterationReader.braces, if_neg hopen, if_neg hclose]
          exact h its

theorem run_append (r : IterationReader F) (a b : List UInt8) :
    r.run (a ++ b) = (r.run a).run b := by
  by_cases h : r.member = none <;> simp [IterationReader.run, braces_append, h]

theorem run_nil (r : IterationReader F) : r.run [] = r := by
  cases r with
  | mk maxPoints stride depth iterations member target value =>
      cases member <;> simp [IterationReader.run, IterationReader.braces]

/-- No brace. -/
def Braceless (text : List Char) : Prop := '{' ∉ text ∧ '}' ∉ text

instance (text : List Char) : Decidable (Braceless text) := inferInstanceAs (Decidable (_ ∧ _))

theorem braces_braceless {text : List Char} (h : Braceless text) (depth : Int)
    (iterations : List (Members F)) :
    IterationReader.braces depth iterations (encode text) = (depth, iterations) := by
  have hbytes : ∀ b ∈ encode text, b ≠ 0x7b ∧ b ≠ 0x7d := by
    intro b hb
    constructor
    · refine ne_of_mem_encode hb (by decide) fun c hc heq => ?_
      obtain rfl : c = '{' := Char.toNat_inj.mp heq
      exact h.1 hc
    · refine ne_of_mem_encode hb (by decide) fun c hc heq => ?_
      obtain rfl : c = '}' := Char.toNat_inj.mp heq
      exact h.2 hc
  generalize encode text = bytes at hbytes
  induction bytes with
  | nil => rfl
  | cons c bytes ih =>
      obtain ⟨hopen, hclose⟩ := hbytes c (by simp)
      rw [IterationReader.braces, if_neg hopen, if_neg hclose]
      exact ih fun b hb => hbytes b (by simp [hb])

theorem run_braceless {text : List Char} (h : Braceless text) (r : IterationReader F) :
    r.run (encode text) =
      { r with value := if r.member = none then r.value else r.value ++ encode text } := by
  rw [IterationReader.run, braces_braceless h]

/-- Outside a member, a run without braces changes nothing. -/
theorem run_quiet {text : List Char} (h : Braceless text) {r : IterationReader F}
    (hmember : r.member = none) : r.run (encode text) = r := by
  rw [run_braceless h, if_pos hmember]


/-- An opening brace, outside a member. -/
theorem run_open {r : IterationReader F} (hmember : r.member = none) :
    r.run (encode ['{']) =
      { r with
        depth := r.depth + 1
        iterations := if r.depth + 1 = 2 then r.iterations ++ [Members.empty] else r.iterations } := by
  have hbyte : encode ['{'] = [0x7b] := rfl
  rw [IterationReader.run, if_pos hmember, hbyte]
  rfl

theorem run_close {r : IterationReader F} (hmember : r.member = none) :
    r.run (encode ['}']) = { r with depth := r.depth - 1 } := by
  have hbyte : encode ['}'] = [0x7d] := rfl
  rw [IterationReader.run, if_pos hmember, hbyte]
  rfl

/-! ## Texts -/

section Feeding

variable [PyFloat F] {floatOf : List Char → F}

theorem foldlM_byteRuns (r : IterationReader F) (bytes : List UInt8) :
    (byteRuns bytes).foldlM (IterationReader.piece floatOf) r = .ok (r.run bytes) := by
  induction bytes generalizing r with
  | nil => rw [run_nil]; rfl
  | cons b bytes ih =>
      show (byteRuns bytes).foldlM (IterationReader.piece floatOf) (r.run [b]) = _
      rw [ih, ← run_append, List.singleton_append]

theorem foldlM_bytewise (r : IterationReader F) (ps : List Piece) :
    (bytewise ps).foldlM (IterationReader.piece floatOf) r =
      ps.foldlM (IterationReader.piece floatOf) r := by
  induction ps generalizing r with
  | nil => rfl
  | cons p ps ih =>
      show (p.bytewise ++ bytewise ps).foldlM _ _ = _
      cases p with
      | string token =>
          rw [Piece.bytewise, List.singleton_append, List.foldlM_cons, List.foldlM_cons]
          exact bind_congr ih
      | run bytes =>
          rw [Piece.bytewise, List.foldlM_append, foldlM_byteRuns]
          exact ih _

/-- The reader after a text. -/
def feed (floatOf : List Char → F) (r : IterationReader F) (text : List Char) :
    Except ReadError (IterationReader F) :=
  (scanBytes .outside (encode text)).1.foldlM (IterationReader.piece floatOf) r

theorem feed_append {t : List Char} (h : Closed t) (t' : List Char) (r : IterationReader F) :
    feed floatOf r (t ++ t') = feed floatOf r t >>= fun r => feed floatOf r t' := by
  rw [feed, encode_append, scanBytes_append, h, List.foldlM_append]
  rfl

theorem feed_plain {t : List Char} (h : Plain t) (r : IterationReader F) :
    feed floatOf r t = .ok (r.run (encode t)) := by
  have hscan := scanBytes_plain h []
  rw [List.append_nil] at hscan
  rw [feed, hscan]
  simp only [scanBytes, List.append_nil, foldlM_byteRuns]

/-- The reader behind a string, once the member before it has ended. -/
def IterationReader.atString (r : IterationReader F) (s : List Nat) : IterationReader F :=
  if r.depth = 2 ∧ r.iterations ≠ [] then
    match Member.named s with
    | some m => { r with member := some m, target := r.iterations.length - 1 }
    | none => r
  else r

theorem feed_string {s : List Nat} {token : List Char} (h : WritesString s token)
    {r r' : IterationReader F} (hend : r.endMember floatOf = .ok r') :
    feed floatOf r token = .ok (r'.atString s) := by
  have hscan := scanBytes_string h []
  rw [List.append_nil] at hscan
  have hname : decodeDocument false token = some (.str s) := by
    have hdocument : Document (.str s) ([] ++ (token ++ [])) := .mk blank_nil (.str h) blank_nil
    rw [List.nil_append, List.append_nil] at hdocument
    exact decodeDocument_writes hdocument (by simp)
  rw [feed, hscan]
  show (r.string floatOf (encode token) >>= pure) = _
  rw [bind_pure, IterationReader.string, hend]
  show (if r'.depth = 2 ∧ r'.iterations ≠ [] then _ else _) = _
  rw [decode_encode, IterationReader.atString]
  split_ifs
  · simp only [hname]
    cases Member.named s <;> rfl
  · rfl

/-! ## What is skipped -/

theorem braceless_blank {w : List Char} (h : Blank w) : Braceless w := by
  constructor <;> intro hc <;> have hbrace := h _ hc <;> revert hbrace <;> decide

theorem Braceless.append {t t' : List Char} (h : Braceless t) (h' : Braceless t') :
    Braceless (t ++ t') := by
  simp only [Braceless, List.mem_append, not_or]
  exact ⟨⟨h.1, h'.1⟩, h.2, h'.2⟩

theorem braceless_numeral {lexeme : List Char} (h : IsNumeral lexeme) : Braceless lexeme := by
  constructor <;> intro hc <;> rcases h.chars _ hc with h | h <;> revert h <;> decide

theorem braceless_nonFinite (c : NonFinite) : Braceless c.text := by
  cases c <;> decide

/-- A text that leaves a reader outside every member as it is. -/
def Skips (floatOf : List Char → F) (r : IterationReader F) (text : List Char) : Prop :=
  feed floatOf r text = .ok r

theorem Skips.append {r : IterationReader F} {t t' : List Char} (hclosed : Closed t)
    (h : Skips floatOf r t) (h' : Skips floatOf r t') : Skips floatOf r (t ++ t') := by
  rw [Skips, feed_append hclosed, h]
  exact h'

theorem skips_plain {r : IterationReader F} (hmember : r.member = none) {t : List Char}
    (hplain : Plain t) (hbrace : Braceless t) : Skips floatOf r t := by
  rw [Skips, feed_plain hplain, run_quiet hbrace hmember]

theorem skips_blank {r : IterationReader F} (hmember : r.member = none) {w : List Char}
    (h : Blank w) : Skips floatOf r w :=
  skips_plain hmember (plain_blank h) (braceless_blank h)

theorem skips_object {r : IterationReader F} (hmember : r.member = none) (hdepth : 2 ≤ r.depth)
    {text : List Char} (hclosed : Closed text)
    (h : Skips floatOf { r with depth := r.depth + 1 } text) :
    Skips floatOf r ('{' :: (text ++ ['}'])) := by
  have hopen : feed floatOf r ['{'] = .ok { r with depth := r.depth + 1 } := by
    have hne : r.depth + 1 ≠ 2 := by omega
    rw [feed_plain (by decide), run_open hmember, if_neg hne]
  have hback : feed floatOf { r with depth := r.depth + 1 } ['}'] = .ok r := by
    rw [feed_plain (by decide), run_close (by exact hmember), Int.add_sub_cancel]
  show feed floatOf r (['{'] ++ (text ++ ['}'])) = .ok r
  rw [feed_append (closed_plain (by decide)), hopen]
  show feed floatOf _ (text ++ ['}']) = .ok r
  rw [feed_append hclosed, h]
  exact hback

/-- Inside a consumer nothing is a key of its iteration. -/
theorem skips_of_writes {s : Shape} {text : List Char} (h : Writes s text)
    {r : IterationReader F} (hmember : r.member = none) (hdepth : 3 ≤ r.depth) :
    Skips floatOf r text := by
  have hchar : ∀ {r : IterationReader F} {c : Char} {t : List Char}, r.member = none →
      Plain [c] → Braceless [c] → Skips floatOf r t → Skips floatOf r (c :: t) :=
    fun hmember hplain hbrace ht =>
      (skips_plain hmember hplain hbrace).append (closed_plain hplain) ht
  have hstring : ∀ {r : IterationReader F} {k : List Nat} {token : List Char}, r.member = none →
      3 ≤ r.depth → WritesString k token → Skips floatOf r token := by
    intro r k token hmember hdepth htoken
    have hend : r.endMember floatOf = .ok r := by rw [IterationReader.endMember, hmember]
    have hdeep : ¬ (r.depth = 2 ∧ r.iterations ≠ []) := by omega
    rw [Skips, feed_string htoken hend, IterationReader.atString, if_neg hdeep]
  induction h generalizing r with
  | null | true | false => exact skips_plain hmember (by decide) (by decide)
  | num h => exact skips_plain hmember (plain_numeral h) (braceless_numeral h)
  | nonFinite c => exact skips_plain hmember (plain_nonFinite c) (braceless_nonFinite c)
  | str h => exact hstring hmember hdepth h
  | arr h ih =>
      refine hchar hmember (by decide) (by decide) ?_
      exact (ih hmember hdepth).append (closed_of_writes h)
        (skips_plain hmember (by decide) (by decide))
  | obj h ih =>
      refine skips_object hmember (by omega) (closed_of_writes h) (ih hmember ?_)
      show 3 ≤ r.depth + 1
      omega
  | noElement blank => exact skips_blank hmember blank
  | lastElement blank h blank' ih =>
      refine (skips_blank hmember blank).append (closed_plain (plain_blank blank)) ?_
      exact (ih hmember hdepth).append (closed_of_writes h) (skips_blank hmember blank')
  | nextElement blank h blank' more ih ih' =>
      refine (skips_blank hmember blank).append (closed_plain (plain_blank blank)) ?_
      refine (ih hmember hdepth).append (closed_of_writes h) ?_
      refine (skips_blank hmember blank').append (closed_plain (plain_blank blank')) ?_
      exact hchar hmember (by decide) (by decide) (ih' hmember hdepth)
  | noMember blank => exact skips_blank hmember blank
  | lastMember blank name blank₁ blank₂ h blank' ih =>
      refine (skips_blank hmember blank).append (closed_plain (plain_blank blank)) ?_
      refine (hstring hmember hdepth name).append (closed_string name) ?_
      refine (skips_blank hmember blank₁).append (closed_plain (plain_blank blank₁)) ?_
      refine hchar hmember (by decide) (by decide) ?_
      refine (skips_blank hmember blank₂).append (closed_plain (plain_blank blank₂)) ?_
      exact (ih hmember hdepth).append (closed_of_writes h) (skips_blank hmember blank')
  | nextMember blank name blank₁ blank₂ h blank' more ih ih' =>
      refine (skips_blank hmember blank).append (closed_plain (plain_blank blank)) ?_
      refine (hstring hmember hdepth name).append (closed_string name) ?_
      refine (skips_blank hmember blank₁).append (closed_plain (plain_blank blank₁)) ?_
      refine hchar hmember (by decide) (by decide) ?_
      refine (skips_blank hmember blank₂).append (closed_plain (plain_blank blank₂)) ?_
      refine (ih hmember hdepth).append (closed_of_writes h) ?_
      refine (skips_blank hmember blank').append (closed_plain (plain_blank blank')) ?_
      exact hchar hmember (by decide) (by decide) (ih' hmember hdepth)

/-- The consumers of an iteration, which are objects. -/
theorem skips_objects {vs : List Json} {text : List Char} (h : Writes (.elements vs) text)
    (hvs : ∀ v ∈ vs, ∃ ms, v = .obj ms) {r : IterationReader F} (hmember : r.member = none)
    (hdepth : r.depth = 2) : Skips floatOf r text := by
  have hobject : ∀ {v : Json} {t : List Char}, (∃ ms, v = .obj ms) → Writes (.value v) t →
      Skips floatOf r t := by
    rintro v t ⟨ms, rfl⟩ ht
    cases ht with
    | obj ht =>
        refine skips_object hmember (by omega) (closed_of_writes ht) ?_
        refine skips_of_writes ht hmember ?_
        show 3 ≤ r.depth + 1
        omega
  induction vs generalizing text with
  | nil =>
      cases h with
      | noElement blank => exact skips_blank hmember blank
  | cons v vs ih =>
      have hv := hvs v (by simp)
      cases h with
      | lastElement blank h blank' =>
          refine (skips_blank hmember blank).append (closed_plain (plain_blank blank)) ?_
          exact (hobject hv h).append (closed_of_writes h) (skips_blank hmember blank')
      | @nextElement _ _ _ _ _ _ texts blank h blank' more =>
          refine (skips_blank hmember blank).append (closed_plain (plain_blank blank)) ?_
          refine (hobject hv h).append (closed_of_writes h) ?_
          refine (skips_blank hmember blank').append (closed_plain (plain_blank blank')) ?_
          have hcomma : Skips floatOf r [','] := skips_plain hmember (by decide) (by decide)
          exact hcomma.append (closed_plain (by decide)) (ih more fun v hv => hvs v (by simp [hv]))

/-! ## Values -/

theorem lstrip_blank {w : List Char} (h : Blank w) (bytes : List UInt8) :
    lstrip (encode w ++ bytes) = lstrip bytes := by
  induction w with
  | nil => rfl
  | cons c w ih =>
      have ih := ih fun c' hc' => h c' (by simp [hc'])
      rcases blank_cases (h c (by simp)) with rfl | rfl | rfl | rfl <;>
        · rw [encode_ascii (by decide)]
          exact ih

theorem lstrip_char {c : Char} (hascii : c.toNat < 0x80) (hspace : c.toNat ≠ 0x20)
    (hcontrol : ¬ (0x09 ≤ c.toNat ∧ c.toNat ≤ 0x0d)) (text : List Char) (bytes : List UInt8) :
    lstrip (encode (c :: text) ++ bytes) = encode (c :: text) ++ bytes := by
  have hbyte : (UInt8.ofNat c.toNat).toNat = c.toNat := by
    rw [UInt8.toNat_ofNat']
    omega
  rw [encode_ascii hascii, lstrip, List.cons_append]
  refine List.dropWhile_cons_of_neg ?_
  simp only [Bool.or_eq_true, Bool.and_eq_true, decide_eq_true_eq, not_or]
  refine ⟨fun h => ?_, fun h => hcontrol ?_⟩
  · rw [h] at hbyte
    exact hspace hbyte.symm
  · rw [UInt8.le_iff_toNat_le, UInt8.le_iff_toNat_le, hbyte] at h
    exact h

/-- A value starts with none of the bytes that are stripped. -/
theorem lstrip_value {v : Json} {text : List Char} (h : Writes (.value v) text)
    (bytes : List UInt8) : lstrip (encode text ++ bytes) = encode text ++ bytes := by
  cases h with
  | null | true | false => exact lstrip_char (by decide) (by decide) (by decide) _ _
  | nonFinite c => cases c <;> exact lstrip_char (by decide) (by decide) (by decide) _ _
  | arr | obj => exact lstrip_char (by decide) (by decide) (by decide) _ _
  | str h =>
      obtain ⟨t, rfl⟩ := h.head
      exact lstrip_char (by decide) (by decide) (by decide) _ _
  | num h =>
      cases h with
      | @mk minus int frac exp sign whole =>
          rcases sign with rfl | rfl
          · obtain ⟨d, ds, rfl, hd⟩ := whole.head
            have hdigit : 48 ≤ d.toNat ∧ d.toNat ≤ 57 := by
              simpa [Char.isDigit, UInt32.le_iff_toNat_le] using hd
            exact lstrip_char (by omega) (by omega) (by omega) _ _
          · exact lstrip_char (by decide) (by decide) (by decide) _ _

/-- What stands between a key and the end of its value. -/
def valueText (w₁ w₂ text : List Char) : List Char := w₁ ++ ':' :: (w₂ ++ text)

/-- A value ends where what follows it does not go on it. -/
theorem decode_value {v : Json} {w₁ w₂ text t : List Char} (blank₁ : Blank w₁)
    (blank₂ : Blank w₂) (h : Writes (.value v) text) (ht : StopsAt goesOn t) :
    ∃ rest, lstrip (encode (valueText w₁ w₂ text ++ t)) = 0x3a :: rest ∧
      decode (lstrip rest) = some (text ++ t) ∧ rawDecode false (text ++ t) = some (v, t) := by
  refine ⟨encode (w₂ ++ (text ++ t)), ?_, ?_, rawDecode_writes h (by simp) ht⟩
  · have htext : valueText w₁ w₂ text ++ t = w₁ ++ (':' :: (w₂ ++ (text ++ t))) := by
      simp [valueText]
    have hcolon := lstrip_char (c := ':') (by decide) (by decide) (by decide)
      (w₂ ++ (text ++ t)) []
    rw [List.append_nil] at hcolon
    rw [htext, encode_append, lstrip_blank blank₁, hcolon, encode_ascii (by decide)]
    rfl
  · rw [encode_append, lstrip_blank blank₂, encode_append, lstrip_value h, ← encode_append,
      decode_encode]

theorem endMember_number {v : Json} {w₁ w₂ text t : List Char} (blank₁ : Blank w₁)
    (blank₂ : Blank w₂) (h : Writes (.value v) text) (ht : StopsAt goesOn t)
    {r : IterationReader F} (hmember : r.member = some .number)
    (hvalue : r.value = encode (valueText w₁ w₂ text ++ t)) :
    r.endMember floatOf =
      .ok { r with
        member := none
        value := []
        iterations := r.iterations.modify r.target fun ms => { ms with number := some v } } := by
  obtain ⟨rest, hstrip, hdecode, hraw⟩ := decode_value blank₁ blank₂ h ht
  simp only [IterationReader.endMember, hmember, hvalue, hstrip, hdecode, hraw, ne_eq,
    not_true_eq_false, if_false]
  rfl

theorem endMember_series {vs : List Json} {x : IterationSeries} {stride : Nat}
    {sampled : List (Option F)} {w₁ w₂ text t : List Char} (blank₁ : Blank w₁)
    (blank₂ : Blank w₂) (h : Writes (.value (.arr vs)) text) (ht : StopsAt goesOn t)
    {r : IterationReader F} (hmember : r.member = some (.series x))
    (hvalue : r.value = encode (valueText w₁ w₂ text ++ t)) (hpoints : r.maxPoints ≠ 0)
    (hstride : r.stride.getD (strideOf vs.length r.maxPoints) = stride)
    (hsampled : (everyNth stride vs).mapM (sampleValue floatOf) = .ok sampled) :
    r.endMember floatOf =
      .ok { r with
        member := none
        value := []
        stride := some stride
        iterations := r.iterations.modify r.target fun ms =>
          { ms with series := Function.update ms.series x (some sampled) } } := by
  obtain ⟨rest, hstrip, hdecode, hraw⟩ := decode_value blank₁ blank₂ h ht
  have hsample : ∀ r' : IterationReader F, r'.maxPoints = r.maxPoints → r'.stride = r.stride →
      r'.sample floatOf (.arr vs) = .ok (sampled, stride) := by
    intro r' hpoints' hstride'
    rw [IterationReader.sample, hpoints', hstride']
    cases hr : r.stride with
    | none =>
        rw [hr] at hstride
        subst hstride
        simp only [Option.getD_none] at hsampled
        simp only [if_neg hpoints, pure_bind, Option.getD_none, hsampled]
        rfl
    | some s =>
        rw [hr] at hstride
        subst hstride
        simp only [Option.getD_some] at hsampled
        simp only [pure_bind, Option.getD_some, hsampled]
        rfl
  simp only [IterationReader.endMember, hmember, hvalue, hstrip, hdecode, hraw, ne_eq,
    not_true_eq_false, if_false]
  rw [hsample { r with member := none, value := [] } rfl rfl]
  rfl

/-! ## What is settled -/

/-- If the member being read ended, here or behind a text that does not go on
its value, the reader would be as from `r'`. -/
structure Settles (floatOf : List Char → F) (r r' : IterationReader F) : Prop where
  member : r'.member = none
  value : r'.value = []
  ends : ∀ t, StopsAt goesOn t →
    (r.run (encode t)).endMember floatOf = .ok (r'.run (encode t))

theorem Settles.endMember {r r' : IterationReader F} (h : Settles floatOf r r') :
    r.endMember floatOf = .ok r' := by
  have hends := h.ends [] fun c hc => by cases hc
  rwa [encode_nil, run_nil, run_nil] at hends

theorem Settles.self {r : IterationReader F} (hmember : r.member = none) (hvalue : r.value = []) :
    Settles floatOf r r := by
  refine ⟨hmember, hvalue, fun t _ => ?_⟩
  have hnone : (r.run (encode t)).member = none := hmember
  rw [IterationReader.endMember, hnone]

theorem Settles.run {r r' : IterationReader F} (h : Settles floatOf r r') {t : List Char}
    (ht : StopsAt goesOn t) : Settles floatOf (r.run (encode t)) (r'.run (encode t)) := by
  refine ⟨h.member, ?_, fun t' ht' => ?_⟩
  · rw [IterationReader.run, if_pos h.member]
    exact h.value
  · rw [← run_append, ← run_append, ← encode_append]
    exact h.ends (t ++ t') (ht.append ht')

/-- Between two values. -/
theorem Settles.feed {r r' : IterationReader F} (h : Settles floatOf r r') {t : List Char}
    (hplain : Plain t) (ht : StopsAt goesOn t) :
    ∃ r₁, feed floatOf r t = .ok r₁ ∧ Settles floatOf r₁ (r'.run (encode t)) :=
  ⟨_, feed_plain hplain r, h.run ht⟩

theorem stops_blank {w : List Char} (h : Blank w) : StopsAt goesOn w := by
  have hstops : StopsAt goesOn (w ++ []) := stops_of_blank h fun c hc => by cases hc
  rwa [List.append_nil] at hstops

theorem modify_last {α : Type} (done : List α) (a : α) (new : List α) (f : α → α) :
    (done ++ a :: new).modify done.length f = done ++ f a :: new := by
  induction done with
  | nil => rfl
  | cons b done ih => simp [ih]

/-- A value that has been read settles once it ends, and ends its member wherever
the text goes on. -/
theorem settles_value {r : IterationReader F} {m : Member} {done : List (Members F)}
    {current : Members F} {after : Option Nat} {f : Members F → Members F} {text : List Char}
    (hmember : r.member = none) (hvalue : r.value = [])
    (hiterations : r.iterations = done ++ [current]) (htext : Braceless text)
    (hend : ∀ (r₁ : IterationReader F) (t : List Char), StopsAt goesOn t → r₁.member = some m →
      r₁.value = encode (text ++ t) → r₁.maxPoints = r.maxPoints → r₁.stride = r.stride →
      r₁.endMember floatOf =
        .ok { r₁ with
          member := none, value := [], stride := after
          iterations := r₁.iterations.modify r₁.target f }) :
    Settles floatOf ({ r with member := some m, target := done.length }.run (encode text))
      { r with stride := after, iterations := done ++ [f current], target := done.length } := by
  refine ⟨hmember, hvalue, fun t ht => ?_⟩
  obtain ⟨depth, new, hbraces⟩ := braces_iterations (F := F) r.depth (encode t)
  have hread : ({ r with member := some m, target := done.length }.run (encode text)).run
      (encode t) =
      { r with
        member := some m, target := done.length, depth := depth
        iterations := done ++ current :: new, value := encode (text ++ t) } := by
    rw [run_braceless htext]
    simp [IterationReader.run, hbraces, hiterations, hvalue]
  rw [hread]
  refine (hend _ t ht ?_ ?_ ?_ ?_).trans ?_
  · rfl
  · rfl
  · rfl
  · rfl
  · simp [IterationReader.run, hbraces, hmember, hvalue, modify_last]

end Feeding

end SimulationKey
