import SimulationKey.Api.TimeseriesReader

/-!
# The pieces of a text

What `_pieces` finds does not depend on the chunks: up to where it cuts a run,
it yields what it would yield byte by byte. Byte by byte, a string of the
grammar is one piece, and the bytes of any other token are runs.
-/

namespace SimulationKey

open Kit Kit.Json Kit.Text

/-! ## In jumps -/

/-- `_STRING_STOP`. -/
def isStringStop (b : UInt8) : Bool := b = quoteByte ∨ b = backslashByte

/-- `_pieces` from a position of a chunk on: outside a string it goes to the next
quote (`find`), inside one to the next stop (`search`). -/
def jumpChunk : Scan → List UInt8 → List Piece × Scan
  | scan, [] => ([], scan)
  | .outside, b :: rest =>
    match (b :: rest).findIdx? (· = quoteByte) with
    | none => ([.run (b :: rest)], .outside)
    | some n =>
      let (ps, scan) := jumpChunk (.inside [quoteByte] false) ((b :: rest).drop (n + 1))
      (yieldRun ((b :: rest).take n) ++ ps, scan)
  | .inside token true, b :: rest => jumpChunk (.inside (token ++ [b]) false) rest
  | .inside token false, b :: rest =>
    match (b :: rest).findIdx? isStringStop with
    | none => ([], .inside (token ++ b :: rest) false)
    | some n =>
      let read := (b :: rest).take (n + 1)
      if (b :: rest)[n]? = some backslashByte then
        jumpChunk (.inside (token ++ read) true) ((b :: rest).drop (n + 1))
      else
        let (ps, scan) := jumpChunk .outside ((b :: rest).drop (n + 1))
        (.string (token ++ read) :: ps, scan)
termination_by _ chunk => chunk.length
decreasing_by all_goals simp

def jumpPieces : Scan → List (List UInt8) → List Piece × Scan
  | scan, [] => ([], scan)
  | scan, chunk :: chunks =>
    let (ps, scan) := jumpChunk scan chunk
    let (ps', scan) := jumpPieces scan chunks
    (ps ++ ps', scan)

/-- `_pieces` of a document: what it yields, and the error it ends with. -/
def splitPieces (chunks : List (List UInt8)) : List Piece × Option ReadError :=
  match jumpPieces .outside chunks with
  | (ps, .outside) => (ps, none)
  | (ps, .inside ..) => (ps, some .endsInsideString)

/-- Outside a string, up to the next quote. -/
theorem scanChunk_outside (run rest : List UInt8) :
    (rest.findIdx? (· = quoteByte) = none → scanChunk .outside run rest =
      (yieldRun (run ++ rest), .outside)) ∧
    ∀ n, rest.findIdx? (· = quoteByte) = some n → scanChunk .outside run rest =
      (yieldRun (run ++ rest.take n) ++
          (scanChunk (.inside [quoteByte] false) [] (rest.drop (n + 1))).1,
        (scanChunk (.inside [quoteByte] false) [] (rest.drop (n + 1))).2) := by
  induction rest generalizing run with
  | nil => exact ⟨fun _ => by simp [scanChunk], fun n hn => by simp at hn⟩
  | cons b rest ih =>
      by_cases hb : b = quoteByte
      · refine ⟨fun hnone => by simp [List.findIdx?_cons, hb] at hnone, fun n hn => ?_⟩
        obtain rfl : n = 0 := by simpa [List.findIdx?_cons, hb] using hn.symm
        simp [scanChunk, hb]
      · obtain ⟨ihnone, ihsome⟩ := ih (run ++ [b])
        simp only [List.findIdx?_cons, hb, decide_false, Bool.false_eq_true, if_false]
        constructor
        · intro hnone
          rw [Option.map_eq_none_iff] at hnone
          simp [scanChunk, hb, ihnone hnone]
        · intro n hn
          obtain ⟨n', hn', rfl⟩ := Option.map_eq_some_iff.mp hn
          simp [scanChunk, hb, ihsome n' hn']

/-- Inside a string, up to the next stop. -/
theorem scanChunk_inside (token rest : List UInt8) :
    (rest.findIdx? isStringStop = none → scanChunk (.inside token false) [] rest =
      ([], .inside (token ++ rest) false)) ∧
    ∀ n, rest.findIdx? isStringStop = some n → scanChunk (.inside token false) [] rest =
      if rest[n]? = some backslashByte then
        scanChunk (.inside (token ++ rest.take (n + 1)) true) [] (rest.drop (n + 1))
      else (.string (token ++ rest.take (n + 1)) :: (scanChunk .outside [] (rest.drop (n + 1))).1,
        (scanChunk .outside [] (rest.drop (n + 1))).2) := by
  induction rest generalizing token with
  | nil => exact ⟨fun _ => by simp [scanChunk], fun n hn => by simp at hn⟩
  | cons b rest ih =>
      by_cases hstop : isStringStop b = true
      · refine ⟨fun hnone => by simp [List.findIdx?_cons, hstop] at hnone, fun n hn => ?_⟩
        obtain rfl : n = 0 := by simpa [List.findIdx?_cons, hstop] using hn.symm
        by_cases hb : b = backslashByte
        · simp [scanChunk, hb]
        · have hquote : b = quoteByte := by simpa [isStringStop, hb] using hstop
          simp [scanChunk, hquote, show quoteByte ≠ backslashByte by decide]
      · obtain ⟨ihnone, ihsome⟩ := ih (token ++ [b])
        have hb : b ≠ quoteByte ∧ b ≠ backslashByte := by simpa [isStringStop] using hstop
        simp only [List.findIdx?_cons, hstop]
        constructor
        · intro hnone
          rw [if_neg Bool.false_ne_true, Option.map_eq_none_iff] at hnone
          simp [scanChunk, hb, ihnone hnone]
        · intro n hn
          rw [if_neg Bool.false_ne_true] at hn
          obtain ⟨n', hn', rfl⟩ := Option.map_eq_some_iff.mp hn
          simp [scanChunk, hb, ihsome n' hn']

/-- The jumps pass over bytes that change nothing. -/
theorem jumpChunk_eq (scan : Scan) (chunk : List UInt8) :
    jumpChunk scan chunk = scanChunk scan [] chunk := by
  fun_induction jumpChunk scan chunk with
  | case1 scan => cases scan <;> simp [scanChunk, yieldRun]
  | case2 b rest hnone => simp [(scanChunk_outside [] (b :: rest)).1 hnone, yieldRun]
  | case3 b rest n hn ps scan hrest ih =>
      rw [(scanChunk_outside [] (b :: rest)).2 n hn, ← ih, hrest, List.nil_append]
  | case4 b rest token ih => simp [scanChunk, ih]
  | case5 token b rest hnone => rw [(scanChunk_inside token (b :: rest)).1 hnone]
  | case6 token b rest n hn read hb ih =>
      rw [(scanChunk_inside token (b :: rest)).2 n hn, if_pos hb, ih]
  | case7 token b rest n hn read hb ps scan hrest ih =>
      rw [(scanChunk_inside token (b :: rest)).2 n hn, if_neg hb, ← ih, hrest]

theorem jumpPieces_eq (scan : Scan) (chunks : List (List UInt8)) :
    jumpPieces scan chunks = pieces scan chunks := by
  induction chunks generalizing scan with
  | nil => rfl
  | cons chunk chunks ih => simp only [jumpPieces, pieces, jumpChunk_eq, ih]

/-! ## Byte by byte -/

def stepByte : Scan → UInt8 → List Piece × Scan
  | .outside, b =>
    if b = quoteByte then ([], .inside [quoteByte] false) else ([.run [b]], .outside)
  | .inside token true, b => ([], .inside (token ++ [b]) false)
  | .inside token false, b =>
    if b = backslashByte then ([], .inside (token ++ [b]) true)
    else if b = quoteByte then ([.string (token ++ [b])], .outside)
    else ([], .inside (token ++ [b]) false)

def scanBytes : Scan → List UInt8 → List Piece × Scan
  | scan, [] => ([], scan)
  | scan, b :: rest =>
    ((stepByte scan b).1 ++ (scanBytes (stepByte scan b).2 rest).1,
      (scanBytes (stepByte scan b).2 rest).2)

/-- A run as runs of one byte. -/
def byteRuns (bytes : List UInt8) : List Piece := bytes.map fun b => .run [b]

def Piece.bytewise : Piece → List Piece
  | .string token => [.string token]
  | .run bytes => byteRuns bytes

def bytewise (ps : List Piece) : List Piece := ps.flatMap Piece.bytewise

@[simp] theorem bytewise_append (ps ps' : List Piece) :
    bytewise (ps ++ ps') = bytewise ps ++ bytewise ps' :=
  List.flatMap_append

theorem bytewise_yieldRun (run : List UInt8) : bytewise (yieldRun run) = byteRuns run := by
  cases run with
  | nil => rfl
  | cons b run => simp [yieldRun, bytewise, Piece.bytewise]

theorem scanBytes_append (scan : Scan) (bytes rest : List UInt8) :
    scanBytes scan (bytes ++ rest) =
      ((scanBytes scan bytes).1 ++ (scanBytes (scanBytes scan bytes).2 rest).1,
        (scanBytes (scanBytes scan bytes).2 rest).2) := by
  induction bytes generalizing scan with
  | nil => rfl
  | cons b bytes ih => simp [scanBytes, ih]

/-- The run a chunk has read so far, as the scan outside a string holds it. -/
def runBefore (run : List UInt8) : Scan → List Piece
  | .outside => byteRuns run
  | .inside .. => []

theorem scanChunk_bytewise (scan : Scan) (run bytes : List UInt8) :
    bytewise (scanChunk scan run bytes).1 = runBefore run scan ++ (scanBytes scan bytes).1 ∧
      (scanChunk scan run bytes).2 = (scanBytes scan bytes).2 := by
  fun_induction scanChunk scan run bytes with
  | case1 run => exact ⟨by simp [bytewise_yieldRun, runBefore, scanBytes], rfl⟩
  | case2 run rest pieces scan hscan ih =>
      rw [hscan] at ih
      simp only [runBefore, List.nil_append] at ih
      simp [scanBytes, stepByte, bytewise_yieldRun, ih, runBefore]
  | case3 run b rest hb ih =>
      simp [scanBytes, stepByte, hb, ih, runBefore, byteRuns]
  | case4 => exact ⟨rfl, rfl⟩
  | case5 run b rest token ih => simp [scanBytes, stepByte, ih, runBefore]
  | case6 run rest token ih => simp [scanBytes, stepByte, ih, runBefore]
  | case7 token run rest pieces scan hscan hb ih =>
      rw [hscan] at ih
      simp only [runBefore, byteRuns, List.map_nil, List.nil_append, bytewise] at ih
      simp [scanBytes, stepByte, bytewise, Piece.bytewise, ih, hb, runBefore]
  | case8 run b rest token hb hb' ih => simp [scanBytes, stepByte, hb, hb', ih, runBefore]

/-- The chunks do not matter. -/
theorem pieces_bytewise (scan : Scan) (chunks : List (List UInt8)) :
    bytewise (pieces scan chunks).1 = (scanBytes scan chunks.flatten).1 ∧
      (pieces scan chunks).2 = (scanBytes scan chunks.flatten).2 := by
  induction chunks generalizing scan with
  | nil => exact ⟨rfl, rfl⟩
  | cons chunk chunks ih =>
      obtain ⟨hpieces, hscan⟩ := scanChunk_bytewise scan [] chunk
      have hrun : runBefore [] scan = [] := by cases scan <;> rfl
      rw [hrun, List.nil_append] at hpieces
      obtain ⟨ih₁, ih₂⟩ := ih (scanChunk scan [] chunk).2
      rw [hscan] at ih₁ ih₂
      rw [List.flatten_cons, scanBytes_append]
      simp only [pieces, bytewise_append, hpieces, hscan, ih₁, ih₂, and_self]

/-! ## Tokens -/

/-- No quote. -/
def Plain (text : List Char) : Prop := doubleQuote ∉ text

instance (text : List Char) : Decidable (Plain text) := inferInstanceAs (Decidable (_ ∉ text))

theorem Plain.append {t t' : List Char} (h : Plain t) (h' : Plain t') : Plain (t ++ t') := by
  intro hc
  rcases List.mem_append.mp hc with hc | hc
  · exact h hc
  · exact h' hc

theorem scanBytes_run {bytes : List UInt8} (h : ∀ b ∈ bytes, b ≠ quoteByte) (rest : List UInt8) :
    scanBytes .outside (bytes ++ rest) =
      (byteRuns bytes ++ (scanBytes .outside rest).1, (scanBytes .outside rest).2) := by
  induction bytes with
  | nil => rfl
  | cons b bytes ih =>
      have hb : b ≠ quoteByte := h b (by simp)
      simp [scanBytes, stepByte, hb, ih fun b' hb' => h b' (by simp [hb']), byteRuns]

/-- The bytes of a text without a quote are runs. -/
theorem scanBytes_plain {text : List Char} (h : Plain text) (rest : List UInt8) :
    scanBytes .outside (encode text ++ rest) =
      (byteRuns (encode text) ++ (scanBytes .outside rest).1, (scanBytes .outside rest).2) := by
  refine scanBytes_run (fun b hb => ne_of_mem_encode hb (by decide) fun c hc heq => ?_) rest
  obtain rfl : c = doubleQuote := Char.toNat_inj.mp heq
  exact h hc

/-- Bytes that neither end nor escape a string. -/
theorem scanBytes_inside {bytes : List UInt8} (h : ∀ b ∈ bytes, b ≠ quoteByte ∧ b ≠ backslashByte)
    (token rest : List UInt8) :
    scanBytes (.inside token false) (bytes ++ rest) =
      scanBytes (.inside (token ++ bytes) false) rest := by
  induction bytes generalizing token with
  | nil => simp
  | cons b bytes ih =>
      obtain ⟨hquote, hescape⟩ := h b (by simp)
      rw [List.cons_append, scanBytes]
      simp [stepByte, hquote, hescape, ih fun b' hb' => h b' (by simp [hb'])]

theorem scanBytes_chars {text : List Char} (h : ∀ c ∈ text, c ≠ doubleQuote ∧ c ≠ backslash)
    (token rest : List UInt8) :
    scanBytes (.inside token false) (encode text ++ rest) =
      scanBytes (.inside (token ++ encode text) false) rest := by
  refine scanBytes_inside (fun b hb => ⟨?_, ?_⟩) token rest
  · exact ne_of_mem_encode hb (by decide) fun c hc heq => (h c hc).1 (Char.toNat_inj.mp heq)
  · exact ne_of_mem_encode hb (by decide) fun c hc heq => (h c hc).2 (Char.toNat_inj.mp heq)

/-- A backslash and the byte it escapes. -/
theorem scanBytes_escape {e : Char} (he : e.toNat < 0x80) (token rest : List UInt8) :
    scanBytes (.inside token false) (encode [backslash, e] ++ rest) =
      scanBytes (.inside (token ++ encode [backslash, e]) false) rest := by
  have hbytes : encode [backslash, e] = [backslashByte, UInt8.ofNat e.toNat] := by
    rw [encode_ascii (by decide), encode_ascii he]
    rfl
  rw [hbytes]
  simp [scanBytes, stepByte]

theorem hexDigit_plain {c : Char} {n : Nat} (h : hexDigit c = some n) :
    c ≠ doubleQuote ∧ c ≠ backslash := by
  constructor
  · rintro rfl
    cases h
  · rintro rfl
    cases h

theorem hexValue_plain {a b c d : Char} {n : Nat} (h : hexValue a b c d = some n) :
    ∀ x ∈ [a, b, c, d], x ≠ doubleQuote ∧ x ≠ backslash := by
  simp only [hexValue, Option.bind_eq_bind, Option.bind_eq_some_iff] at h
  obtain ⟨_, ha, _, hb, _, hc, _, hd, -⟩ := h
  intro x hx
  simp only [List.mem_cons, List.not_mem_nil, or_false] at hx
  rcases hx with rfl | rfl | rfl | rfl
  · exact hexDigit_plain ha
  · exact hexDigit_plain hb
  · exact hexDigit_plain hc
  · exact hexDigit_plain hd

theorem scanBytes_hex {a b c d : Char} {n : Nat} (h : hexValue a b c d = some n)
    (token rest : List UInt8) :
    scanBytes (.inside token false) (encode [backslash, 'u', a, b, c, d] ++ rest) =
      scanBytes (.inside (token ++ encode [backslash, 'u', a, b, c, d]) false) rest := by
  have htext : encode [backslash, 'u', a, b, c, d] =
      encode [backslash, 'u'] ++ encode [a, b, c, d] := encode_append [backslash, 'u'] _
  rw [htext, List.append_assoc, scanBytes_escape (by decide), scanBytes_chars (hexValue_plain h),
    List.append_assoc]

/-- A code point of a string stays inside it. -/
theorem scanBytes_point {n : Nat} {t : List Char} (h : WritesPoint n t) (token rest : List UInt8) :
    scanBytes (.inside token false) (encode t ++ rest) =
      scanBytes (.inside (token ++ encode t) false) rest := by
  cases h with
  | raw quote escape control =>
      refine scanBytes_chars (fun c hc => ?_) token rest
      obtain rfl := List.mem_singleton.mp hc
      exact ⟨quote, escape⟩
  | @short _ e h =>
      refine scanBytes_escape ?_ token rest
      unfold shortEscape at h
      split_ifs at h with hquote hescape
      · rw [hquote]; decide
      · rw [hescape]; decide
      · split at h <;> first | decide | cases h
  | hex h => exact scanBytes_hex h token rest
  | @pair high low a b c d a' b' c' d' h h' =>
      have htext : encode [backslash, 'u', a, b, c, d, backslash, 'u', a', b', c', d'] =
          encode [backslash, 'u', a, b, c, d] ++ encode [backslash, 'u', a', b', c', d'] :=
        encode_append [backslash, 'u', a, b, c, d] _
      rw [htext, List.append_assoc, scanBytes_hex h, scanBytes_hex h', List.append_assoc]

/-- A string of the grammar is one piece. -/
theorem scanBytes_string {s : List Nat} {token : List Char} (h : WritesString s token)
    (rest : List UInt8) :
    scanBytes .outside (encode token ++ rest) =
      (.string (encode token) :: (scanBytes .outside rest).1, (scanBytes .outside rest).2) := by
  obtain @⟨body, points⟩ := h
  have hbody : ∀ token rest, scanBytes (.inside token false) (encode body ++ rest) =
      scanBytes (.inside (token ++ encode body) false) rest := by
    induction points with
    | nil => intro token rest; simp
    | cons head tail ih =>
        intro token rest
        rw [encode_append, List.append_assoc, scanBytes_point head, ih, List.append_assoc]
  have hquote : encode [doubleQuote] = [quoteByte] := rfl
  have htoken : encode (doubleQuote :: (body ++ [doubleQuote])) =
      quoteByte :: (encode body ++ [quoteByte]) := by
    show encode ([doubleQuote] ++ (body ++ [doubleQuote])) = _
    rw [encode_append, encode_append, hquote]
    rfl
  have hne : quoteByte ≠ backslashByte := by decide
  rw [htoken, List.cons_append, scanBytes]
  simp only [stepByte, if_true, List.append_assoc, hbody]
  simp [scanBytes, stepByte, hne]

/-! ## Texts -/

/-- No string is left open. -/
def Closed (text : List Char) : Prop := (scanBytes .outside (encode text)).2 = .outside

theorem Closed.append {t t' : List Char} (h : Closed t) (h' : Closed t') : Closed (t ++ t') := by
  unfold Closed at *
  rw [encode_append, scanBytes_append, h, h']

theorem closed_plain {text : List Char} (h : Plain text) : Closed text := by
  have hscan := scanBytes_plain h []
  rw [List.append_nil] at hscan
  rw [Closed, hscan]
  rfl

theorem closed_string {s : List Nat} {token : List Char} (h : WritesString s token) :
    Closed token := by
  have hscan := scanBytes_string h []
  rw [List.append_nil] at hscan
  rw [Closed, hscan]
  rfl

theorem plain_blank {w : List Char} (h : Blank w) : Plain w := by
  intro hc
  have hquote := h doubleQuote hc
  revert hquote
  decide

theorem plain_numeral {lexeme : List Char} (h : IsNumeral lexeme) : Plain lexeme := by
  intro hc
  rcases h.chars doubleQuote hc with h | h <;> revert h <;> decide

theorem plain_nonFinite (c : NonFinite) : Plain c.text := by cases c <;> decide

/-- The strings of a text of the grammar are closed. -/
theorem closed_of_writes {s : Shape} {text : List Char} (h : Writes s text) : Closed text := by
  have hchar : ∀ c t, c ≠ doubleQuote → Closed t → Closed (c :: t) := fun c t hc ht =>
    (closed_plain (by simpa [Plain] using Ne.symm hc : Plain [c])).append ht
  induction h with
  | null | true | false => exact closed_plain (by decide)
  | num h => exact closed_plain (plain_numeral h)
  | nonFinite c => exact closed_plain (plain_nonFinite c)
  | str h => exact closed_string h
  | arr h ih => exact hchar _ _ (by decide) (ih.append (hchar _ _ (by decide) rfl))
  | obj h ih => exact hchar _ _ (by decide) (ih.append (hchar _ _ (by decide) rfl))
  | noElement blank => exact closed_plain (plain_blank blank)
  | lastElement blank h blank' ih =>
      exact (closed_plain (plain_blank blank)).append (ih.append (closed_plain (plain_blank blank')))
  | nextElement blank h blank' more ih ih' =>
      exact (closed_plain (plain_blank blank)).append
        (ih.append ((closed_plain (plain_blank blank')).append (hchar _ _ (by decide) ih')))
  | noMember blank => exact closed_plain (plain_blank blank)
  | lastMember blank name blank₁ blank₂ h blank' ih =>
      exact (closed_plain (plain_blank blank)).append ((closed_string name).append
        ((closed_plain (plain_blank blank₁)).append (hchar _ _ (by decide)
          ((closed_plain (plain_blank blank₂)).append
            (ih.append (closed_plain (plain_blank blank')))))))
  | nextMember blank name blank₁ blank₂ h blank' more ih ih' =>
      exact (closed_plain (plain_blank blank)).append ((closed_string name).append
        ((closed_plain (plain_blank blank₁)).append (hchar _ _ (by decide)
          ((closed_plain (plain_blank blank₂)).append (ih.append
            ((closed_plain (plain_blank blank')).append (hchar _ _ (by decide) ih')))))))

theorem closed_of_document {v : Json} {text : List Char} (h : Document v text) : Closed text := by
  cases h with
  | mk blank h blank' =>
      exact (closed_plain (plain_blank blank)).append
        ((closed_of_writes h).append (closed_plain (plain_blank blank')))

end SimulationKey
