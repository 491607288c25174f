import SimulationKey.Api.Pieces
import SimulationKey.Kit.Quoted

/-!
# The strings of a document

Whatever its chunks, `_pieces` yields the strings of the document, in order, and
between them what is left.

A reader that has passed `n` bytes stands outside every string or inside one
(`Stands`). One byte further it still does, and what it has yielded are the strings
passed and the bytes before the one it stands in (`Read.step`). The chunks change
where runs are cut and nothing else (`merged_bytewise`).
-/

namespace SimulationKey.Theorems.Lexer

open Kit.Quoted

/-! ## What pieces hold -/

/-- The string tokens among pieces. -/
def strings (ps : List Piece) : List (List UInt8) :=
  ps.filterMap fun
    | .string token => some token
    | .run _ => none

/-- The bytes of a piece. -/
def bytesOf : Piece → List UInt8
  | .string token => token
  | .run bytes => bytes

def contents (ps : List Piece) : List UInt8 := ps.flatMap bytesOf

/-- A run in front, joined with the one it meets. -/
def joinRun (bytes : List UInt8) : List Piece → List Piece
  | .run bytes' :: ps => .run (bytes ++ bytes') :: ps
  | ps => .run bytes :: ps

/-- Adjacent runs merged. -/
def merged : List Piece → List Piece
  | [] => []
  | .string token :: ps => .string token :: merged ps
  | .run bytes :: ps => joinRun bytes (merged ps)

theorem strings_append (ps ps' : List Piece) : strings (ps ++ ps') = strings ps ++ strings ps' :=
  List.filterMap_append

theorem contents_append (ps ps' : List Piece) :
    contents (ps ++ ps') = contents ps ++ contents ps' :=
  List.flatMap_append

/-! ## Runs cut into bytes -/

theorem strings_byteRuns (bytes : List UInt8) : strings (byteRuns bytes) = [] := by
  simp [strings, byteRuns]

theorem contents_byteRuns (bytes : List UInt8) : contents (byteRuns bytes) = bytes := by
  simp [contents, byteRuns, bytesOf, List.flatMap_map]

theorem strings_bytewise (ps : List Piece) : strings (bytewise ps) = strings ps := by
  induction ps with
  | nil => rfl
  | cons piece ps ih =>
      rw [bytewise, List.flatMap_cons, strings_append]
      cases piece with
      | string token => exact congrArg (token :: ·) ih
      | run bytes =>
          show strings (byteRuns bytes) ++ strings (bytewise ps) = strings ps
          rw [strings_byteRuns, ih, List.nil_append]

theorem contents_bytewise (ps : List Piece) : contents (bytewise ps) = contents ps := by
  induction ps with
  | nil => rfl
  | cons piece ps ih =>
      rw [bytewise, List.flatMap_cons, contents_append]
      cases piece with
      | string token =>
          show contents [.string token] ++ contents (bytewise ps) = token ++ contents ps
          rw [ih]
          simp [contents, bytesOf]
      | run bytes =>
          show contents (byteRuns bytes) ++ contents (bytewise ps) = bytes ++ contents ps
          rw [contents_byteRuns, ih]

theorem mem_bytewise {ps : List Piece} {bytes : List UInt8} (h : .run bytes ∈ ps) {b : UInt8}
    (hb : b ∈ bytes) : .run [b] ∈ bytewise ps :=
  List.mem_flatMap.mpr ⟨.run bytes, h, List.mem_map.mpr ⟨b, hb, rfl⟩⟩

/-! ## Merging -/

theorem joinRun_joinRun (bytes bytes' : List UInt8) (ps : List Piece) :
    joinRun bytes (joinRun bytes' ps) = joinRun (bytes ++ bytes') ps := by
  cases ps with
  | nil => rfl
  | cons piece ps => cases piece <;> simp [joinRun]

theorem merged_byteRuns (b : UInt8) (bytes : List UInt8) (ps : List Piece) :
    merged (byteRuns (b :: bytes) ++ ps) = joinRun (b :: bytes) (merged ps) := by
  induction bytes generalizing b with
  | nil => rfl
  | cons b' bytes ih =>
      show joinRun [b] (merged (byteRuns (b' :: bytes) ++ ps)) = _
      rw [ih, joinRun_joinRun]
      rfl

/-- Cutting runs into bytes is undone by merging. -/
theorem merged_bytewise {ps : List Piece} (h : .run [] ∉ ps) : merged (bytewise ps) = merged ps := by
  induction ps with
  | nil => rfl
  | cons piece ps ih =>
      have hrest := ih fun hmem => h (List.mem_cons_of_mem _ hmem)
      cases piece with
      | string token =>
          show .string token :: merged (bytewise ps) = .string token :: merged ps
          rw [hrest]
      | run bytes =>
          cases bytes with
          | nil => exact absurd (List.mem_cons_self ..) h
          | cons b bytes =>
              show merged (byteRuns (b :: bytes) ++ bytewise ps) = joinRun (b :: bytes) (merged ps)
              rw [merged_byteRuns, hrest]

theorem yieldRun_ne_nil (run : List UInt8) : .run [] ∉ yieldRun run := by
  cases run <;> simp [yieldRun]

theorem scanChunk_ne_nil (scan : Scan) (run chunk : List UInt8) :
    .run [] ∉ (scanChunk scan run chunk).1 := by
  fun_induction scanChunk scan run chunk with
  | case1 run => exact yieldRun_ne_nil run
  | case2 run rest pieces scan hscan ih =>
      rw [hscan] at ih
      simp only [List.mem_append, not_or]
      exact ⟨yieldRun_ne_nil run, ih⟩
  | case3 run b rest hb ih => exact ih
  | case4 => exact List.not_mem_nil
  | case5 run b rest token ih => exact ih
  | case6 run rest token ih => exact ih
  | case7 token run rest pieces scan hscan hb ih =>
      rw [hscan] at ih
      simpa using ih
  | case8 run b rest token hb hb' ih => exact ih

theorem pieces_ne_nil (scan : Scan) (chunks : List (List UInt8)) :
    .run [] ∉ (pieces scan chunks).1 := by
  induction chunks generalizing scan with
  | nil => exact List.not_mem_nil
  | cons chunk chunks ih =>
      simp only [pieces, List.mem_append, not_or]
      exact ⟨scanChunk_ne_nil scan [] chunk, ih _⟩

/-! ## A reader -/

def jsonMarks : Marks UInt8 := ⟨quoteByte, backslashByte, by decide⟩

variable {doc : List UInt8} {n : Nat} {scan : Scan} {ps : List Piece}

/-- Where a reader of `n` bytes stands, having yielded `ps`. -/
def Stands (doc : List UInt8) (n : Nat) (ps : List Piece) : Scan → Prop
  | .outside => Outside jsonMarks doc n ∧ contents ps = doc.take n
  | .inside token escaped => ∃ i, Open jsonMarks doc i n ∧ contents ps = doc.take i ∧
    token = between doc i n ∧ (escaped = true ↔ Escaping jsonMarks (between doc (i + 1) n))

structure Read (doc : List UInt8) (n : Nat) (scan : Scan) (ps : List Piece) : Prop where
  stands : Stands doc n ps scan
  strings : ∃ spans, Spans jsonMarks doc n spans ∧
    strings ps = spans.map fun x => between doc x.1 (x.2 + 1)
  runs : ∀ bytes, .run bytes ∈ ps → quoteByte ∉ bytes

theorem read_nil (doc : List UInt8) : Read doc 0 .outside [] :=
  ⟨⟨.start, rfl⟩, ⟨[], spans_nil, rfl⟩, fun _ h => absurd h List.not_mem_nil⟩

/-- A byte that ends no string and yields no string. -/
theorem Read.quiet (h : Read doc n scan ps) {ps' : List Piece} {scan' : Scan}
    (hnone : ∀ i, ¬ Token jsonMarks doc i n) (hstrings : Lexer.strings ps' = [])
    (hruns : ∀ bytes, .run bytes ∈ ps' → quoteByte ∉ bytes)
    (hstands : Stands doc (n + 1) (ps ++ ps') scan') : Read doc (n + 1) scan' (ps ++ ps') := by
  obtain ⟨spans, hspans, heq⟩ := h.strings
  refine ⟨hstands, ⟨spans, hspans.next hnone, ?_⟩, fun bytes hmem => ?_⟩
  · rw [strings_append, hstrings, List.append_nil, heq]
  · rcases List.mem_append.mp hmem with hmem | hmem
    · exact h.runs bytes hmem
    · exact hruns bytes hmem

/-- A byte of a string that does not end it. -/
theorem Read.inside {i : Nat} {token : List UInt8} {escaped : Bool} {b : UInt8}
    (h : Read doc n scan ps) (hopen : Open jsonMarks doc i n) (hcontents : contents ps = doc.take i)
    (htoken : token = between doc i n) (hb : doc[n]? = some b)
    (hends : b = quoteByte → Escaping jsonMarks (between doc (i + 1) n))
    (hescaped : escaped = true ↔ b = backslashByte ∧ ¬ Escaping jsonMarks (between doc (i + 1) n)) :
    Read doc (n + 1) (.inside (token ++ [b]) escaped) (ps ++ []) := by
  have hquote : doc[n]? = some jsonMarks.quote → Escaping jsonMarks (between doc (i + 1) n) := by
    intro hn
    exact hends (Option.some.inj (hb.symm.trans hn))
  refine h.quiet (fun k hk => ?_) rfl (fun _ hmem => absurd hmem List.not_mem_nil) ?_
  · obtain rfl := hopen.start_eq hk
    exact hk.closes.free (hquote hk.closes.quote)
  · have hbefore := hopen.before
    refine ⟨i, hopen.next hquote, by rw [List.append_nil, hcontents], ?_, ?_⟩
    · rw [htoken, between_succ (by omega) hb]
    · rw [between_succ (by omega) hb, escaping_append]
      exact hescaped

/-- One byte further. -/
theorem Read.step (h : Read doc n scan ps) {b : UInt8} (hb : doc[n]? = some b) :
    Read doc (n + 1) (stepByte scan b).2 (ps ++ (stepByte scan b).1) := by
  have htake : doc.take (n + 1) = doc.take n ++ [b] := by
    rw [List.take_add_one, hb, Option.toList_some]
  cases scan with
  | outside =>
      obtain ⟨houtside, hcontents⟩ := h.stands
      by_cases hquote : b = quoteByte
      · -- a string starts
        subst hquote
        simp only [stepByte, if_true]
        refine h.quiet (fun i => houtside.not_token) rfl
          (fun _ hmem => absurd hmem List.not_mem_nil) ?_
        refine ⟨n, open_of_outside houtside hb, by rw [List.append_nil, hcontents], ?_, ?_⟩
        · rw [between_succ le_rfl hb, between_self, List.nil_append]
        · simp [not_escaping_nil]
      · simp only [stepByte, hquote, if_false]
        refine h.quiet (fun i => houtside.not_token) rfl (fun bytes hmem => ?_) ⟨?_, ?_⟩
        · obtain rfl : bytes = [b] := by simpa using hmem
          simpa using Ne.symm hquote
        · exact houtside.next hb hquote
        · rw [contents_append, hcontents, htake]
          rfl
  | inside token escaped =>
      obtain ⟨i, hopen, hcontents, htoken, hescaped⟩ := h.stands
      cases escaped with
      | true =>
          have hescaping := hescaped.mp rfl
          exact h.inside hopen hcontents htoken hb (fun _ => hescaping) (by simp [hescaping])
      | false =>
          have hfree : ¬ Escaping jsonMarks (between doc (i + 1) n) := by simpa using hescaped
          by_cases hescape : b = backslashByte
          · simp only [stepByte, hescape, if_true]
            subst hescape
            exact h.inside hopen hcontents htoken hb (fun heq => absurd heq (by decide))
              (by simp [hfree])
          · by_cases hquote : b = quoteByte
            · -- the string ends
              subst hquote
              simp only [stepByte, hescape, if_true, if_false]
              have hclosed := hopen.close hb hfree
              have hbefore := hopen.before
              have htext : between doc i (n + 1) = token ++ [quoteByte] := by
                rw [htoken, between_succ (by omega) hb]
              obtain ⟨spans, hspans, heq⟩ := h.strings
              refine ⟨⟨.closed hopen.outside hopen.opens hclosed.closes, ?_⟩,
                ⟨spans ++ [(i, n)], hspans.close hclosed, ?_⟩, fun bytes hmem => ?_⟩
              · rw [contents_append, hcontents]
                show doc.take i ++ contents [.string (token ++ [quoteByte])] = _
                rw [← htext]
                simp only [contents, List.flatMap_cons, List.flatMap_nil, List.append_nil, bytesOf]
                exact take_append_between doc (by omega)
              · rw [strings_append, heq, List.map_append, List.map_singleton, htext]
                rfl
              · rcases List.mem_append.mp hmem with hmem | hmem
                · exact h.runs bytes hmem
                · simp at hmem
            · simp only [stepByte, hescape, hquote, if_false]
              exact h.inside hopen hcontents htoken hb (fun heq => absurd heq hquote)
                (by simp [hescape])

/-- To the end of the document. -/
theorem Read.run (h : Read doc n scan ps) (hn : n ≤ doc.length) {rest : List UInt8}
    (hrest : doc.drop n = rest) :
    Read doc doc.length (scanBytes scan rest).2 (ps ++ (scanBytes scan rest).1) := by
  induction rest generalizing n scan ps with
  | nil =>
      obtain rfl : n = doc.length := le_antisymm hn (List.drop_eq_nil_iff.mp hrest)
      rw [scanBytes, List.append_nil]
      exact h
  | cons b rest ih =>
      have hlt : n < doc.length := by
        by_contra hle
        rw [List.drop_eq_nil_of_le (by omega)] at hrest
        cases hrest
      have hcons := List.drop_eq_getElem_cons hlt
      rw [hrest, List.cons.injEq] at hcons
      have hb : doc[n]? = some b := by rw [hcons.1, List.getElem?_eq_getElem hlt]
      rw [scanBytes, ← List.append_assoc]
      exact ih (h.step hb) hlt hcons.2.symm

/-! ## Documents -/

/-- The pieces of a document are read byte by byte, whatever its chunks. -/
theorem read_pieces (chunks : List (List UInt8)) :
    Read chunks.flatten chunks.flatten.length (pieces .outside chunks).2
      (bytewise (pieces .outside chunks).1) := by
  have hrun := (read_nil chunks.flatten).run (Nat.zero_le _) rfl
  obtain ⟨hpieces, hscan⟩ := pieces_bytewise .outside chunks
  rw [hpieces, hscan]
  exact hrun

theorem splitPieces_fst (chunks : List (List UInt8)) :
    (splitPieces chunks).1 = (pieces .outside chunks).1 := by
  rw [splitPieces, jumpPieces_eq]
  obtain ⟨ps, scan⟩ := pieces .outside chunks
  cases scan <;> rfl

theorem splitPieces_snd (chunks : List (List UInt8)) :
    (splitPieces chunks).2 = none ↔ (pieces .outside chunks).2 = .outside := by
  rw [splitPieces, jumpPieces_eq]
  obtain ⟨ps, scan⟩ := pieces .outside chunks
  cases scan <;> simp

theorem splitPieces_error (chunks : List (List UInt8)) :
    (splitPieces chunks).2 = none ∨ (splitPieces chunks).2 = some .endsInsideString := by
  rw [splitPieces, jumpPieces_eq]
  obtain ⟨ps, scan⟩ := pieces .outside chunks
  cases scan
  · exact .inl rfl
  · exact .inr rfl

/-- Where the document ends: outside every string, or inside the one left open. -/
theorem ends (chunks : List (List UInt8)) :
    ((splitPieces chunks).2 = none ∧ (∀ i, ¬ Unclosed jsonMarks chunks.flatten i) ∧
      contents (splitPieces chunks).1 = chunks.flatten) ∨
    (splitPieces chunks).2 = some .endsInsideString ∧ ∃ i, Unclosed jsonMarks chunks.flatten i ∧
      contents (splitPieces chunks).1 = chunks.flatten.take i := by
  have hstands := (read_pieces chunks).stands
  have hnone := splitPieces_snd chunks
  rw [contents, splitPieces_fst, ← contents, ← contents_bytewise]
  cases hscan : (pieces .outside chunks).2 with
  | outside =>
      rw [hscan] at hstands hnone
      obtain ⟨houtside, hcontents⟩ := hstands
      refine .inl ⟨hnone.mpr rfl, fun i => houtside.not_unclosed, ?_⟩
      rw [hcontents, List.take_length]
  | inside token escaped =>
      rw [hscan] at hstands hnone
      obtain ⟨i, hopen, hcontents, -, -⟩ := hstands
      refine .inr ⟨?_, i, hopen.unclosed, hcontents⟩
      rcases splitPieces_error chunks with hno | herror
      · cases hnone.mp hno
      · exact herror

/-- `_pieces` of any document in any chunks: its strings are the document's, its
runs have no quote, merged it is the same whatever the chunks, and it fails at the
end exactly when a string is left open, having yielded all before that string. -/
theorem pieces_lex (chunks : List (List UInt8)) :
    (∃ spans : List (Nat × Nat), spans.Pairwise (fun a b => a.2 < b.1) ∧
      (∀ i j, (i, j) ∈ spans ↔ Token jsonMarks chunks.flatten i j) ∧
      strings (splitPieces chunks).1 =
        spans.map fun x => between chunks.flatten x.1 (x.2 + 1)) ∧
    (∀ bytes, .run bytes ∈ (splitPieces chunks).1 → quoteByte ∉ bytes) ∧
    (∀ chunks', chunks'.flatten = chunks.flatten →
      merged (splitPieces chunks').1 = merged (splitPieces chunks).1) ∧
    ((splitPieces chunks).2 = some .endsInsideString ↔
      ∃ i, Unclosed jsonMarks chunks.flatten i) ∧
    ((splitPieces chunks).2 = none → contents (splitPieces chunks).1 = chunks.flatten) ∧
    ∀ i, Unclosed jsonMarks chunks.flatten i →
      contents (splitPieces chunks).1 = chunks.flatten.take i := by
  have hread := read_pieces chunks
  have hmerged : ∀ chunks', merged (splitPieces chunks').1 =
      merged (scanBytes .outside chunks'.flatten).1 := by
    intro chunks'
    rw [splitPieces_fst, ← merged_bytewise (pieces_ne_nil _ _), (pieces_bytewise _ _).1]
  refine ⟨?_, fun bytes hmem hquote => ?_, fun chunks' hchunks => ?_, ?_, ?_, ?_⟩
  · obtain ⟨spans, hspans, hstrings⟩ := hread.strings
    refine ⟨spans, hspans.sorted, hspans.mem_all, ?_⟩
    rw [splitPieces_fst, ← strings_bytewise]
    exact hstrings
  · -- a quote in a run is a run of its own, byte by byte
    rw [splitPieces_fst] at hmem
    exact hread.runs _ (mem_bytewise hmem hquote) (List.mem_singleton.mpr rfl)
  · rw [hmerged, hmerged, hchunks]
  · rcases ends chunks with ⟨hnone, hclosed, -⟩ | ⟨herror, i, hopen, -⟩
    · rw [hnone]
      constructor
      · intro h
        cases h
      · rintro ⟨i, hi⟩
        exact absurd hi (hclosed i)
    · exact ⟨fun _ => ⟨i, hopen⟩, fun _ => herror⟩
  · intro hnone
    rcases ends chunks with ⟨-, -, hcontents⟩ | ⟨herror, -⟩
    · exact hcontents
    · rw [hnone] at herror
      cases herror
  · intro i hi
    rcases ends chunks with ⟨-, hclosed, -⟩ | ⟨-, k, hopen, hcontents⟩
    · exact absurd hi (hclosed i)
    · rw [hi.unique hopen]
      exact hcontents

end SimulationKey.Theorems.Lexer
