import SimulationKey.Api.UploadShape

/-!
# The upload's row count against the parser's rows

`measure` counts line feeds, the parser ends a record at a carriage return of its
own, too. Every line feed ends a record or is kept in quotes, so the count is at
least the parser's rows exactly when the records ended by a lone carriage return
are made up for (`row_count_iff`): by line feeds of blank lines or in quotes.
Without such records it always is (`covered_of_no_loneReturns`).
-/

namespace SimulationKey.Theorems.RowCount

open Kit Kit.Csv Kit.Text

section Counting

variable (parser : CsvParser)

/-- What `measure` looks at. -/
def body (content : List UInt8) : List UInt8 := content.dropWhile isLineEnd

/-- The data records with a given ending. -/
def dataEnded (content : List UInt8) (ending : Ending) : Nat :=
  (records parser.quoting (body content)).countP fun r => parser.isData r && r.ending = ending

/-- The blank records a line feed ends. -/
def blankLines (content : List UInt8) : Nat :=
  (records parser.quoting (body content)).countP fun r => !parser.isData r && r.fed

/-- The line feeds inside quotes. -/
def quotedFeeds (content : List UInt8) : Nat :=
  ((records parser.quoting (body content)).map Record.kept).sum

/-- 1 for a file that does not end in a line feed. -/
def openEnd (content : List UInt8) : Nat :=
  if (body content).getLast? = some lineFeed then 0 else 1

/-- The data records without a line feed at their end are no more than the line
feeds that end none and the open end. -/
def Covered (content : List UInt8) : Prop :=
  dataEnded parser content .carriageReturn + dataEnded parser content .none ≤
    blankLines parser content + quotedFeeds parser content + openEnd content

instance (content : List UInt8) : Decidable (Covered parser content) := Nat.decLe _ _

variable {parser}

/-- Records by what they are and how they end. -/
theorem countP_isData (parser : CsvParser) (rs : List Record) :
    rs.countP parser.isData + rs.countP (fun r => !parser.isData r && r.fed) =
      rs.countP Record.fed + rs.countP (fun r => parser.isData r && r.ending = .carriageReturn) +
        rs.countP (fun r => parser.isData r && r.ending = .none) := by
  induction rs with
  | nil => rfl
  | cons r rs ih =>
      simp only [List.countP_cons]
      cases hdata : parser.isData r <;> cases hend : r.ending <;>
        simp [Record.fed, hend] at ih ⊢ <;> omega

theorem isData_of_content {r : Record} (h : r.content = []) : parser.isData r = false := by
  rw [CsvParser.isData, h, parser.blank_nil, Bool.not_true]

/-- The parser's rows, counted on what `measure` looks at. -/
theorem rows_eq {content : List UInt8} {n : Nat} (h : parser.rows content = some n) :
    (records parser.quoting (body content)).countP parser.isData = n + 1 := by
  have hbody : parser.dataRecords content =
      (records parser.quoting (body content)).filter parser.isData :=
    (filter_records_dropWhile _ _ fun _ => isData_of_content).symm
  rw [CsvParser.rows] at h
  split_ifs at h with haccepts
  have hsome : parser.dataRecords content ≠ [] := by
    intro hnil
    rw [hnil, parser.accepts_nil] at haccepts
    cases haccepts
  have hpos := List.length_pos_iff.mpr hsome
  have hlength := Option.some.inj h
  rw [List.countP_eq_length_filter, ← hbody]
  omega

/-- The rows `measure` counts. -/
theorem measureCsv_eq {content : List UInt8} {columns dataRows : Nat}
    (h : measureCsv content = some (columns, dataRows)) :
    (body content).count lineFeed + openEnd content = dataRows + 1 := by
  have hpos : 1 ≤ (body content).count lineFeed + openEnd content := by
    rw [openEnd]
    split_ifs with hlast
    · exact (List.count_pos_iff.mpr (List.mem_of_getLast? hlast)).trans_le (Nat.le_add_right _ _)
    · exact Nat.le_add_left _ _
  simp only [measureCsv] at h
  by_cases hempty : (content.dropWhile isLineEnd).isEmpty
  · rw [if_pos hempty] at h
    cases h
  rw [if_neg hempty] at h
  cases hline : readCsvLine ((decodeReplace (firstLine (content.dropWhile isLineEnd))).rdropWhile
      (· = Char.ofNat 13)) with
  | error e =>
      rw [hline] at h
      cases h
  | ok fields =>
      rw [hline] at h
      have hrows : (body content).count lineFeed + openEnd content - 1 = dataRows :=
        congrArg Prod.snd (Option.some.inj h)
      omega

/-- The count is at least the parser's rows exactly when the records that end in
a lone carriage return are made up for. -/
theorem row_count_iff (parser : CsvParser) (measureXlsx : List UInt8 → Option (Nat × Nat))
    {content : List UInt8} {fileName : String} (hext : extensionOf fileName = "csv")
    {columns dataRows n : Nat}
    (hmeasure : measure measureXlsx content fileName = some (columns, dataRows))
    (hrows : parser.rows content = some n) :
    n ≤ dataRows ↔ Covered parser content := by
  have hcsv : measureCsv content = some (columns, dataRows) := by
    rw [measure, if_pos hext] at hmeasure
    exact hmeasure
  have hcount := measureCsv_eq hcsv
  have hdata := rows_eq hrows
  have hfeeds := lineFeeds_records parser.quoting (body content)
  have hsplit := countP_isData parser (records parser.quoting (body content))
  rw [Covered, dataEnded, dataEnded, blankLines, quotedFeeds]
  omega

theorem dataEnded_none_le (content : List UInt8) : dataEnded parser content .none ≤ 1 := by
  have hmono : dataEnded parser content .none ≤
      (records parser.quoting (body content)).countP (·.ending = .none) :=
    List.countP_mono_left fun r _ hr => (Bool.and_eq_true_iff.mp hr).2
  exact hmono.trans (countP_unended_recordsFrom parser.quoting _ _ _)

/-- Without records that end in a lone carriage return, the count is never short. -/
theorem covered_of_no_loneReturns (content : List UInt8)
    (h : dataEnded parser content .carriageReturn = 0) : Covered parser content := by
  rw [Covered, h, Nat.zero_add]
  have hone : dataEnded parser content .none ≤ 1 := dataEnded_none_le content
  by_cases hlast : (body content).getLast? = some lineFeed
  · -- the open record, if there is one, ends in a line feed that is in quotes
    rcases Nat.eq_zero_or_pos (dataEnded parser content .none) with hzero | hpos
    · omega
    · obtain ⟨r, hr, hdata⟩ := List.countP_pos_iff.mp hpos
      have hnone : r.ending = .none := of_decide_eq_true (Bool.and_eq_true_iff.mp hdata).2
      obtain ⟨-, hend⟩ := unended_of_recordsFrom parser.quoting _ _ _ hr hnone
      rw [List.nil_append, hlast] at hend
      have hkept : 1 ≤ r.kept := List.count_pos_iff.mpr (List.mem_of_getLast? hend.symm)
      have hsum : r.kept ≤ quotedFeeds parser content :=
        List.single_le_sum (by simp) _ (List.mem_map_of_mem hr)
      omega
  · have hopen : openEnd content = 1 := if_neg hlast
    omega

end Counting

section Example

/-- Quotes as files usually have them: opened at the start of a field, doubled to
be part of it. -/
inductive QuoteState where
  | startField
  | inField
  | inQuotedField
  | quoteInQuotedField
  deriving DecidableEq, Repr

def nextQuote (state : QuoteState) (b : UInt8) : QuoteState :=
  let plain := if b = 44 then .startField else .inField
  match state with
  | .startField => if b = 34 then .inQuotedField else plain
  | .inField => plain
  | .inQuotedField => if b = 34 then .quoteInQuotedField else .inQuotedField
  | .quoteInQuotedField => if b = 34 then .inQuotedField else plain

/-- A parser that takes any table. -/
def usualParser : CsvParser where
  quoting :=
    { State := QuoteState
      init := .startField
      next := nextQuote
      inside := (· = .inQuotedField)
      init_outside := rfl }
  blank content := content.isEmpty
  blank_nil := rfl
  accepts kept := !kept.isEmpty
  accepts_nil := rfl

/-- A record that ends in a lone carriage return, after a quoted line feed. -/
def mixedEnds : List UInt8 := "a,b\n1,\"x\ny\"\r3,4\n".toUTF8.toList

theorem row_count_mixedEnds :
    usualParser.rows mixedEnds = some 2 ∧ Covered usualParser mixedEnds := by
  have hrows : usualParser.rows mixedEnds = some 2 := by decide +kernel
  have hmeasure : measure (fun _ => none) mixedEnds "data.csv" = some (2, 2) := by decide +kernel
  exact ⟨hrows, (row_count_iff usualParser _ (by decide +kernel) hmeasure hrows).mp le_rfl⟩

/-- Lone carriage returns after a first line that ends in a line feed. -/
def loneReturns : List UInt8 := "a,b\n1,2\r3,4\r5,6".toUTF8.toList

/-- One row is counted, three are parsed. -/
theorem loneReturns_undercounted :
    measure (fun _ => none) loneReturns "data.csv" = some (2, 1) ∧
      usualParser.rows loneReturns = some 3 ∧ ¬ 3 ≤ 1 :=
  ⟨by decide +kernel, by decide +kernel, by decide⟩

end Example

end SimulationKey.Theorems.RowCount
