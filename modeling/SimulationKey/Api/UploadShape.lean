import SimulationKey.Kit.Csv
import SimulationKey.Kit.Text

/-!
# `api/simulation/upload_shape.py`

An upload's columns and data rows, counted without parsing it: of a CSV file the
fields of its first line, and one data row for each line after it. What is raised
on the way is "could not tell" (`none`). The spreadsheet count is a parameter.
-/

namespace SimulationKey

open Kit Kit.Csv Kit.Text

/-! ## `csv.reader` -/

inductive CsvState where
  | startRecord
  | startField
  | inField
  | inQuotedField
  | quoteInQuotedField
  | eatCrnl
  deriving DecidableEq, Repr

inductive CsvError where
  | fieldLimit
  | newLineInField
  deriving DecidableEq, Repr

structure CsvReader where
  state : CsvState
  field : List Char
  fields : List (List Char)
  deriving DecidableEq, Repr

/-- `csv.field_size_limit()`. -/
def fieldSizeLimit : Nat := 131072

namespace CsvReader

def addChar (r : CsvReader) (c : Char) (state : CsvState) : Except CsvError CsvReader :=
  if fieldSizeLimit ≤ r.field.length then .error .fieldLimit
  else .ok { r with field := r.field ++ [c], state := state }

def saveField (r : CsvReader) (state : CsvState) : CsvReader :=
  { state := state, field := [], fields := r.fields ++ [r.field] }

def isNewLine (c : Char) : Bool := c = Char.ofNat 10 ∨ c = Char.ofNat 13

/-- A character outside quotes that opens none. -/
def plainChar (r : CsvReader) (c : Char) : Except CsvError CsvReader :=
  if isNewLine c then .ok (r.saveField .eatCrnl)
  else if c = ',' then .ok (r.saveField .startField)
  else r.addChar c .inField

/-- `parse_process_char` under the default dialect. -/
def processChar (r : CsvReader) (c : Char) : Except CsvError CsvReader :=
  match r.state with
  | .startRecord | .startField =>
    if r.state = .startRecord ∧ isNewLine c then .ok { r with state := .eatCrnl }
    else if c = doubleQuote then .ok { r with state := .inQuotedField }
    else r.plainChar c
  | .inField => r.plainChar c
  | .inQuotedField =>
    if c = doubleQuote then .ok { r with state := .quoteInQuotedField }
    else r.addChar c .inQuotedField
  | .quoteInQuotedField =>
    if c = doubleQuote then r.addChar c .inQuotedField else r.plainChar c
  | .eatCrnl => if isNewLine c then .ok r else .error .newLineInField

/-- The end of the only line; open quotes end with it. -/
def finish (r : CsvReader) : List (List Char) :=
  match r.state with
  | .startRecord | .eatCrnl => r.fields
  | .startField | .inField | .inQuotedField | .quoteInQuotedField =>
    (r.saveField .startRecord).fields

end CsvReader

/-- `next(csv.reader([line]))`. -/
def readCsvLine (line : List Char) : Except CsvError (List (List Char)) := do
  let r ← line.foldlM CsvReader.processChar ⟨.startRecord, [], []⟩
  return r.finish

example : readCsvLine "\"a, quoted\",b,".toList = .ok ["a, quoted".toList, ['b'], []] := by
  decide +kernel

/-! ## Measuring -/

/-- Everything up to the first line feed. -/
def firstLine (content : List UInt8) : List UInt8 := content.takeWhile (· ≠ lineFeed)

/-- `_measure_csv`. -/
def measureCsv (content : List UInt8) : Option (Nat × Nat) :=
  let content := content.dropWhile isLineEnd
  if content.isEmpty then none
  else
    let header := (decodeReplace (firstLine content)).rdropWhile (· = Char.ofNat 13)
    match readCsvLine header with
    | .error _ => none
    | .ok fields =>
      let lines := content.count lineFeed + if content.getLast? = some lineFeed then 0 else 1
      some (fields.length, lines - 1)

/-- `file_name.rsplit(".", 1)[-1].lower()`. -/
def extensionOf (fileName : String) : String :=
  String.ofList (((fileName.toList.reverse.takeWhile (· ≠ '.')).reverse).map Char.toLower)

/-- `measure`; `measureXlsx` reads a spreadsheet's dimension record. -/
def measure (measureXlsx : List UInt8 → Option (Nat × Nat)) (content : List UInt8)
    (fileName : String) : Option (Nat × Nat) :=
  let extension := extensionOf fileName
  if extension = "csv" then measureCsv content
  else if extension ∈ ["xlsx", "xls"] then measureXlsx content
  else none

/-! ## The worker's parser -/

/-- How `pandas.read_csv` reads a file's records: which bytes are inside quotes,
which records are blank, and which remaining ones it makes a table of. The first
of these is the header. -/
structure CsvParser where
  quoting : Quoting
  blank : List UInt8 → Bool
  blank_nil : blank [] = true
  accepts : List Record → Bool
  accepts_nil : accepts [] = false

namespace CsvParser

variable (parser : CsvParser)

def isData (r : Record) : Bool := !parser.blank r.content

/-- The records that are not blank. -/
def dataRecords (content : List UInt8) : List Record :=
  (records parser.quoting content).filter parser.isData

/-- The number of data rows of a file the parser accepts. -/
def rows (content : List UInt8) : Option Nat :=
  let kept := parser.dataRecords content
  if parser.accepts kept then some (kept.length - 1) else none

end CsvParser

end SimulationKey
