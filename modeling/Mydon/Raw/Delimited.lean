import Mydon.Js.Text

/-! Exports saved as files: the writer of the raw journal and the reader of delimited files. -/

namespace Mydon.Raw

def DELIMITERS : List Char := [';', ',', '\t', '|']

structure Delimited where
  columns : List String
  rows : List (List String)
  delimiter : Char
  /-- Rows that do not have as many cells as there are titles. -/
  ragged : ℕ
  deriving DecidableEq

/-- The loop of `splitRow`: a doubled quote is one, and the delimiter is a plain character between quotes. -/
def splitRowFrom (delimiter : Char) : Bool → List Char → List Char → List String
  | _, cur, [] => [String.ofList cur]
  | true, cur, '"' :: '"' :: rest => splitRowFrom delimiter true (cur ++ ['"']) rest
  | true, cur, '"' :: rest => splitRowFrom delimiter false cur rest
  | true, cur, c :: rest => splitRowFrom delimiter true (cur ++ [c]) rest
  | false, cur, c :: rest =>
    if c = '"' then splitRowFrom delimiter true cur rest
    else if c = delimiter then String.ofList cur :: splitRowFrom delimiter false [] rest
    else splitRowFrom delimiter false (cur ++ [c]) rest

def splitRow (line : List Char) (delimiter : Char) : List String := splitRowFrom delimiter false [] line

/-- The loop of `splitLines`: a line break between quotes is a plain character. -/
def splitLinesFrom : Bool → List Char → List Char → List (List Char)
  | _, cur, [] => if cur = [] then [] else [cur]
  | false, cur, '\r' :: '\n' :: rest => cur :: splitLinesFrom false [] rest
  | quoted, cur, c :: rest =>
    if c = '"' then splitLinesFrom (!quoted) (cur ++ [c]) rest
    else if quoted = false ∧ (c = '\n' ∨ c = '\r') then cur :: splitLinesFrom false [] rest
    else splitLinesFrom quoted (cur ++ [c]) rest

def splitLines (text : List Char) : List (List Char) := splitLinesFrom false [] text

def isBlank (line : List Char) : Bool := Js.trimChars line = []

/-- How well a delimiter cuts the lines; one that leaves the first line whole has no score. -/
def delimiterScore (lines : List (List Char)) (d : Char) : Option ℚ :=
  let counts := lines.map fun l => (splitRow l d).length
  let first := counts.headD 0
  if first < 2 then none else some ((counts.count first : ℚ) / counts.length * 100 + first)

/-- The delimiter under which the lines fall into one and the same number of cells. -/
def sniffDelimiter (text : List Char) : Char :=
  let lines := ((splitLines text).filter fun l => !isBlank l).take 20
  if lines = [] then ';'
  else (DELIMITERS.foldl (fun (best : Char × ℚ) d =>
    match delimiterScore lines d with
    | some score => if best.2 < score then (d, score) else best
    | none => best) (';', -1)).1

/-- A short row is filled with empty cells, a long one stays as it is. -/
def fillRow (width : ℕ) (cells : List String) : List String := cells ++ List.replicate (width - cells.length) ""

def parseDelimited (text : String) (delimiter : Option Char) : Delimited :=
  let clean := match text.toList with
    | '\uFEFF' :: rest => rest
    | cs => cs
  let d := delimiter.getD (sniffDelimiter clean)
  match ((splitLines clean).reverse.dropWhile isBlank).reverse with
  | [] => ⟨[], [], d, 0⟩
  | head :: lines =>
    let columns := (splitRow head d).map Js.trim
    { columns
      rows := lines.map fun line => fillRow columns.length (splitRow line d)
      delimiter := d
      ragged := lines.countP fun line => (splitRow line d).length ≠ columns.length }

/-! The export of the raw journal. -/

structure RawRowOut where
  idx : ℤ
  cells : List String
  deriving DecidableEq

/-- `replace(/"/g, '""')`. -/
def doubleQuotes (cs : List Char) : List Char := cs.flatMap fun c => if c = '"' then ['"', '"'] else [c]

/-- The characters for which a cell is quoted: `/[;\n\r"]/`. -/
def isSpecial (c : Char) : Bool := c = ';' || c = '\n' || c = '\r' || c = '"'

def csvCell (value : String) : List Char :=
  let v := doubleQuotes value.toList
  if v.any isSpecial then '"' :: v ++ ['"'] else v

def csvLine (cells : List String) : List Char := List.intercalate [';'] (cells.map csvCell)

/-- The text begins with a byte order mark. -/
def toCsv (columns : List String) (rows : List RawRowOut) : String :=
  let head := csvLine ("#" :: columns)
  let body := rows.map fun r => csvLine (toString r.idx :: r.cells)
  String.ofList ('\uFEFF' :: List.intercalate ['\r', '\n'] (head :: body))

end Mydon.Raw
