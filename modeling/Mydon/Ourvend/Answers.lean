import Mydon.Jobs.Model
import Mydon.Lib.Tally

/-! The vendor's answers as the connector reads them. -/

namespace Mydon.Ourvend

open Mydon.Lib Mydon.Js

/-- A number of the vendor; what cannot be read is zero, and so is an empty text. -/
def coerceNum (host : Host) : Option Json → ℚ
  | some (.num n) => n
  | some (.str s) => if Js.trim s = "" then 0 else (host.number (Js.trim s)).getD 0
  | _ => 0

structure RawLotRow where
  product : String
  quantity : ℚ
  deriving DecidableEq

def rawRows (answer : Json) : List Json :=
  match answer.get? "rows" with
  | some (.arr rows) => rows
  | _ => []

/-- `typeof value === "string" ? value.trim() : ""`. -/
def trimmedText : Option Json → String
  | some (.str s) => Js.trim s
  | _ => ""

/-- The text of a field, empty where the field is missing. -/
def fieldText (host : Host) : Option Json → String
  | none | some .null => ""
  | some v => Jobs.jsText host v

/-- A row of the machine itself: the server may ignore the filter. -/
def isLotRow (host : Host) (machineApiId : String) (row : Json) : Bool :=
  fieldText host (row.get? "MId") = machineApiId && trimmedText (row.get? "PrName") ≠ ""

def lotRow (host : Host) (row : Json) : RawLotRow where
  product := trimmedText (row.get? "PrName")
  quantity := coerceNum host (row.get? "SiExtantQuantity")

structure LotPage where
  all : ℕ
  mine : List RawLotRow
  deriving DecidableEq

def parseLotPage (host : Host) (answer : Json) (machineApiId : String) : LotPage where
  all := (rawRows answer).length
  mine := ((rawRows answer).filter (isLotRow host machineApiId)).map (lotRow host)

/-- How often the server has sent each row: the greatest common divisor of the numbers of rows. -/
def copies (rows : List RawLotRow) : ℕ :=
  let counts := tally RawLotRow.product (fun _ => 0) (fun n _ => n + 1) rows
  max ((counts.map Prod.snd).foldl Nat.gcd 0) 1

def dedupLotAgg (rows : List RawLotRow) : List (String × ℚ) :=
  (tally RawLotRow.product (fun _ => 0) (fun s r => s + r.quantity) rows).map fun e => (e.1, e.2 / copies rows)

end Mydon.Ourvend
