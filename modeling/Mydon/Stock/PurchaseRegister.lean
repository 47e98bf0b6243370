import Mathlib.Data.List.Induction
import Mydon.Clock.DayTexts
import Mydon.Recon.Reconcile

/-! The register of purchases: the rows of the owner's table, with what the cells above leave to them. -/

namespace Mydon.Stock

structure RegisterRow where
  fileRow : ℤ
  group : Option String
  year : Option ℤ
  supplier : String
  inn : Option String
  name : String
  unit : Option String
  qty : Option ℚ
  priceGross : Option ℚ
  costGross : Option ℚ
  invoiceRaw : Option String
  invoiceNo : Option String
  invoiceDate : Option String
  payDate : Option String
  receivedOn : Option String
  dateProblem : Option String
  note : Option String
  deriving DecidableEq

/-! `COL`. -/

namespace COL

def group : ℕ := 0
def year : ℕ := 1
def supplier : ℕ := 2
def inn : ℕ := 3
def name : ℕ := 4
def unit : ℕ := 5
def qty : ℕ := 6
def priceGross : ℕ := 7
def costGross : ℕ := 8
def invoice : ℕ := 9
def payDate : ℕ := 11
def note : ℕ := 12

end COL

variable (host : Js.Host)

def rawCell (row : List String) (i : ℕ) : String := row.getD i ""

def isBlankCell (raw : String) : Bool := (Recon.normalizeSourceKey host raw).length = 0

def cellOrNull (row : List String) (i : ℕ) : Option String :=
  let raw := Js.trim (rawCell row i)
  if raw = "" then none else some raw

/-- A negative number is a slip of the pen. -/
def parseAmount (raw : String) : Option ℚ := (Recon.toNumber host raw).filter (0 ≤ ·)

/-! `/^№?\s*(.+?)\s+от\s+(\d{1,2})\.(\d{1,2})\.(\d{4})$/`: the number of the invoice and the digits of the day, of the
month and of the year. -/

/-- `(\d{1,2})\.`, and what follows it. -/
def shortNumber (cs : List Char) : Option (List Char × List Char) :=
  match cs.takeWhile Js.isDigit, cs.dropWhile Js.isDigit with
  | [c], '.' :: rest => some ([c], rest)
  | [c, d], '.' :: rest => some ([c, d], rest)
  | _, _ => none

def dayMonthYear (cs : List Char) : Option (List Char × List Char × List Char) := do
  let (d, rest) ← shortNumber cs
  let (mo, y) ← shortNumber rest
  if y.length = 4 ∧ y.all Js.isDigit then some (d, mo, y) else none

/-- `\s+`, and what follows it. -/
def someSpace (cs : List Char) : Option (List Char) :=
  if cs.head?.any Js.isSpace then some (cs.dropWhile Js.isSpace) else none

/-- `\s+от\s+…$`. -/
def invoiceTail (cs : List Char) : Option (List Char × List Char × List Char) := do
  match ← someSpace cs with
  | 'о' :: 'т' :: rest => dayMonthYear (← someSpace rest)
  | _ => none

def isLineBreak (c : Char) : Bool := c == '\n' || c == '\r' || c == '\u2028' || c == '\u2029'

/-- `(.+?)\s+от\s+…$`, of the least length. -/
def invoiceBody : List Char → Option (List Char × List Char × List Char × List Char)
  | [] => none
  | c :: cs =>
    if isLineBreak c then none
    else
      match invoiceTail cs with
      | some date => some ([c], date)
      | none => (invoiceBody cs).map fun m => (c :: m.1, m.2)

/-- `\s*(.+?)…$`: as much white space as leaves the rest a match. -/
def invoiceSpaced : List Char → Option (List Char × List Char × List Char × List Char)
  | [] => none
  | c :: cs => if Js.isSpace c then (invoiceSpaced cs).or (invoiceBody (c :: cs)) else invoiceBody (c :: cs)

def invoiceMatch (raw : String) : Option (List Char × List Char × List Char × List Char) :=
  match raw.toList with
  | '№' :: cs => (invoiceSpaced cs).or (invoiceSpaced ('№' :: cs))
  | cs => invoiceSpaced cs

/-- `padStart(2, "0")`. -/
def padTwo (cs : List Char) : List Char := List.replicate (2 - cs.length) '0' ++ cs

def parseInvoiceText (raw : String) : Option String × Option String :=
  match invoiceMatch raw with
  | none => (none, none)
  | some (no, d, mo, y) =>
    (some (String.ofList no), some (String.ofList (y ++ '-' :: (padTwo mo ++ '-' :: padTwo d))))

/-- `/^\d{4}-\d{2}-\d{2}$/`: the digits of the year, of the month and of the day. -/
def isoMatch (raw : String) : Option (List Char × List Char × List Char) :=
  match raw.toList with
  | [a, b, c, d, '-', e, f, '-', g, h] =>
    if [a, b, c, d, e, f, g, h].all Js.isDigit then some ([a, b, c, d], [e, f], [g, h]) else none
  | _ => none

/-- Not later than today. -/
def plausiblePayDate (raw today : String) : Option String :=
  if (isoMatch raw).isSome ∧ Js.before today raw = false then some raw else none

/-! The cells that are left to the rows below. -/

structure Dragged where
  group : Option String
  year : Option ℤ
  supplier : Option String
  inn : Option String

def textCell (i : ℕ) (row : List String) : Option String :=
  if isBlankCell host (rawCell row i) then none else some (Js.trim (rawCell row i))

/-- A year that is no whole number is not read. -/
def yearCell (row : List String) : Option ℤ :=
  if isBlankCell host (rawCell row COL.year) then none
  else (host.number (Js.trim (rawCell row COL.year))).bind fun y => if y.den = 1 then some y.num else none

def drag (d : Dragged) (row : List String) : Dragged where
  group := (textCell host COL.group row).or d.group
  year := (yearCell host row).or d.year
  supplier := (textCell host COL.supplier row).or d.supplier
  inn := (textCell host COL.inn row).or d.inn

def NO_PLAUSIBLE_DATE : String :=
  "дата оплаты есть, но не похожа на настоящую (в будущем или не формат даты) — дата прихода неизвестна"

def NO_DATE : String := "нет даты прихода: ни счёта-фактуры с датой, ни правдоподобной даты оплаты"

def registerRow (today : String) (firstRowNumber : ℤ) (d : Dragged) (row : List String) (index : ℕ) : Option RegisterRow :=
  (cellOrNull row COL.name).bind fun name =>
    let hasQty := (parseAmount host (rawCell row COL.qty)).isSome
    let hasCost := (parseAmount host (rawCell row COL.costGross)).isSome
    if !hasQty && !hasCost then none
    else
      let invoiceRaw := cellOrNull row COL.invoice
      let invoice := (invoiceRaw.map parseInvoiceText).getD (none, none)
      let payDateRaw := cellOrNull row COL.payDate
      let payDate := payDateRaw.bind fun raw => plausiblePayDate raw today
      let receivedOn := invoice.2.or payDate
      some
        { fileRow := index + firstRowNumber
          group := d.group
          year := d.year
          supplier := d.supplier.getD ""
          inn := d.inn
          name
          unit := cellOrNull row COL.unit
          qty := parseAmount host (rawCell row COL.qty)
          priceGross := parseAmount host (rawCell row COL.priceGross)
          costGross := parseAmount host (rawCell row COL.costGross)
          invoiceRaw
          invoiceNo := invoice.1
          invoiceDate := invoice.2
          payDate
          receivedOn
          dateProblem :=
            if receivedOn.isSome then none else if payDateRaw.isSome then some NO_PLAUSIBLE_DATE else some NO_DATE
          note := cellOrNull row COL.note }

def registerStep (today : String) (firstRowNumber : ℤ) (st : Dragged × List RegisterRow) (e : List String × ℕ) :
    Dragged × List RegisterRow :=
  let d := drag host st.1 e.1
  (d, st.2 ++ (registerRow host today firstRowNumber d e.1 e.2).toList)

def parseRegisterRows (today : String) (firstRowNumber : ℤ) (rows : List (List String)) : List RegisterRow :=
  (rows.zipIdx.foldl (registerStep host today firstRowNumber) (⟨none, none, none, none⟩, [])).2

/-! What the loop makes of the table. -/

variable {host} {today : String} {first : ℤ} {rows : List (List String)}

/-- What the rows up to one leave to it. -/
def dragged (host : Js.Host) (above : List (List String)) : Dragged := above.foldl (drag host) ⟨none, none, none, none⟩

/-- The last of the rows that has a readable cell. -/
def lastOf {α : Type} (read : List String → Option α) (above : List (List String)) : Option α := above.reverse.findSome? read

theorem lastOf_append {α : Type} (read : List String → Option α) (above below : List (List String)) :
    lastOf read (above ++ below) = (lastOf read below).or (lastOf read above) := by
  unfold lastOf
  rw [List.reverse_append, List.findSome?_append]

theorem lastOf_concat {α : Type} (read : List String → Option α) (above : List (List String)) (row : List String) :
    lastOf read (above ++ [row]) = (read row).or (lastOf read above) := by
  have hone : lastOf read [row] = read row := by
    simp [lastOf, List.findSome?_cons]
    rcases read row with _ | a <;> rfl
  rw [lastOf_append, hone]

/-- The four registers hold the last readable cells. -/
theorem dragged_eq (above : List (List String)) : dragged host above =
    ⟨lastOf (textCell host COL.group) above, lastOf (yearCell host) above, lastOf (textCell host COL.supplier) above,
      lastOf (textCell host COL.inn) above⟩ := by
  induction above using List.reverseRecOn with
  | nil => rfl
  | append_singleton above row ih =>
    have hstep : dragged host (above ++ [row]) = drag host (dragged host above) row := by
      rw [dragged, List.foldl_append, List.foldl_cons, List.foldl_nil]
      rfl
    rw [hstep, ih, lastOf_concat, lastOf_concat, lastOf_concat, lastOf_concat]
    rfl

theorem foldl_registerStep (below : List (List String)) (above : List (List String)) (out : List RegisterRow) :
    ((below.zipIdx above.length).foldl (registerStep host today first) (dragged host above, out)).2 =
      out ++ (below.zipIdx above.length).filterMap fun e =>
        registerRow host today first (dragged host ((above ++ below).take (e.2 + 1))) e.1 e.2 := by
  induction below generalizing above out with
  | nil => simp
  | cons row below ih =>
    have hdrag : drag host (dragged host above) row = dragged host (above ++ [row]) := by
      rw [dragged, dragged, List.foldl_append, List.foldl_cons, List.foldl_nil]
    have htake : (above ++ row :: below).take (above.length + 1) = above ++ [row] := by
      rw [List.take_append, List.take_of_length_le (Nat.le_succ _), Nat.add_sub_cancel_left, List.take_succ_cons, List.take_zero]
    have hlength : (above ++ [row]).length = above.length + 1 := List.length_append
    have htail := ih (above ++ [row]) (out ++ (registerRow host today first (dragged host (above ++ [row])) row above.length).toList)
    rw [hlength, List.append_assoc above, List.singleton_append] at htail
    rw [List.zipIdx_cons, List.foldl_cons, List.filterMap_cons, htake]
    unfold registerStep
    rw [hdrag]
    unfold registerStep at htail
    rw [htail]
    rcases registerRow host today first (dragged host (above ++ [row])) row above.length with _ | r
    · simp
    · simp

theorem parseRegisterRows_eq (rows : List (List String)) : parseRegisterRows host today first rows =
    rows.zipIdx.filterMap fun e => registerRow host today first (dragged host (rows.take (e.2 + 1))) e.1 e.2 := by
  have hrun := @foldl_registerStep host today first rows [] []
  rw [List.nil_append, List.nil_append] at hrun
  exact hrun

end Mydon.Stock
