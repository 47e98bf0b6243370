import Mydon.Lib.OrderedMap
import Mydon.Js.Text

/-! Row-by-row reconciliation of two sources by the key of the operation.
`Number()`, case mapping and collation are the host's. -/

namespace Mydon.Recon

open Mydon.Lib

inductive CompareAs
  | number
  | key
  | exact
  deriving DecidableEq

structure ReconField where
  role : String
  label : String
  compare : CompareAs
  deriving DecidableEq

/-- `values` is the record of values by role. -/
structure ReconRow where
  key : String
  values : List (String × String)
  deriving DecidableEq

def ReconRow.value (row : ReconRow) (role : String) : Option String := OrderedMap.get row.values role

structure FieldDiff where
  role : String
  label : String
  a : String
  b : String
  deriving DecidableEq

structure MatchedPair where
  key : String
  diffs : List FieldDiff
  deriving DecidableEq

structure FieldSummary where
  role : String
  label : String
  agree : ℕ
  differ : ℕ
  absent : ℕ
  deriving DecidableEq

structure Duplicate where
  key : String
  count : ℕ
  deriving DecidableEq

structure Reconciliation where
  totalA : ℕ
  totalB : ℕ
  matched : ℕ
  conflicts : List MatchedPair
  onlyA : List String
  onlyB : List String
  onlyACount : ℕ
  onlyBCount : ℕ
  duplicatesA : List Duplicate
  duplicatesB : List Duplicate
  fields : List FieldSummary
  deriving DecidableEq

def MAX_SAMPLES : ℕ := 200

/-- `if (list.length < MAX_SAMPLES) list.push(x)`. -/
def pushSample {α : Type} (list : List α) (x : α) : List α :=
  if list.length < MAX_SAMPLES then list ++ [x] else list

variable (host : Js.Host)

def normalizeSourceKey (value : String) : String :=
  let spaced := Js.replaceAll (fun c => c == '\u00A0' || c == '\u202F') ' ' value.toList
  let single := Js.collapseSpaces (Js.trimChars spaced)
  String.ofList (Js.replaceAll (· == 'ё') 'е' (host.toLowerCase (String.ofList single)).toList)

/-- `/^-?\d+(\.\d+)?$/`. -/
def isPlainNumber (cs : List Char) : Bool :=
  let digits := if cs.head? = some '-' then cs.tail else cs
  let whole := digits.takeWhile Js.isDigit
  let rest := digits.dropWhile Js.isDigit
  !whole.isEmpty &&
    match rest with
    | [] => true
    | c :: frac => c == '.' && !frac.isEmpty && frac.all Js.isDigit

def toNumber (v : String) : Option ℚ :=
  let s := Js.replaceFirst ',' '.' (v.toList.filter fun c => !Js.isSpace c)
  if isPlainNumber s then host.number (String.ofList s) else none

def valuesAgree (a b : String) : CompareAs → Bool
  | .number =>
    match toNumber host a, toNumber host b with
    | some na, some nb => na == nb
    | _, _ => Js.trim a == Js.trim b
  | .key => normalizeSourceKey host a == normalizeSourceKey host b
  | .exact => Js.trim a == Js.trim b

def keyOf (row : ReconRow) : String := normalizeSourceKey host row.key

/-- The rows of one key, never empty. -/
structure KeyRows where
  first : ReconRow
  rest : List ReconRow
  deriving DecidableEq

def KeyRows.count (rows : KeyRows) : ℕ := rows.rest.length + 1

def KeyRows.push (row : ReconRow) : Option KeyRows → KeyRows
  | none => ⟨row, []⟩
  | some rows => ⟨rows.first, rows.rest ++ [row]⟩

structure KeyIndex where
  map : List (String × KeyRows)
  duplicates : List Duplicate

def indexRow (map : List (String × KeyRows)) (row : ReconRow) : List (String × KeyRows) :=
  let k := keyOf host row
  if k = "" then map else OrderedMap.alter (KeyRows.push row) k map

def duplicatesOf (map : List (String × KeyRows)) : List Duplicate :=
  map.foldl
    (fun duplicates entry =>
      if 1 < entry.2.count then pushSample duplicates ⟨entry.2.first.key, entry.2.count⟩ else duplicates) []

def indexByKey (rows : List ReconRow) : KeyIndex :=
  let map := rows.foldl (indexRow host) []
  { map, duplicates := duplicatesOf map }

abbrev Summary := List (String × FieldSummary)

/-- `summary.get(role)!`, changed in place. -/
def Summary.update (summary : Summary) (f : ReconField) (g : FieldSummary → FieldSummary) : Summary :=
  OrderedMap.alter (fun s => g (s.getD ⟨f.role, f.label, 0, 0, 0⟩)) f.role summary

def initialSummary (fields : List ReconField) : Summary :=
  fields.foldl
    (fun summary f => OrderedMap.alter (fun _ => ⟨f.role, f.label, 0, 0, 0⟩) f.role summary) []

/-- One turn of the loop over the fields of a matched pair. -/
def compareField (rowA rowB : ReconRow) (acc : Summary × List FieldDiff) (f : ReconField) :
    Summary × List FieldDiff :=
  match rowA.value f.role, rowB.value f.role with
  | some va, some vb =>
    if va = "" ∧ vb = "" then (acc.1.update f fun s => { s with absent := s.absent + 1 }, acc.2)
    else if valuesAgree host va vb f.compare then
      (acc.1.update f fun s => { s with agree := s.agree + 1 }, acc.2)
    else
      (acc.1.update f fun s => { s with differ := s.differ + 1 }, acc.2 ++ [⟨f.role, f.label, va, vb⟩])
  | _, _ => (acc.1.update f fun s => { s with absent := s.absent + 1 }, acc.2)

structure Walk where
  matched : ℕ
  onlyACount : ℕ
  onlyA : List String
  conflicts : List MatchedPair
  summary : Summary

/-- One turn of the loop over the keys of source A. -/
def visitA (fields : List ReconField) (mapB : List (String × KeyRows)) (walk : Walk)
    (entry : String × KeyRows) : Walk :=
  match OrderedMap.get mapB entry.1 with
  | none =>
    { walk with onlyACount := walk.onlyACount + 1, onlyA := pushSample walk.onlyA entry.2.first.key }
  | some rowsB =>
    let compared := fields.foldl (compareField host entry.2.first rowsB.first) (walk.summary, [])
    { walk with
      matched := walk.matched + 1
      summary := compared.1
      conflicts :=
        if compared.2 ≠ [] then pushSample walk.conflicts ⟨entry.2.first.key, compared.2⟩
        else walk.conflicts }

/-- One turn of the loop over the keys of source B. -/
def visitB (mapA : List (String × KeyRows)) (acc : ℕ × List String) (entry : String × KeyRows) :
    ℕ × List String :=
  if (OrderedMap.get mapA entry.1).isSome then acc
  else (acc.1 + 1, pushSample acc.2 entry.2.first.key)

def reconcile (a b : List ReconRow) (fields : List ReconField) : Reconciliation :=
  let indexA := indexByKey host a
  let indexB := indexByKey host b
  let walk := indexA.map.foldl (visitA host fields indexB.map) ⟨0, 0, [], [], initialSummary fields⟩
  let onlyB := indexB.map.foldl (visitB indexA.map) (0, [])
  { totalA := a.length
    totalB := b.length
    matched := walk.matched
    conflicts := walk.conflicts
    onlyA := walk.onlyA
    onlyB := onlyB.2
    onlyACount := walk.onlyACount
    onlyBCount := onlyB.1
    duplicatesA := indexA.duplicates
    duplicatesB := indexB.duplicates
    fields := walk.summary.map Prod.snd }

end Mydon.Recon
