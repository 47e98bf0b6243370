import Mathlib.Data.Rat.Floor
import Mydon.Js.Json
import Mydon.Lib.OrderedMap

/-! The stock journal and the balances read from it. Quantities are rational
numbers; a balance is a sum over the movements, in the base unit of the item. -/

namespace Mydon.Stock

abbrev Attrs := List (String × Js.Json)

/-- A card of the registry. -/
structure Entity where
  id : String
  type : String
  name : String
  attrs : Attrs

inductive QtyUnit
  | gram
  | kilogram
  | millilitre
  | litre
  | piece
  | portion
  | cup
  deriving DecidableEq

def QtyUnit.text : QtyUnit → String
  | .gram => "г"
  | .kilogram => "кг"
  | .millilitre => "мл"
  | .litre => "л"
  | .piece => "шт"
  | .portion => "порция"
  | .cup => "чашка"

def UNITS : List QtyUnit := [.gram, .kilogram, .millilitre, .litre, .piece, .portion, .cup]

/-- `isUnit`, with the unit it recognises. -/
def QtyUnit.ofText (text : String) : Option QtyUnit := UNITS.find? (·.text = text)

inductive Dimension
  | weight
  | volume
  | pieces
  deriving DecidableEq

def QtyUnit.dim : QtyUnit → Dimension
  | .gram | .kilogram => .weight
  | .millilitre | .litre => .volume
  | .piece | .portion | .cup => .pieces

def QtyUnit.per : QtyUnit → ℚ
  | .kilogram | .litre => 1000
  | _ => 1

def convertQty (qty : ℚ) (fromUnit toUnit : QtyUnit) : Option ℚ :=
  if fromUnit = toUnit then some qty
  else if fromUnit.dim ≠ toUnit.dim ∨ fromUnit.dim = .pieces then none
  else some (qty * fromUnit.per / toUnit.per)

inductive StockMovementKind
  | intake
  | consumption
  | transfer
  | adjustment
  | return
  deriving DecidableEq

structure StockMovement where
  kind : StockMovementKind
  warehouseId : String
  counterpartyId : Option String
  qty : ℚ
  unit : QtyUnit
  deriving DecidableEq

structure StockBalance where
  qty : ℚ
  unit : QtyUnit
  unconvertible : ℕ
  deriving DecidableEq

/-- `warehouseId = none` is the balance over all warehouses. -/
def signedFor (m : StockMovement) (warehouseId : Option String) (converted : ℚ) : ℚ :=
  let own := warehouseId = none ∨ some m.warehouseId = warehouseId
  match m.kind with
  | .intake | .return => if own then converted else 0
  | .consumption => if own then -converted else 0
  | .adjustment => if own then converted else 0
  | .transfer =>
    if warehouseId = none then 0
    else if some m.warehouseId = warehouseId then -converted
    else if m.counterpartyId = warehouseId then converted
    else 0

/-- The movement concerns the warehouse. -/
def touches (m : StockMovement) (warehouseId : Option String) : Bool :=
  warehouseId = none || some m.warehouseId = warehouseId || m.counterpartyId = warehouseId

def addMovement (base : QtyUnit) (warehouseId : Option String) (acc : ℚ × ℕ) (m : StockMovement) : ℚ × ℕ :=
  match convertQty m.qty m.unit base with
  | none => (acc.1, if touches m warehouseId then acc.2 + 1 else acc.2)
  | some converted => (acc.1 + signedFor m warehouseId converted, acc.2)

def stockBalance (movements : List StockMovement) (base : QtyUnit) (warehouseId : Option String) :
    StockBalance :=
  let acc := movements.foldl (addMovement base warehouseId) (0, 0)
  ⟨acc.1, base, acc.2⟩

/-- A row of `stock_movement`; `unit` is free text in the table. -/
structure StockMovementRow where
  id : String
  kind : StockMovementKind
  ingredientId : String
  warehouseId : String
  counterpartyId : Option String
  batchId : Option String
  dt : String
  qty : ℚ
  unit : String
  unitPrice : Option ℚ
  total : Option ℚ
  supplier : Option String
  source : String
  note : Option String
  clientKey : Option String
  createdBy : String
  deriving DecidableEq

def StockMovementRow.toMovement (r : StockMovementRow) : Option StockMovement :=
  (QtyUnit.ofText r.unit).map fun unit => ⟨r.kind, r.warehouseId, r.counterpartyId, r.qty, unit⟩

/-- Rows whose unit is unknown are dropped. -/
def toBalanceInput (rows : List StockMovementRow) : List StockMovement :=
  rows.filterMap StockMovementRow.toMovement

/-- `case ... end` of the balance query. -/
def ledgerCase (warehouseId : String) (r : StockMovementRow) : ℚ :=
  match r.kind with
  | .intake | .return => r.qty
  | .consumption => -r.qty
  | .adjustment => r.qty
  | .transfer =>
    if r.warehouseId = warehouseId then -r.qty
    else if r.counterpartyId = some warehouseId then r.qty
    else 0

def ledgerWhere (warehouseId cardId : String) (r : StockMovementRow) : Bool :=
  r.ingredientId = cardId && (r.warehouseId = warehouseId || r.counterpartyId = some warehouseId)

def ledgerQty (journal : List StockMovementRow) (warehouseId cardId : String) : ℚ :=
  ((journal.filter (ledgerWhere warehouseId cardId)).map (ledgerCase warehouseId)).sum

/-- One query grouped by card: a card without rows has no entry. -/
def ledgerQtyMany (journal : List StockMovementRow) (warehouseId : String) (cardIds : List String) :
    List (String × ℚ) :=
  let rows := journal.filter fun r => cardIds.any fun cardId => ledgerWhere warehouseId cardId r
  (rows.map (·.ingredientId)).dedup.map fun cardId =>
    (cardId, ((rows.filter (·.ingredientId = cardId)).map (ledgerCase warehouseId)).sum)

/-- `stockBalance` over the movements of one item, as the service reads them. -/
def itemBalance (journal : List StockMovementRow) (cardId : String) (base : QtyUnit)
    (warehouseId : Option String) : StockBalance :=
  stockBalance (toBalanceInput (journal.filter (·.ingredientId = cardId))) base warehouseId

/-! A balance is the sum of what each row contributes. -/

def contribution (base : QtyUnit) (warehouseId : Option String) (m : StockMovement) : ℚ :=
  ((convertQty m.qty m.unit base).map (signedFor m warehouseId)).getD 0

theorem foldl_addMovement_qty (base : QtyUnit) (warehouseId : Option String) (movements : List StockMovement)
    (acc : ℚ × ℕ) :
    (movements.foldl (addMovement base warehouseId) acc).1 =
      acc.1 + (movements.map (contribution base warehouseId)).sum := by
  induction movements generalizing acc with
  | nil => simp
  | cons m movements ih =>
    rw [List.foldl_cons, ih, List.map_cons, List.sum_cons]
    unfold addMovement contribution
    cases convertQty m.qty m.unit base with
    | none => simp
    | some converted => simp [add_assoc]

theorem stockBalance_qty (movements : List StockMovement) (base : QtyUnit) (warehouseId : Option String) :
    (stockBalance movements base warehouseId).qty =
      (movements.map (contribution base warehouseId)).sum := by
  rw [stockBalance, foldl_addMovement_qty, zero_add]

/-- What a row adds to the balance of an item. -/
def rowContribution (cardId : String) (base : QtyUnit) (warehouseId : Option String)
    (r : StockMovementRow) : ℚ :=
  if r.ingredientId = cardId then (r.toMovement.map (contribution base warehouseId)).getD 0 else 0

theorem itemBalance_qty (journal : List StockMovementRow) (cardId : String) (base : QtyUnit)
    (warehouseId : Option String) :
    (itemBalance journal cardId base warehouseId).qty =
      (journal.map (rowContribution cardId base warehouseId)).sum := by
  rw [itemBalance, stockBalance_qty, toBalanceInput]
  induction journal with
  | nil => rfl
  | cons r journal ih =>
    rw [List.map_cons, List.sum_cons, ← ih, rowContribution]
    by_cases h : r.ingredientId = cardId
    · rw [List.filter_cons_of_pos (by simpa using h), List.filterMap_cons, if_pos h]
      cases r.toMovement <;> simp
    · rw [List.filter_cons_of_neg (by simpa using h), if_neg h, zero_add]

/-- What a row adds to the balance the query reads. -/
def ledgerContribution (warehouseId cardId : String) (r : StockMovementRow) : ℚ :=
  if ledgerWhere warehouseId cardId r then ledgerCase warehouseId r else 0

theorem ledgerQty_eq (journal : List StockMovementRow) (warehouseId cardId : String) :
    ledgerQty journal warehouseId cardId =
      (journal.map (ledgerContribution warehouseId cardId)).sum := by
  unfold ledgerQty
  induction journal with
  | nil => rfl
  | cons r journal ih =>
    rw [List.map_cons, List.sum_cons, ← ih, ledgerContribution]
    by_cases h : ledgerWhere warehouseId cardId r = true
    · rw [List.filter_cons_of_pos h, if_pos h, List.map_cons, List.sum_cons]
    · rw [List.filter_cons_of_neg h, if_neg h, zero_add]

theorem itemBalance_append (journal : List StockMovementRow) (r : StockMovementRow) (cardId : String)
    (base : QtyUnit) (warehouseId : Option String) :
    (itemBalance (journal ++ [r]) cardId base warehouseId).qty =
      (itemBalance journal cardId base warehouseId).qty + rowContribution cardId base warehouseId r := by
  simp [itemBalance_qty]

end Mydon.Stock
