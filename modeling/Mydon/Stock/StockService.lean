import Mydon.Stock.Ledger

/-! Writing to the stock journal: movements, and the stocktake that sets the
balance of one item at one warehouse to what was counted. -/

namespace Mydon.Stock

open Mydon.Lib

def attrText (attrs : Attrs) (key : String) : Option String :=
  (OrderedMap.get attrs key).bind Js.Json.asString

def PRODUCT_KINDS : List String := ["рецепт", "перепродажа"]

def productKind (attrs : Attrs) : Option String := (attrText attrs "вид").filter (· ∈ PRODUCT_KINDS)

def baseUnitOf (attrs : Attrs) : Option QtyUnit := (attrText attrs "единица").bind QtyUnit.ofText

def baseUnitOfCard (card : Entity) : Option QtyUnit :=
  (baseUnitOf card.attrs).or (if card.type = "product" then some .piece else none)

def findCard (cards : List Entity) (id : String) : Option Entity := cards.find? (·.id = id)

def stockCard (cards : List Entity) (id : String) : Except Js.HttpError Entity :=
  match findCard cards id with
  | none => .error (.notFound s!"Карточки нет: {id}")
  | some card =>
    if card.type = "ingredient" then .ok card
    else if card.type = "product" ∧ productKind card.attrs = some "перепродажа" then .ok card
    else if card.type = "product" then
      .error (.badRequest
        s!"Карточка {card.name} — рецептурный товар, на склад его не приходуют (только «на перепродажу»)")
    else .error (.badRequest s!"Карточка {card.name} — не ingredient и не товар на перепродажу")

def cardOfType (cards : List Entity) (id type : String) : Except Js.HttpError Entity :=
  match findCard cards id with
  | none => .error (.notFound s!"Карточки нет: {id}")
  | some card =>
    if card.type ≠ type then .error (.badRequest s!"Карточка {card.name} — не {type}") else .ok card

/-- `Math.round(x * 1000) / 1000`. -/
def round3 (x : ℚ) : ℚ := ⌊x * 1000 + 1 / 2⌋ / 1000

/-- A `numeric(precision, scale)` column: halves round away from zero, large values are refused. -/
def numeric (precision scale : ℕ) (x : ℚ) : Except Js.HttpError ℚ :=
  let units := ⌊|x| * 10 ^ scale + 1 / 2⌋
  if units < 10 ^ precision then .ok ((if x < 0 then -units else units) / 10 ^ scale)
  else .error (.internal "numeric field overflow")

theorem scaled_floor (scale : ℕ) (k : ℤ) : ⌊|(k : ℚ) / 10 ^ scale| * 10 ^ scale + 1 / 2⌋ = |k| := by
  have hpos : (0 : ℚ) < 10 ^ scale := by positivity
  have habs : |(k : ℚ) / 10 ^ scale| * 10 ^ scale = (|k| : ℤ) := by
    rw [abs_div, abs_of_pos hpos, div_mul_cancel₀ _ hpos.ne', Int.cast_abs]
  rw [habs, Int.floor_intCast_add]
  norm_num

/-- `x.toFixed(2)`, as the number it spells. -/
def toFixed2 (x : ℚ) : ℚ := ((if x < 0 then -⌊|x| * 10 ^ 2 + 1 / 2⌋ else ⌊|x| * 10 ^ 2 + 1 / 2⌋ : ℤ) : ℚ) / 10 ^ 2

theorem toFixed2_hundredths (k : ℤ) : toFixed2 (k / 10 ^ 2) = k / 10 ^ 2 := by
  have hneg : (k : ℚ) / 10 ^ 2 < 0 ↔ k < 0 := by
    rw [div_lt_iff₀ (by positivity), zero_mul, Int.cast_lt_zero]
  unfold toFixed2
  rw [scaled_floor]
  by_cases hk : k < 0
  · rw [if_pos (hneg.mpr hk), abs_of_neg hk, neg_neg]
  · rw [if_neg (mt hneg.mp hk), abs_of_nonneg (not_lt.mp hk)]

/-- A column keeps the numbers that have its decimals, and no others. -/
theorem numeric_eq_self_iff {precision scale : ℕ} {x y : ℚ} (h : numeric precision scale x = .ok y) :
    y = x ↔ ∃ k : ℤ, x = k / 10 ^ scale := by
  have hpos : (0 : ℚ) < 10 ^ scale := by positivity
  unfold numeric at h
  dsimp only at h
  split_ifs at h with hfits hneg
  · obtain rfl := Except.ok.inj h
    refine ⟨fun heq => ⟨-⌊|x| * 10 ^ scale + 1 / 2⌋, by rw [Int.cast_neg]; exact heq.symm⟩, ?_⟩
    rintro ⟨k, rfl⟩
    have hk : k < 0 := by
      have : (k : ℚ) < 0 := by simpa using (div_lt_iff₀ hpos).mp hneg
      exact_mod_cast this
    rw [scaled_floor, abs_of_neg hk, neg_neg]
  · obtain rfl := Except.ok.inj h
    refine ⟨fun heq => ⟨_, heq.symm⟩, ?_⟩
    rintro ⟨k, rfl⟩
    have hk : 0 ≤ k := by
      have : (0 : ℚ) ≤ k := by simpa using (le_div_iff₀ hpos).mp (not_lt.mp hneg)
      exact_mod_cast this
    rw [scaled_floor, abs_of_nonneg hk]

def numericOption (precision scale : ℕ) : Option ℚ → Except Js.HttpError (Option ℚ)
  | none => .ok none
  | some x => (numeric precision scale x).map some

inductive CreateKind
  | intake
  | consumption
  | transfer
  deriving DecidableEq

def CreateKind.toKind : CreateKind → StockMovementKind
  | .intake => .intake
  | .consumption => .consumption
  | .transfer => .transfer

structure CreateMovementInput where
  kind : CreateKind
  ingredientId : String
  warehouseId : String
  counterpartyId : Option String
  dt : Option String
  qty : ℚ
  unit : String
  unitPrice : Option ℚ
  supplier : Option String
  note : Option String
  createdBy : Option String
  clientKey : Option String
  batchId : Option String
  deriving DecidableEq

/-- What the database and the host supply when a row is written. -/
structure Written where
  id : String
  today : String
  actor : String
  deriving DecidableEq

def checkCounterparty (cards : List Entity) (input : CreateMovementInput) : Except Js.HttpError Unit :=
  if input.kind = .transfer then
    match input.counterpartyId.filter (· ≠ "") with
    | none => .error (.badRequest "Перемещение требует встречный склад")
    | some counterpartyId =>
      if counterpartyId = input.warehouseId then
        .error (.badRequest "Склад-источник и встречный совпадают")
      else (cardOfType cards counterpartyId "warehouse").map fun _ => ()
  else .ok ()

/-- The checks of `createMovement`. -/
def checkMovement (cards : List Entity) (input : CreateMovementInput) : Except Js.HttpError Unit := do
  Js.require (0 < input.qty) (.badRequest "Количество должно быть больше нуля")
  let unit ← Js.orThrow (QtyUnit.ofText input.unit) (.badRequest s!"Единица «{input.unit}» неизвестна")
  let ing ← stockCard cards input.ingredientId
  let _ ← cardOfType cards input.warehouseId "warehouse"
  checkCounterparty cards input
  match baseUnitOfCard ing with
  | none => .ok ()
  | some base =>
    Js.require (unit = base ∨ convertQty input.qty unit base ≠ none)
      (.badRequest s!"«{input.unit}» не перевести в базовую единицу ингредиента «{base.text}»")

/-- The row that `createMovement` is about to insert. -/
def movementRow (cards : List Entity) (input : CreateMovementInput) (w : Written) :
    Except Js.HttpError StockMovementRow := do
  checkMovement cards input
  let qty ← numeric 14 3 input.qty
  let unitPrice ← numericOption 15 2 input.unitPrice
  let total ← numericOption 15 2 (input.unitPrice.map (· * input.qty))
  return {
    id := w.id
    kind := input.kind.toKind
    ingredientId := input.ingredientId
    warehouseId := input.warehouseId
    counterpartyId := if input.kind = .transfer then input.counterpartyId else none
    batchId := input.batchId
    dt := input.dt.getD w.today
    qty
    unit := input.unit
    unitPrice
    total
    supplier := input.supplier
    source := "owner"
    note := input.note
    clientKey := input.clientKey
    createdBy := input.createdBy.getD w.actor }

theorem movementRow_clientKey {cards : List Entity} {input : CreateMovementInput} {w : Written}
    {row : StockMovementRow} (h : movementRow cards input w = .ok row) : row.clientKey = input.clientKey := by
  unfold movementRow at h
  obtain ⟨_, _, h⟩ := Js.bind_eq_ok.mp h
  obtain ⟨_, _, h⟩ := Js.bind_eq_ok.mp h
  obtain ⟨_, _, h⟩ := Js.bind_eq_ok.mp h
  obtain ⟨_, _, h⟩ := Js.bind_eq_ok.mp h
  cases h
  rfl

/-- The recorded movement of a client key. -/
def findKey (journal : List StockMovementRow) (clientKey : Option String) : Option StockMovementRow :=
  clientKey.bind fun key => journal.find? (·.clientKey = some key)

/-- `insert ... on conflict (client_key) do nothing`, then the row of the key: the new
row, or the one recorded before. -/
def insertMovement (journal : List StockMovementRow) (row : StockMovementRow) :
    List StockMovementRow × StockMovementRow :=
  match findKey journal row.clientKey with
  | some existing => (journal, existing)
  | none => (journal ++ [row], row)

structure PairBalance where
  warehouseName : String
  ingredientName : String
  baseUnit : Option QtyUnit
  qty : Option ℚ
  unconvertible : ℕ
  deriving DecidableEq

def pairBalance (cards : List Entity) (journal : List StockMovementRow) (warehouseId ingredientId : String) :
    Except Js.HttpError PairBalance := do
  let wh ← cardOfType cards warehouseId "warehouse"
  let ing ← stockCard cards ingredientId
  let base := baseUnitOfCard ing
  let b := base.map fun base => itemBalance journal ingredientId base (some warehouseId)
  return {
    warehouseName := wh.name
    ingredientName := ing.name
    baseUnit := base
    qty := b.map (·.qty)
    unconvertible := (b.map (·.unconvertible)).getD 0 }

structure StocktakeInput where
  warehouseId : String
  ingredientId : String
  actual : ℚ
  unit : Option String
  note : Option String
  countedBy : Option String
  clientKey : Option String
  deriving DecidableEq

structure StocktakeResult where
  changed : Bool
  before : ℚ
  actual : ℚ
  delta : ℚ
  unit : QtyUnit
  ingredientName : String
  warehouseName : String
  movementId : Option String
  deriving DecidableEq

/-- A stocktake between its reads and its insert. -/
structure StocktakeCall where
  input : StocktakeInput
  base : QtyUnit
  actualBase : ℚ
  before : ℚ
  delta : ℚ
  ingredientName : String
  warehouseName : String
  deriving DecidableEq

/-- The count in the base unit. -/
def actualInBase (input : StocktakeInput) (base : QtyUnit) : Except Js.HttpError ℚ :=
  match input.unit.filter fun u => u ≠ "" ∧ u ≠ base.text with
  | none => .ok input.actual
  | some unitText =>
    match QtyUnit.ofText unitText with
    | none => .error (.badRequest s!"Единица «{unitText}» неизвестна")
    | some unit =>
      match convertQty input.actual unit base with
      | none => .error (.badRequest s!"«{unitText}» не перевести в базовую единицу «{base.text}»")
      | some conv => .ok conv

/-- The first step of `stocktake`: the reads, and the difference they give. -/
def stocktakeRead (cards : List Entity) (journal : List StockMovementRow) (input : StocktakeInput) :
    Except Js.HttpError StocktakeCall := do
  Js.require (0 ≤ input.actual) (.badRequest "Фактическое количество не может быть отрицательным")
  let pair ← pairBalance cards journal input.warehouseId input.ingredientId
  let base ← Js.orThrow pair.baseUnit (.badRequest
    s!"У ингредиента «{pair.ingredientName}» не задана базовая единица — сначала укажите её, потом инвентаризация")
  Js.require (pair.unconvertible = 0) (.badRequest
    "Часть движений в несводимой единице — остаток неполон, инвентаризация дала бы неверную дельту. Сначала выправьте единицы.")
  let actualBase ← actualInBase input base
  let before := pair.qty.getD 0
  return {
    input, base, actualBase, before
    delta := round3 (actualBase - before)
    ingredientName := pair.ingredientName
    warehouseName := pair.warehouseName }

theorem pairBalance_spec {cards : List Entity} {journal : List StockMovementRow}
    {warehouseId ingredientId : String} {pair : PairBalance}
    (h : pairBalance cards journal warehouseId ingredientId = .ok pair) :
    pair.qty = pair.baseUnit.map fun base =>
      (itemBalance journal ingredientId base (some warehouseId)).qty := by
  unfold pairBalance at h
  obtain ⟨_, _, h⟩ := Js.bind_eq_ok.mp h
  obtain ⟨card, _, h⟩ := Js.bind_eq_ok.mp h
  cases h
  simp [Option.map_map, Function.comp_def]

/-- A read call counts against the balance of the journal it read. -/
theorem stocktakeRead_spec {cards : List Entity} {journal : List StockMovementRow} {input : StocktakeInput}
    {call : StocktakeCall} (h : stocktakeRead cards journal input = .ok call) :
    call.input = input ∧ call.delta = round3 (call.actualBase - call.before) ∧
      call.before = (itemBalance journal input.ingredientId call.base (some input.warehouseId)).qty := by
  unfold stocktakeRead at h
  obtain ⟨_, _, h⟩ := Js.bind_eq_ok.mp h
  obtain ⟨pair, hpair, h⟩ := Js.bind_eq_ok.mp h
  obtain ⟨base, hbase, h⟩ := Js.bind_eq_ok.mp h
  obtain ⟨_, _, h⟩ := Js.bind_eq_ok.mp h
  obtain ⟨actualBase, _, h⟩ := Js.bind_eq_ok.mp h
  cases h
  rw [Js.orThrow_eq_ok] at hbase
  have hqty := pairBalance_spec hpair
  rw [hbase] at hqty
  exact ⟨rfl, rfl, by rw [hqty]; rfl⟩

/-- The answer to a count that finds no difference; nothing is written. -/
def StocktakeCall.unchanged (call : StocktakeCall) : StocktakeResult :=
  ⟨false, call.before, call.actualBase, 0, call.base, call.ingredientName, call.warehouseName, none⟩

/-- The adjustment that the second step is about to insert. -/
def StocktakeCall.row (call : StocktakeCall) (w : Written) : Except Js.HttpError StockMovementRow :=
  (numeric 14 3 call.delta).map fun qty =>
    { id := w.id
      kind := .adjustment
      ingredientId := call.input.ingredientId
      warehouseId := call.input.warehouseId
      counterpartyId := none
      batchId := none
      dt := w.today
      qty
      unit := call.base.text
      unitPrice := none
      total := none
      supplier := none
      source := "stocktake"
      note := call.input.note
      clientKey := call.input.clientKey
      createdBy := call.input.countedBy.getD w.actor }

theorem StocktakeCall.row_clientKey {call : StocktakeCall} {w : Written} {row : StockMovementRow}
    (h : call.row w = .ok row) : row.clientKey = call.input.clientKey := by
  obtain ⟨qty, _, rfl⟩ := Js.map_eq_ok.mp h
  rfl

/-- The answer after the insert: from the row written, or from the one the key had already. -/
def StocktakeCall.written (call : StocktakeCall) (journal : List StockMovementRow) (row : StockMovementRow) :
    StocktakeResult :=
  match findKey journal call.input.clientKey with
  | some existing =>
    ⟨true, round3 (call.actualBase - existing.qty), call.actualBase, existing.qty, call.base,
      call.ingredientName, call.warehouseName, some existing.id⟩
  | none =>
    ⟨true, call.before, call.actualBase, call.delta, call.base, call.ingredientName, call.warehouseName,
      some row.id⟩

end Mydon.Stock
