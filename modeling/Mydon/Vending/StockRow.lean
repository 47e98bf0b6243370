import Mydon.Stock.Batch
import Mydon.Vending.Catalog
import Mathlib.Data.List.MinMax

/-! The stock rows of the vending goods. Every change of a row is written twice: in the row, and as a
movement of the product's card at the central warehouse. -/

namespace Mydon.Vending

open Mydon.Lib Mydon.Stock

/-- A row of `vending_stock`, of which the name is the key. -/
structure StockRow where
  productName : String
  productId : Option String
  quantity : ℤ
  countedAt : ℤ
  updatedAt : ℤ
  deriving DecidableEq

/-- A row of `vending_stock_count`. -/
structure CountRow where
  id : String
  dt : String
  productName : String
  productId : Option String
  qty : ℤ
  source : String
  countedAt : ℤ
  personId : Option String
  note : Option String
  reversesId : Option String
  createdAt : ℤ
  deriving DecidableEq

structure RefillRow where
  id : String
  machineId : Option String
  machineSerial : String
  coilId : Option String
  productId : Option String
  productName : String
  qty : ℤ
  personId : Option String
  taskId : Option String
  performedAt : ℤ
  clientKey : String
  source : String
  note : Option String
  createdBy : Option String
  reversesId : Option String
  createdAt : ℤ
  deriving DecidableEq

inductive OrderStatus
  | approved
  | ordered
  | received
  | cancelled
  deriving DecidableEq

/-- A position of an order, as its JSON gives it: no name where it is not a string, no number where
it is not a finite one. -/
structure Position where
  product : Option String
  order : Option ℚ
  price : Option ℚ
  deriving DecidableEq

structure OrderRow where
  id : String
  status : OrderStatus
  positions : List Position
  createdAt : ℤ
  distributedUnits : Option ℤ
  unmatchedDistribution : Option (List String)
  receivedAt : Option ℤ
  receivedBy : Option String
  deriving DecidableEq

structure Db where
  stock : List StockRow
  counts : List CountRow
  refills : List RefillRow
  orders : List OrderRow
  journal : List StockMovementRow
  deriving DecidableEq

/-- The catalogue, and the cards of the registry. -/
structure Registry where
  host : Js.Host
  catalog : Catalog
  cards : List Entity

/-- What the services read besides these tables. -/
structure VendingEnv extends Registry where
  persons : List String
  now : ℤ
  actor : String
  /-- `VENDING_STOCK_SOURCE` is `ledger`. -/
  ledgerSource : Bool
  /-- The rows that the database makes get these ids. -/
  ids : ℕ → String

/-! The ledger side. -/

def truthyWords : List String := ["да", "yes", "true", "1"]

def truthy (host : Js.Host) : Option Js.Json → Bool
  | some (.bool b) => b
  | some (.num n) => n = 1
  | some (.str s) => host.toLowerCase (Js.trim s) ∈ truthyWords
  | _ => false

/-- The warehouse marked for intake, or the only one there is. -/
def centralWarehouseId (host : Js.Host) (cards : List Entity) : Option String :=
  let whs := cards.filter (·.type = "warehouse")
  match whs.find? fun w => truthy host (OrderedMap.get w.attrs "приём по умолчанию") with
  | some flagged => some flagged.id
  | none =>
    match whs with
    | [w] => some w.id
    | _ => none

inductive ProjectedKind
  | intake
  | consumption
  | adjustment
  deriving DecidableEq

def ProjectedKind.toKind : ProjectedKind → StockMovementKind
  | .intake => .intake
  | .consumption => .consumption
  | .adjustment => .adjustment

structure VendingMovementInput where
  productId : Option String
  productName : String
  kind : ProjectedKind
  qty : ℚ
  dt : Option String
  note : Option String
  clientKey : String
  createdBy : Option String
  source : Option String
  deriving DecidableEq

structure Projected where
  written : Bool
  movementId : Option String
  reason : Option String
  deriving DecidableEq

/-- The movement of a change, under the card it belongs to. -/
def movementOf (env : VendingEnv) (input : VendingMovementInput) (cardId warehouseId id : String) :
    Except Js.HttpError StockMovementRow :=
  (numeric 14 3 (if input.kind = .adjustment then input.qty else |input.qty|)).map fun qty =>
    { id
      kind := input.kind.toKind
      ingredientId := cardId
      warehouseId
      counterpartyId := none
      batchId := none
      dt := input.dt.getD (Clock.dayText (Clock.tashkentDay env.now))
      qty
      unit := "шт"
      unitPrice := none
      total := none
      supplier := none
      source := input.source.getD "vending"
      note := input.note
      clientKey := some input.clientKey
      createdBy := input.createdBy.getD "system" }

/-- The second writing of a change: nothing where there is no card for it, or no central warehouse. -/
def projectVendingMovement (env : VendingEnv) (journal : List StockMovementRow) (input : VendingMovementInput)
    (id : String) : Except Js.HttpError (Projected × List StockMovementRow) :=
  match input.productId with
  | none => .ok (⟨false, none, some s!"«{input.productName}»: товара нет в прайсе"⟩, journal)
  | some productId =>
    if input.qty = 0 then .ok (⟨false, none, none⟩, journal)
    else
      match env.catalog.cardIdOf productId with
      | none => .ok (⟨false, none,
          some s!"«{input.productName}»: у товара нет карточки реестра (POST /stock/vending-cards)"⟩, journal)
      | some cardId =>
        match centralWarehouseId env.host env.cards with
        | none => .ok (⟨false, none, some "центральный склад не выбран («приём по умолчанию»)"⟩, journal)
        | some warehouseId =>
          (movementOf env input cardId warehouseId id).map fun row =>
            if (findKey journal row.clientKey).isSome then (⟨false, none, none⟩, journal)
            else (⟨true, some id, none⟩, journal ++ [row])

structure VendingCountInput where
  productId : Option String
  productName : String
  counted : ℤ
  dt : Option String
  clientKey : String
  createdBy : Option String
  deriving DecidableEq

structure ProjectedCount where
  written : Bool
  delta : ℚ
  reason : Option String
  deriving DecidableEq

/-- The adjustment of a count, from what the ledger has. -/
def countAdjustment (env : VendingEnv) (input : VendingCountInput) (before : ℚ) : VendingMovementInput where
  productId := input.productId
  productName := input.productName
  kind := .adjustment
  qty := round3 (input.counted - before)
  dt := input.dt
  note :=
    let was := env.host.numberText before
    let is_ := env.host.numberText input.counted
    some s!"пересчёт: было {was}, стало {is_}"
  clientKey := input.clientKey
  createdBy := input.createdBy
  source := some "vending-count"

/-- A count is an adjustment of the ledger from what the ledger has, not from what the row has. -/
def projectVendingCount (env : VendingEnv) (journal : List StockMovementRow) (input : VendingCountInput)
    (id : String) : Except Js.HttpError (ProjectedCount × List StockMovementRow) :=
  match input.productId with
  | none => .ok (⟨false, 0, some s!"«{input.productName}»: товара нет в прайсе"⟩, journal)
  | some productId =>
    match env.catalog.cardIdOf productId with
    | none => .ok (⟨false, 0,
        some s!"«{input.productName}»: у товара нет карточки реестра (POST /stock/vending-cards)"⟩, journal)
    | some cardId =>
      match centralWarehouseId env.host env.cards with
      | none => .ok (⟨false, 0, some "центральный склад не выбран («приём по умолчанию»)"⟩, journal)
      | some warehouseId =>
        let adjustment := countAdjustment env input (ledgerQty journal warehouseId cardId)
        if adjustment.qty = 0 then .ok (⟨false, 0, none⟩, journal)
        else
          (projectVendingMovement env journal adjustment id).map fun (res, journal) =>
            (⟨res.written, adjustment.qty, res.reason⟩, journal)

/-! The row side. -/

/-- An `integer` column. -/
def int4 (n : ℤ) : Except Js.HttpError ℤ :=
  if -2147483648 ≤ n ∧ n ≤ 2147483647 then .ok n else .error (.internal "integer out of range")

def findStock (stock : List StockRow) (name : String) : Option StockRow := stock.find? (·.productName = name)

/-- `insert into vending_stock ... on conflict (product_name) do update`: `merge` gives the new
quantity of the row that is there, and the rest of it. -/
def upsertStock (stock : List StockRow) (row : StockRow) (quantity : ℤ → ℤ) (merge : StockRow → StockRow) :
    Except Js.HttpError (List StockRow) := do
  let _ ← int4 row.quantity
  match findStock stock row.productName with
  | none => return stock ++ [row]
  | some old =>
    let q ← int4 (quantity old.quantity)
    return stock.map fun r =>
      if r.productName = row.productName then { merge r with productName := row.productName, quantity := q } else r

/-! `VendingService.ingestStock`. -/

structure StockItem where
  product : String
  quantity : ℤ
  deriving DecidableEq

structure IngestStockPayload where
  countedAt : Option ℤ
  personId : Option String
  items : List StockItem
  deriving DecidableEq

structure StockAdjustment where
  product : String
  before : ℤ
  after : ℤ
  delta : ℤ
  value : ℚ
  noPrice : Bool
  deriving DecidableEq

structure IngestStockResult where
  items : ℕ
  adjustments : List StockAdjustment
  deriving DecidableEq

/-- The last item of a product wins. -/
def finalByProduct (env : VendingEnv) (items : List StockItem) : List (String × ℤ) :=
  items.foldl (fun final it =>
    if Js.trim it.product = "" then final
    else OrderedMap.alter (fun _ => it.quantity) (env.catalog.resolveProduct env.host (Js.trim it.product)) final) []

def priceOf (c : Catalog) (name : String) : Option ℚ :=
  (c.products.reverse.find? fun p => p.name = name && p.purchasePrice.isSome).bind (·.purchasePrice)

/-- The row was counted later than this. -/
def isLate (stock : List StockRow) (countedAt : ℤ) (product : String) : Bool :=
  (findStock stock product).any fun prior => countedAt < prior.countedAt

def adjustmentOf (env : VendingEnv) (stock : List StockRow) (entry : String × ℤ) : Option StockAdjustment :=
  match findStock stock entry.1 with
  | none => none
  | some prior =>
    if prior.quantity = entry.2 then none
    else
      let delta := entry.2 - prior.quantity
      let price := priceOf env.catalog entry.1
      some ⟨entry.1, prior.quantity, entry.2, delta, (price.map fun p => (⌊|(delta : ℚ)| * p * 100 + 1 / 2⌋ : ℚ) / 100).getD 0,
        price.isNone⟩

def countInput (env : VendingEnv) (countedAt : ℤ) (entry : String × ℤ) : VendingCountInput where
  productId := env.catalog.productIdOf env.host entry.1
  productName := entry.1
  counted := entry.2
  dt := some (Clock.dayText (Clock.tashkentDay countedAt))
  clientKey := "vending-count:" ++ entry.1 ++ ":" ++ Clock.isoText countedAt
  createdBy := some env.actor

@[simp] theorem countInput_productId (env : VendingEnv) (countedAt : ℤ) (entry : String × ℤ) :
    (countInput env countedAt entry).productId = env.catalog.productIdOf env.host entry.1 := by
  rw [countInput]

/-- The counts of the products, one after the other; the n-th movement gets the n-th id. -/
def countAll (env : VendingEnv) (countedAt : ℤ) :
    ℕ → List StockMovementRow → List (String × ℤ) → Except Js.HttpError (List StockMovementRow)
  | _, journal, [] => .ok journal
  | n, journal, entry :: rest => do
    let (_, journal) ← projectVendingCount env journal (countInput env countedAt entry) (env.ids n)
    countAll env countedAt (n + 1) journal rest

/-- A row counted later is left out before, so that the guard of the update always holds. -/
def setStock (env : VendingEnv) (countedAt : ℤ) (stock : List StockRow) (entry : String × ℤ) :
    Except Js.HttpError (List StockRow) :=
  let productId := env.catalog.productIdOf env.host entry.1
  upsertStock stock ⟨entry.1, productId, entry.2, countedAt, countedAt⟩ (fun _ => entry.2) fun r =>
    { r with productId := productId.or r.productId, countedAt, updatedAt := countedAt }

def setAll (env : VendingEnv) (countedAt : ℤ) : List StockRow → List (String × ℤ) → Except Js.HttpError (List StockRow)
  | stock, [] => .ok stock
  | stock, entry :: rest => do
    let stock ← setStock env countedAt stock entry
    setAll env countedAt stock rest

/-- `insert into vending_stock_count ... on conflict (source, counted_at, product_name) where source = 'own'`. -/
def insertCount (counts : List CountRow) (row : CountRow) : List CountRow :=
  if counts.any fun r => r.source = "own" && r.countedAt = row.countedAt && r.productName = row.productName then counts
  else counts ++ [row]

def countRow (env : VendingEnv) (countedAt : ℤ) (personId : Option String) (entry : String × ℤ) (id : String) :
    CountRow where
  id
  dt := Clock.dayText (Clock.tashkentDay countedAt)
  productName := entry.1
  productId := env.catalog.productIdOf env.host entry.1
  qty := entry.2
  source := "own"
  countedAt
  personId
  note := some env.actor
  reversesId := none
  createdAt := env.now

def ingestStock (env : VendingEnv) (db : Db) (payload : IngestStockPayload) :
    Except Js.HttpError IngestStockResult × Db :=
  let countedAt := payload.countedAt.getD env.now
  let personId := payload.personId.filter (· ∈ env.persons)
  let applied := (finalByProduct env payload.items).filter fun entry => !isLate db.stock countedAt entry.1
  match countAll env countedAt 0 db.journal applied with
  | .error e => (.error e, db)
  | .ok journal =>
    match setAll env countedAt db.stock applied with
    | .error e => (.error e, db)
    | .ok stock =>
      (.ok ⟨payload.items.length, applied.filterMap (adjustmentOf env db.stock)⟩,
        { db with
          stock
          journal
          counts := (applied.zipIdx.map fun (entry, n) =>
            countRow env countedAt personId entry (env.ids (applied.length + n))).foldl insertCount db.counts })

/-! `VendingService.receiveOrder`. -/

structure ReceiveOrderResult where
  received : Bool
  orderId : Option String
  replenished : ℕ
  units : ℤ
  distributedUnits : ℤ
  unmatchedDistribution : List String
  reason : Option String
  deriving DecidableEq

/-- What was distributed of a product, by its key, and its name as it is shown. -/
abbrev Distribution := List (String × ℤ × String)

/-- Entries that are no whole number, or a negative one, are skipped; aliases of one product add up. -/
def distributionOf (env : VendingEnv) (distributed : List (String × Option ℚ)) : Distribution :=
  distributed.foldl (fun d entry =>
    let name := Js.trim entry.1
    match entry.2.filter fun qty => qty.isInt && 0 ≤ qty with
    | none => d
    | some qty =>
      if name = "" then d
      else
        let canon := env.catalog.resolveProduct env.host name
        OrderedMap.alter (fun old => ((old.map Prod.fst).getD 0 + qty.num, canon)) (normalizeProductName env.host canon) d) []

/-- A position that is received: its name and its whole quantity. -/
def positionOf (p : Position) : Option (String × ℤ) :=
  let product := Js.trim (p.product.getD "")
  let qty := ((p.order.map trunc).getD 0)
  if product = "" ∨ qty ≤ 0 then none else some (product, qty)

/-- What a position leaves for the warehouse, what of it was distributed, and what remains to distribute. -/
def distributeTo (env : VendingEnv) (d : Distribution) (position : String × ℤ) : ℤ × ℤ × Distribution :=
  let key := normalizeProductName env.host position.1
  match OrderedMap.get d key with
  | none => (position.2, 0, d)
  | some (requested, shown) =>
    let dist := min position.2 (max 0 requested)
    (position.2 - dist, dist, OrderedMap.alter (fun _ => (max 0 (requested - dist), shown)) key d)

/-- What of the positions comes to the warehouse, by name. -/
def deliveries (env : VendingEnv) : Distribution → List (String × ℤ) → List (String × ℤ)
  | _, [] => []
  | d, position :: rest =>
    let (toWarehouse, _, d) := distributeTo env d position
    if toWarehouse ≤ 0 then deliveries env d rest else (position.1, toWarehouse) :: deliveries env d rest

def distributedTotal (env : VendingEnv) : Distribution → List (String × ℤ) → ℤ
  | _, [] => 0
  | d, position :: rest =>
    let (_, dist, d) := distributeTo env d position
    dist + distributedTotal env d rest

/-- The second writing of a delivery. -/
def orderMovement (env : VendingEnv) (orderId receivedBy : String) (delivery : String × ℤ) : VendingMovementInput where
  productId := env.catalog.productIdOf env.host delivery.1
  productName := delivery.1
  kind := .intake
  qty := delivery.2
  dt := some (Clock.dayText (Clock.tashkentDay env.now))
  note := let short := Js.take 8 orderId; some s!"накладная {short}, принял {receivedBy}"
  clientKey := "vending-order:" ++ orderId ++ ":" ++ normalizeProductName env.host delivery.1
  createdBy := some receivedBy
  source := some "vending-order"

@[simp] theorem orderMovement_productId (env : VendingEnv) (orderId receivedBy : String) (delivery : String × ℤ) :
    (orderMovement env orderId receivedBy delivery).productId = env.catalog.productIdOf env.host delivery.1 := by
  rw [orderMovement]

def addStock (env : VendingEnv) (stock : List StockRow) (delivery : String × ℤ) : Except Js.HttpError (List StockRow) :=
  upsertStock stock ⟨delivery.1, none, delivery.2, env.now, env.now⟩ (· + delivery.2) fun r =>
    { r with countedAt := env.now, updatedAt := env.now }

/-- The deliveries, one after the other; the n-th movement gets the n-th id. -/
def deliverAll (env : VendingEnv) (orderId receivedBy : String) :
    ℕ → List StockRow × List StockMovementRow → List (String × ℤ) →
      Except Js.HttpError (List StockRow × List StockMovementRow)
  | _, s, [] => .ok s
  | n, (stock, journal), delivery :: rest => do
    let stock ← addStock env stock delivery
    let (_, journal) ← projectVendingMovement env journal (orderMovement env orderId receivedBy delivery) (env.ids n)
    deliverAll env orderId receivedBy (n + 1) (stock, journal) rest

def isOpen (o : OrderRow) : Bool := o.status = .approved || o.status = .ordered

/-- The order asked for, or the latest one that is not received. -/
def findOrder (orders : List OrderRow) (orderId : Option String) : Option OrderRow :=
  match orderId.filter (· ≠ "") with
  | some id => orders.find? (·.id = id)
  | none => @List.argmax _ ℤ Int.instLinearOrder.toPreorder inferInstance OrderRow.createdAt (orders.filter isOpen)

def notReceived (reason : String) : ReceiveOrderResult := ⟨false, none, 0, 0, 0, [], some reason⟩

def receiveOrder (env : VendingEnv) (db : Db) (orderId : Option String) (receivedBy : String)
    (distributed : List (String × Option ℚ)) : Except Js.HttpError ReceiveOrderResult × Db :=
  let d := distributionOf env distributed
  match findOrder db.orders orderId with
  | none => (.ok (notReceived "Непринятых накладных нет."), db)
  | some order =>
    match order.status with
    | .received => (.ok (notReceived "Эта накладная уже принята."), db)
    | .cancelled => (.ok (notReceived "Эта накладная отменена — приёмка невозможна."), db)
    | _ =>
      let positions := order.positions.filterMap positionOf
      let delivered := deliveries env d positions
      match deliverAll env order.id receivedBy 0 (db.stock, db.journal) delivered with
      | .error e => (.error e, db)
      | .ok (stock, journal) =>
        let distributedUnits := distributedTotal env d positions
        let keys := positions.map fun position => normalizeProductName env.host position.1
        let unmatched := (d.filter fun entry => entry.1 ∉ keys).map fun entry => entry.2.2
        (.ok ⟨true, some order.id, delivered.length, (delivered.map Prod.snd).sum, distributedUnits, unmatched, none⟩,
          { db with
            stock
            journal
            orders := db.orders.map fun o =>
              if o.id = order.id then
                { o with
                  status := .received
                  receivedAt := some env.now
                  receivedBy := some receivedBy
                  distributedUnits := some distributedUnits
                  unmatchedDistribution := some unmatched }
              else o })

/-! `RefillService.create`. -/

structure CreateRefillInput where
  machineSerial : String
  machineId : Option String
  coilId : Option String
  productName : String
  qty : ℤ
  personId : Option String
  taskId : Option String
  performedAt : Option ℤ
  clientKey : String
  source : Option String
  note : Option String
  createdBy : Option String
  deriving DecidableEq

structure CreateRefillResult where
  refill : RefillRow
  stockLeft : Option ℚ
  duplicate : Bool
  deriving DecidableEq

/-- A refill is written with a positive quantity, a reversal with a negative one. -/
def checkQty (row : RefillRow) : Except Js.HttpError Unit := do
  let _ ← int4 row.qty
  Js.require ((row.source = "storno" ∧ row.qty < 0) ∨ (row.source ≠ "storno" ∧ 0 < row.qty))
    (.internal "violates check constraint: vending_refill_qty_positive")

def findRefillKey (refills : List RefillRow) (clientKey : String) : Option RefillRow :=
  refills.find? (·.clientKey = clientKey)

def refillRow (env : VendingEnv) (input : CreateRefillInput) (ref : String × Option String) : RefillRow where
  id := env.ids 0
  machineId := input.machineId
  machineSerial := input.machineSerial
  coilId := input.coilId
  productId := ref.2
  productName := ref.1
  qty := input.qty
  personId := input.personId
  taskId := input.taskId
  performedAt := input.performedAt.getD env.now
  clientKey := input.clientKey
  source := input.source.getD "bot"
  note := input.note
  createdBy := some (input.createdBy.getD env.actor)
  reversesId := none
  createdAt := env.now

def refillMovement (row : RefillRow) : VendingMovementInput where
  productId := row.productId
  productName := row.productName
  kind := .consumption
  qty := row.qty
  dt := some (Js.take 10 (Clock.isoText row.performedAt))
  note := some s!"заливка автомата {row.machineSerial}"
  clientKey := "vending-refill:" ++ row.id
  createdBy := row.createdBy
  source := none

/-- The stock of a product, from where it is read today. -/
def stockLeft (env : VendingEnv) (db : Db) (ref : String × Option String) : Option ℚ :=
  if env.ledgerSource then do
    let warehouseId ← centralWarehouseId env.host env.cards
    let cardId ← ref.2.bind env.catalog.cardIdOf
    return ledgerQty db.journal warehouseId cardId
  else (findStock db.stock ref.1).map fun r => r.quantity

/-- The transaction of a refill whose key is new. -/
def refillTx (env : VendingEnv) (db : Db) (row : RefillRow) : Except Js.HttpError Db := do
  checkQty row
  let stock ← upsertStock db.stock ⟨row.productName, row.productId, -row.qty, row.performedAt, env.now⟩ (· - row.qty)
    fun r => { r with updatedAt := env.now }
  let (_, journal) ← projectVendingMovement env db.journal (refillMovement row) (env.ids 1)
  return { db with stock, journal, refills := db.refills ++ [row] }

def createRefill (env : VendingEnv) (db : Db) (input : CreateRefillInput) :
    Except Js.HttpError CreateRefillResult × Db :=
  match env.catalog.resolveProductRef env.host input.productName with
  | .error e => (.error e, db)
  | .ok ref =>
    match findRefillKey db.refills input.clientKey with
    | some existing => (.ok ⟨existing, stockLeft env db ref, true⟩, db)
    | none =>
      match refillTx env db (refillRow env input ref) with
      | .error e => (.error e, db)
      | .ok db => (.ok ⟨refillRow env input ref, stockLeft env db ref, false⟩, db)

/-! `RecordCancelService.cancel`; the cash sessions are a table of their own. -/

inductive CancelKind
  | refill
  | stockCount
  deriving DecidableEq

structure CancelActor where
  personId : String
  ref : String
  isAdmin : Bool
  deriving DecidableEq

inductive CancelResult
  | done (stornoId : String) (alreadyCancelled : Bool)
  | notFound
  | notYours
  | tooOld (hours : ℤ)
  deriving DecidableEq

def denied (actor : CancelActor) (isAuthor : Bool) (createdAt now hours : ℤ) : Option CancelResult :=
  if actor.isAdmin then none
  else if !isAuthor then some .notYours
  else if hours * 3600000 < now - createdAt then some (.tooOld hours)
  else none

def stornoRow (env : VendingEnv) (actor : CancelActor) (original : RefillRow) : RefillRow :=
  { original with
    id := env.ids 0
    qty := -original.qty
    personId := some actor.personId
    performedAt := env.now
    clientKey := "storno:" ++ original.id
    source := "storno"
    createdBy := some actor.ref
    reversesId := some original.id
    createdAt := env.now }

def stornoMovement (original : RefillRow) : VendingMovementInput where
  productId := original.productId
  productName := original.productName
  kind := .adjustment
  qty := original.qty
  dt := none
  note := let short := Js.take 8 original.id; some s!"сторно заливки {short}"
  clientKey := "vending-refill-storno:" ++ original.id
  createdBy := original.createdBy
  source := none

/-- The transaction of a reversal whose key is new. -/
def stornoTx (env : VendingEnv) (db : Db) (actor : CancelActor) (original : RefillRow) : Except Js.HttpError Db := do
  checkQty (stornoRow env actor original)
  let stock ← upsertStock db.stock ⟨original.productName, original.productId, original.qty, env.now, env.now⟩
    (· + original.qty) fun r => { r with productId := r.productId.or original.productId, updatedAt := env.now }
  let (_, journal) ← projectVendingMovement env db.journal (stornoMovement original) (env.ids 1)
  return { db with stock, journal, refills := db.refills ++ [stornoRow env actor original] }

def cancelRefill (env : VendingEnv) (db : Db) (id : String) (actor : CancelActor) (hours : ℤ) :
    Except Js.HttpError CancelResult × Db :=
  match db.refills.find? (·.id = id) with
  | none => (.ok .notFound, db)
  | some original =>
    if original.source = "storno" then (.ok .notFound, db)
    else
      match denied actor (original.createdBy = some actor.ref) original.createdAt env.now hours with
      | some refused => (.ok refused, db)
      | none =>
        match findRefillKey db.refills ("storno:" ++ original.id) with
        | some existing => (.ok (.done existing.id true), db)
        | none =>
          match stornoTx env db actor original with
          | .error e => (.error e, db)
          | .ok db => (.ok (.done (env.ids 0) false), db)

/-- The counts of one inventory: one moment, one person. -/
def countGroup (counts : List CountRow) (original : CountRow) : List CountRow :=
  counts.filter fun r => r.source = "own" && r.countedAt = original.countedAt && r.personId = original.personId

/-- The marks of a reversed inventory; a row has one mark at most. -/
def stornoCounts (env : VendingEnv) : ℕ → List CountRow → List CountRow → List CountRow
  | _, counts, [] => counts
  | n, counts, row :: rest =>
    let counts :=
      if counts.any fun r => r.source = "storno" && r.reversesId = some row.id then counts
      else counts ++ [{ row with
        id := env.ids n
        source := "storno"
        note := some "отмена"
        reversesId := some row.id
        createdAt := env.now }]
    stornoCounts env (n + 1) counts rest

/-- A reversed inventory is marked; the stock stays as it was counted. -/
def cancelStockCount (env : VendingEnv) (db : Db) (id : String) (actor : CancelActor) (hours : ℤ) :
    Except Js.HttpError CancelResult × Db :=
  match db.counts.find? (·.id = id) with
  | none => (.ok .notFound, db)
  | some original =>
    if original.source ≠ "own" then (.ok .notFound, db)
    else
      match denied actor (original.personId = some actor.personId) original.createdAt env.now hours with
      | some refused => (.ok refused, db)
      | none =>
        let counts := stornoCounts env 0 db.counts (countGroup db.counts original)
        let created := counts.drop db.counts.length
        match created with
        | [] =>
          let existing := db.counts.find? fun r => r.source = "storno" && r.reversesId = some original.id
          (.ok (.done ((existing.map (·.id)).getD original.id) true), db)
        | first :: _ => (.ok (.done first.id false), { db with counts })

def cancel (env : VendingEnv) (db : Db) (kind : CancelKind) (id : String) (actor : CancelActor) (hours : ℤ) :
    Except Js.HttpError CancelResult × Db :=
  match kind with
  | .refill => cancelRefill env db id actor hours
  | .stockCount => cancelStockCount env db id actor hours

end Mydon.Vending
