import Mydon.Clock
import Mydon.Lib.Table
import Mydon.Stock.StockService

/-! Batches of goods. A batch is a row of its own table, and the movement that took it
in carries its id; the stock itself is read from the movements only. -/

namespace Mydon.Stock

open Mydon.Lib

structure StockBatch where
  id : String
  ingredientId : String
  warehouseId : String
  batchCode : Option String
  expiryDate : Option String
  manufactureDate : Option String
  receivedOn : String
  qtyReceived : ℚ
  unit : String
  openedOn : Option String
  openedBy : Option String
  personId : Option String
  supplierId : Option String
  invoiceNo : Option String
  invoiceDate : Option String
  ikpu : Option String
  unitPriceNet : Option ℚ
  vatRate : Option ℚ
  unitPriceGross : Option ℚ
  baseUnitSnapshot : Option QtyUnit
  packageWeightSnapshot : Option ℤ
  source : String
  extId : Option String
  note : Option String
  deriving DecidableEq

/-- The two tables of the stock. -/
structure Tables where
  batches : List StockBatch
  journal : List StockMovementRow
  deriving DecidableEq

/-- What the service reads besides its two tables. -/
structure StockEnv where
  host : Js.Host
  cards : List Entity
  persons : List String
  /-- The text that a `date` column gives back for an input it takes. -/
  date : String → Option String
  /-- `new Date(text).getTime()`, for a text that is a date. -/
  time : String → Option ℤ
  today : ℤ
  actor : String

def Tables.findBatch (t : Tables) (id : String) : Option StockBatch := Table.lookup StockBatch.id t.batches id

/-! Suppliers. -/

def LEGAL_FORMS : List String :=
  ["mchj", "xk", "qk", "ooo", "ооо", "llc", "ltd", "мчж", "хк", "оао", "зао", "аж", "aj", "чп", "ip", "yatt", "ятт"]

/-- `replace(/\([^)]*\)/g, " ")`; `fuel` bounds the number of steps. -/
def dropNotes : ℕ → List Char → List Char
  | 0, cs => cs
  | _, [] => []
  | fuel + 1, c :: cs =>
    match (if c = '(' then cs.dropWhile (· ≠ ')') else []) with
    | _ :: rest => ' ' :: dropNotes fuel rest
    | [] => c :: dropNotes fuel cs

def isQuote (c : Char) : Bool := c ∈ ['«', '»', '"', '\'', Char.ofNat 0x60]

def isWordEnd (c : Char) : Bool := Js.isSpace c || c == ',' || c == '.'

def normalizeContractorName (host : Js.Host) (raw : String) : String :=
  let withoutNote := dropNotes raw.toList.length raw.toList
  let withoutQuotes := Js.replaceAll isQuote ' ' withoutNote
  let words := (host.toLowerCase (String.ofList withoutQuotes)).toList.splitBy fun a b => isWordEnd a == isWordEnd b
  " ".intercalate ((words.filter fun w => !w.any isWordEnd).map String.ofList |>.filter (· ∉ LEGAL_FORMS))

/-- The one contractor of the name, where there is exactly one. -/
def matchContractorByName (host : Js.Host) (supplier : String) (contractors : List Entity) : Option Entity :=
  let key := normalizeContractorName host supplier
  if key = "" then none
  else
    match contractors.filter fun c => normalizeContractorName host c.name = key with
    | [hit] => some hit
    | _ => none

def matchSupplier (env : StockEnv) (name : Option String) : Option String :=
  let raw := Js.trim (name.getD "")
  if raw = "" then none
  else (matchContractorByName env.host raw (env.cards.filter (·.type = "contractor"))).map (·.id)

/-! Expiry, and what is left of a batch. -/

inductive ExpiryFlag
  | expired
  | expiring
  | ok
  | none
  deriving DecidableEq

def DEFAULT_EXPIRING_DAYS : ℤ := 14

/-- The largest moment that a `Date` holds, in milliseconds. -/
def MAX_TIME : ℤ := 8640000000000000

/-- `new Date(ms)`; a moment out of range is no date. -/
def timeClip (ms : ℤ) : Option ℤ := if |ms| ≤ MAX_TIME then some ms else none

/-- `Math.trunc`. -/
def trunc (x : ℚ) : ℤ := if x < 0 then -⌊-x⌋ else ⌊x⌋

/-- No expiry, or a `Date`, which may be an invalid one. -/
def effectiveExpiry (expiryAt manufactureAt : Option (Option ℤ)) (receivedAt : Option ℤ)
    (shelfLifeDays : Option ℚ) : Option (Option ℤ) :=
  match expiryAt, shelfLifeDays with
  | some at_, _ => some at_
  | none, none => none
  | none, some days =>
    if days ≤ 0 then none
    else some ((manufactureAt.getD receivedAt).bind fun start => timeClip (start + trunc days * Clock.DAY_MS))

/-- An invalid date compares false with everything. -/
def expiryFlag (expiry : Option (Option ℤ)) (now : ℤ) : ExpiryFlag :=
  match expiry with
  | none => .none
  | some none => .ok
  | some (some at_) =>
    if at_ - now < 0 then .expired
    else if at_ - now ≤ DEFAULT_EXPIRING_DAYS * Clock.DAY_MS then .expiring
    else .ok

def strictNumber (host : Js.Host) : Option Js.Json → Option ℚ
  | some (.num n) => some n
  | some (.str s) => if Js.trim s = "" then none else host.number (Js.trim s)
  | _ => none

/-- `expiry` is the moment whose date is shown. -/
structure BatchRow where
  id : String
  ingredientId : String
  ingredientName : String
  warehouseId : String
  warehouseName : String
  batchCode : Option String
  receivedOn : String
  qtyReceived : ℚ
  unit : String
  remaining : ℚ
  expiry : Option ℤ
  flag : ExpiryFlag
  opened : Bool
  openedOn : Option String
  supplierId : Option String
  supplierName : Option String
  supplierRaw : Option String
  invoiceNo : Option String
  invoiceDate : Option String
  unitPriceGross : Option ℚ
  note : Option String
  source : String
  deriving DecidableEq

structure BatchFilter where
  ingredientId : Option String
  warehouseId : Option String
  ids : Option (List String)

def isPresent (value : Option String) : Bool := value.any (· ≠ "")

/-- The movements of a kind that carry the batch. -/
def batchMovements (journal : List StockMovementRow) (kind : StockMovementKind) (batchId : String) :
    List StockMovementRow := journal.filter fun m => m.kind = kind && m.batchId = some batchId

def consumed (journal : List StockMovementRow) (batchId : String) : ℚ :=
  ((batchMovements journal .consumption batchId).map (·.qty)).sum

def remaining (journal : List StockMovementRow) (b : StockBatch) : ℚ :=
  round3 (b.qtyReceived - consumed journal b.id)

def batchExpiry (env : StockEnv) (b : StockBatch) : Option (Option ℤ) :=
  effectiveExpiry ((b.expiryDate.filter (· ≠ "")).map env.time) ((b.manufactureDate.filter (· ≠ "")).map env.time)
    (env.time b.receivedOn)
    (strictNumber env.host ((findCard env.cards b.ingredientId).bind fun c =>
      OrderedMap.get c.attrs "срок годности, дней"))

/-- `expiry.toISOString()` of an invalid date throws. -/
def shownExpiry : Option (Option ℤ) → Except Js.HttpError (Option ℤ)
  | none => .ok none
  | some (some at_) => .ok (some at_)
  | some none => .error (.internal "Invalid time value")

def batchRow (env : StockEnv) (t : Tables) (b : StockBatch) : Except Js.HttpError BatchRow := do
  let expiry ← shownExpiry (batchExpiry env b)
  return {
    id := b.id
    ingredientId := b.ingredientId
    ingredientName := ((findCard env.cards b.ingredientId).map (·.name)).getD "ингредиент"
    warehouseId := b.warehouseId
    warehouseName := ((findCard env.cards b.warehouseId).map (·.name)).getD "склад"
    batchCode := b.batchCode
    receivedOn := b.receivedOn
    qtyReceived := b.qtyReceived
    unit := b.unit
    remaining := remaining t.journal b
    expiry
    flag := expiryFlag (batchExpiry env b) (env.today * Clock.DAY_MS)
    opened := b.openedOn.isSome
    openedOn := b.openedOn
    supplierId := b.supplierId
    supplierName := (b.supplierId.bind (findCard env.cards)).map (·.name)
    supplierRaw := ((batchMovements t.journal .intake b.id).map fun m => Js.trim (m.supplier.getD "")).find? (· ≠ "")
    invoiceNo := b.invoiceNo
    invoiceDate := b.invoiceDate
    unitPriceGross := b.unitPriceGross
    note := b.note
    source := b.source }

def batchMatches (f : BatchFilter) (b : StockBatch) : Bool :=
  f.ids.all (b.id ∈ ·) && (!isPresent f.ingredientId || f.ingredientId = some b.ingredientId) &&
    (!isPresent f.warehouseId || f.warehouseId = some b.warehouseId)

def computeBatchRows (env : StockEnv) (t : Tables) (f : BatchFilter) : Except Js.HttpError (List BatchRow) :=
  (t.batches.filter (batchMatches f)).mapM (batchRow env t)

/-- `const [row] = await this.computeBatchRows({ ids: [id] })`. -/
def batchRowOf (env : StockEnv) (t : Tables) (id : String) : Except Js.HttpError (Option BatchRow) :=
  (computeBatchRows env t ⟨none, none, some [id]⟩).map (·.head?)

/-! Taking a batch in. -/

structure CreateBatchInput where
  ingredientId : String
  warehouseId : String
  qtyReceived : ℚ
  unit : String
  receivedOn : Option String
  batchCode : Option String
  expiryDate : Option String
  manufactureDate : Option String
  personId : Option String
  supplier : Option String
  invoiceNo : Option String
  invoiceDate : Option String
  ikpu : Option String
  unitPriceNet : Option ℚ
  vatRate : Option ℚ
  unitPriceGross : Option ℚ
  note : Option String
  source : Option String
  extId : Option String
  createdBy : Option String
  clientKey : Option String
  closeOn : Option String
  deriving DecidableEq

/-- A batch that is checked and not yet written. -/
structure NewBatch where
  unit : QtyUnit
  base : Option QtyUnit
  source : String
  supplierId : Option String
  unitPriceGross : Option ℚ
  qtyReceived : ℚ
  receivedOn : String
  packageWeightSnapshot : Option ℤ
  deriving DecidableEq

inductive Prepared
  | existing (row : BatchRow)
  | new (prep : NewBatch)
  deriving DecidableEq

/-- The quantity, its unit, and how many of them one piece is. -/
structure Packed where
  qty : ℚ
  unit : QtyUnit
  priceScale : ℚ

/-- Pieces of a card kept by weight are turned into weight by the weight of the package. -/
def packedQty (qty : ℚ) (unit : QtyUnit) (base : Option QtyUnit) (name : String) (packageWeight : Option ℚ) :
    Except Js.HttpError Packed :=
  match base with
  | none => .ok ⟨qty, unit, 1⟩
  | some base =>
    if unit ≠ base ∧ unit = .piece ∧ convertQty 1 .gram base ≠ none then
      match packageWeight.filter (0 < ·) with
      | none => .error (.badRequest s!"«шт» не перевести в «{base.text}»: у карточки «{name}» не указан вес упаковки, г")
      | some weight =>
        match convertQty (qty * weight) .gram base with
        | none => .error (.badRequest s!"«шт» не перевести в базовую единицу ингредиента «{base.text}»")
        | some converted => .ok ⟨converted, base, converted / qty⟩
    else if unit ≠ base ∧ convertQty qty unit base = none then
      .error (.badRequest s!"«{unit.text}» не перевести в базовую единицу ингредиента «{base.text}»")
    else .ok ⟨qty, unit, 1⟩

def checkPrice (what : String) (price : Option ℚ) : Except Js.HttpError Unit :=
  Js.require (price.all fun p => 0 ≤ p) (.badRequest s!"Цена {what} не может быть отрицательной — похоже на опечатку")

/-- The checks of a batch that look at no table but the cards, and what they find. -/
def checkBatch (env : StockEnv) (input : CreateBatchInput) :
    Except Js.HttpError (Packed × Option QtyUnit × Option ℚ) := do
  Js.require (0 < input.qtyReceived) (.badRequest "Количество партии должно быть больше нуля")
  checkPrice "без НДС" input.unitPriceNet
  checkPrice "с НДС" input.unitPriceGross
  Js.require (input.vatRate.all fun r => 0 ≤ r) (.badRequest "Ставка НДС не может быть отрицательной")
  let unit ← Js.orThrow (QtyUnit.ofText input.unit) (.badRequest s!"Единица «{input.unit}» неизвестна")
  let ing ← stockCard env.cards input.ingredientId
  let _ ← cardOfType env.cards input.warehouseId "warehouse"
  let base := baseUnitOfCard ing
  let packageWeightRaw := strictNumber env.host (OrderedMap.get ing.attrs "вес упаковки, г")
  let packed ← packedQty input.qtyReceived unit base ing.name packageWeightRaw
  Js.require ((input.personId.filter (· ≠ "")).all (· ∈ env.persons))
    (.notFound (let id := input.personId.getD ""; s!"Сотрудник {id} не найден"))
  return (packed, base, packageWeightRaw)

/-- The batch of a repeated client key; a key used without a batch is refused. -/
def repeatOfClientKey (env : StockEnv) (t : Tables) (input : CreateBatchInput) :
    Except Js.HttpError (Option BatchRow) :=
  match findKey t.journal (input.clientKey.filter (· ≠ "")) with
  | none => .ok none
  | some already => do
    let row ← match already.batchId.filter (· ≠ "") with
      | some batchId => batchRowOf env t batchId
      | none => .ok none
    match row with
    | some row => .ok (some row)
    | none => .error (.badRequest
        "Этот ключ идемпотентности уже занят приходом без партии — повторите с другим ключом")

def findExt (t : Tables) (source extId : String) : Option StockBatch :=
  t.batches.find? fun b => b.source = source && b.extId = some extId

def sourceOf (input : CreateBatchInput) : String := input.source.getD "manual"

def repeatOfExtId (env : StockEnv) (t : Tables) (input : CreateBatchInput) :
    Except Js.HttpError (Option BatchRow) :=
  match (input.extId.filter (· ≠ "")).bind (findExt t (sourceOf input)) with
  | none => .ok none
  | some already => batchRowOf env t already.id

/-- The gross price: as given, or from the net price and the rate. -/
def grossPrice (input : CreateBatchInput) : Option ℚ :=
  match input.unitPriceGross, input.unitPriceNet, input.vatRate with
  | some gross, _, _ => some gross
  | none, some net, some rate => some (net * (1 + rate / 100))
  | _, _, _ => none

/-- `Math.round`. -/
def roundInt (x : ℚ) : ℤ := ⌊x + 1 / 2⌋

def newBatch (env : StockEnv) (input : CreateBatchInput) (packed : Packed) (base : Option QtyUnit)
    (packageWeightRaw : Option ℚ) : NewBatch where
  unit := packed.unit
  base
  source := sourceOf input
  supplierId := matchSupplier env input.supplier
  unitPriceGross := (grossPrice input).map fun gross =>
    if packed.priceScale ≠ 1 then gross / packed.priceScale else gross
  qtyReceived := packed.qty
  receivedOn := input.receivedOn.getD (Clock.dayText env.today)
  packageWeightSnapshot := packageWeightRaw.map roundInt

def prepareBatch (env : StockEnv) (t : Tables) (input : CreateBatchInput) : Except Js.HttpError Prepared := do
  let (packed, base, packageWeightRaw) ← checkBatch env input
  match ← repeatOfClientKey env t input with
  | some row => return .existing row
  | none =>
    match ← repeatOfExtId env t input with
    | some row => return .existing row
    | none => return .new (newBatch env input packed base packageWeightRaw)

/-! Writing. -/

/-- A text that a `date` column takes. -/
def dateColumn (env : StockEnv) (text : String) : Except Js.HttpError String :=
  Js.orThrow (env.date text) (.internal s!"invalid input syntax for type date: {text}")

def dateOption (env : StockEnv) : Option String → Except Js.HttpError (Option String)
  | none => .ok none
  | some text => (dateColumn env text).map some

/-- An `integer` column. -/
def integerColumn : Option ℤ → Except Js.HttpError (Option ℤ)
  | none => .ok none
  | some n =>
    if -2147483648 ≤ n ∧ n ≤ 2147483647 then .ok (some n) else .error (.internal "integer out of range")

/-- The ids that the database makes for the rows of one batch. -/
structure BatchIds where
  batch : String
  intake : String
  closing : String
  deriving DecidableEq

/-- The row of a new batch, as its columns store it. -/
def batchValues (env : StockEnv) (input : CreateBatchInput) (prep : NewBatch) (id : String) :
    Except Js.HttpError StockBatch := do
  let expiryDate ← dateOption env input.expiryDate
  let manufactureDate ← dateOption env input.manufactureDate
  let receivedOn ← dateColumn env prep.receivedOn
  let qtyReceived ← numeric 14 3 prep.qtyReceived
  let invoiceDate ← dateOption env input.invoiceDate
  let unitPriceNet ← numericOption 14 4 input.unitPriceNet
  let vatRate ← numericOption 5 2 input.vatRate
  let unitPriceGross ← numericOption 14 4 prep.unitPriceGross
  let packageWeightSnapshot ← integerColumn prep.packageWeightSnapshot
  return {
    id
    ingredientId := input.ingredientId
    warehouseId := input.warehouseId
    batchCode := input.batchCode
    expiryDate
    manufactureDate
    receivedOn
    qtyReceived
    unit := prep.unit.text
    openedOn := none
    openedBy := none
    personId := input.personId
    supplierId := prep.supplierId
    invoiceNo := input.invoiceNo
    invoiceDate
    ikpu := input.ikpu
    unitPriceNet
    vatRate
    unitPriceGross
    baseUnitSnapshot := prep.base
    packageWeightSnapshot
    source := prep.source
    extId := input.extId
    note := input.note }

/-- The intake of a new batch. -/
def intakeValues (env : StockEnv) (input : CreateBatchInput) (prep : NewBatch) (ids : BatchIds) :
    Except Js.HttpError StockMovementRow := do
  let dt ← dateColumn env prep.receivedOn
  let qty ← numeric 14 3 prep.qtyReceived
  let unitPrice ← numericOption 15 2 prep.unitPriceGross
  let total ← numericOption 15 2 (prep.unitPriceGross.map (· * prep.qtyReceived))
  return {
    id := ids.intake
    kind := .intake
    ingredientId := input.ingredientId
    warehouseId := input.warehouseId
    counterpartyId := none
    batchId := some ids.batch
    dt
    qty
    unit := prep.unit.text
    unitPrice
    total
    supplier := input.supplier
    source := "owner"
    note := input.note
    clientKey := input.clientKey
    createdBy := input.createdBy.getD env.actor }

/-- The consumption that closes a batch as it comes in. -/
def closingValues (env : StockEnv) (input : CreateBatchInput) (prep : NewBatch) (ids : BatchIds) (closeOn : String) :
    Except Js.HttpError StockMovementRow := do
  let dt ← dateColumn env closeOn
  let qty ← numeric 14 3 prep.qtyReceived
  return {
    id := ids.closing
    kind := .consumption
    ingredientId := input.ingredientId
    warehouseId := input.warehouseId
    counterpartyId := none
    batchId := some ids.batch
    dt
    qty
    unit := prep.unit.text
    unitPrice := none
    total := none
    supplier := none
    source := "owner"
    note := some s!"израсходовано до инвентаризации {closeOn}, точная дата неизвестна"
    clientKey := none
    createdBy := "import" }

/-- `insert into stock_batch`, under its primary key and its two unique indexes. -/
def insertBatch (t : Tables) (b : StockBatch) : Except Js.HttpError Tables := do
  Js.require (∀ r ∈ t.batches, r.id ≠ b.id) (.internal "duplicate key value: stock_batch_pkey")
  Js.require (b.batchCode.isSome → ∀ r ∈ t.batches, ¬ (r.ingredientId = b.ingredientId ∧ r.batchCode = b.batchCode))
    (.internal "duplicate key value: stock_batch_code_key")
  Js.require (b.extId.isSome → ∀ r ∈ t.batches, ¬ (r.source = b.source ∧ r.extId = b.extId))
    (.internal "duplicate key value: stock_batch_ext_key")
  return { t with batches := t.batches ++ [b] }

/-- `insert into stock_movement ... on conflict (client_key) do nothing`: the row, unless its key is taken. -/
def insertJournal (t : Tables) (m : StockMovementRow) : Except Js.HttpError (Option StockMovementRow × Tables) :=
  match findKey t.journal m.clientKey with
  | some _ => .ok (none, t)
  | none => do
    Js.require (∀ r ∈ t.journal, r.id ≠ m.id) (.internal "duplicate key value: stock_movement_pkey")
    Js.require (∀ id ∈ m.batchId, ∃ b ∈ t.batches, b.id = id)
      (.internal "violates foreign key constraint: stock_movement_batch_id_stock_batch_id_fk")
    return (some m, { t with journal := t.journal ++ [m] })

/-- The consumption that closes the batch, where a date is given for it. -/
def closeBatch (env : StockEnv) (t : Tables) (input : CreateBatchInput) (prep : NewBatch) (ids : BatchIds) :
    Except Js.HttpError Tables :=
  match input.closeOn.filter (· ≠ "") with
  | none => .ok t
  | some closeOn => do
    let closing ← closingValues env input prep ids closeOn
    let (_, t) ← insertJournal t closing
    return t

/-- The transaction of a new batch: the batch, its intake, and its closing. -/
def writeBatchTx (env : StockEnv) (t : Tables) (input : CreateBatchInput) (prep : NewBatch) (ids : BatchIds) :
    Except Js.HttpError Tables := do
  let batch ← batchValues env input prep ids.batch
  let t ← insertBatch t batch
  let intake ← intakeValues env input prep ids
  let (movement, t) ← insertJournal t intake
  let _ ← Js.orThrow movement (.badRequest
    (if isPresent input.clientKey then "Повтор прихода ещё записывается — попробуй ещё раз через минуту"
      else "Не удалось записать движение прихода партии"))
  closeBatch env t input prep ids

/-- The batch is read back after its transaction: a failure there leaves it written. -/
def writeBatch (env : StockEnv) (t : Tables) (input : CreateBatchInput) (prep : NewBatch) (ids : BatchIds) :
    Except Js.HttpError BatchRow × Tables :=
  match writeBatchTx env t input prep ids with
  | .error e => (.error e, t)
  | .ok t =>
    match batchRowOf env t ids.batch with
    | .error e => (.error e, t)
    | .ok none => (.error (.notFound "Партия заведена, но не нашлась при чтении — повторите запрос"), t)
    | .ok (some row) => (.ok row, t)

def createBatch (env : StockEnv) (t : Tables) (input : CreateBatchInput) (ids : BatchIds) :
    Except Js.HttpError BatchRow × Tables :=
  match prepareBatch env t input with
  | .error e => (.error e, t)
  | .ok (.existing row) => (.ok row, t)
  | .ok (.new prep) => writeBatch env t input prep ids

/-! What an insert can do. -/

section
variable {env : StockEnv} {t t' : Tables} {input : CreateBatchInput} {prep : NewBatch} {ids : BatchIds}

/-- No row has the batch's id, code or key. -/
structure FreshBatch (t : Tables) (b : StockBatch) : Prop where
  id : ∀ r ∈ t.batches, r.id ≠ b.id
  code : b.batchCode.isSome → ∀ r ∈ t.batches, ¬ (r.ingredientId = b.ingredientId ∧ r.batchCode = b.batchCode)
  ext : b.extId.isSome → ∀ r ∈ t.batches, ¬ (r.source = b.source ∧ r.extId = b.extId)

theorem insertBatch_eq_ok {b : StockBatch} :
    insertBatch t b = .ok t' ↔ FreshBatch t b ∧ t' = { t with batches := t.batches ++ [b] } := by
  unfold insertBatch
  simp only [Js.bind_eq_ok, Js.require_eq_ok, exists_and_left, exists_const, pure, Except.pure, Except.ok.injEq]
  constructor
  · rintro ⟨hid, hcode, hext, rfl⟩
    exact ⟨⟨hid, hcode, hext⟩, rfl⟩
  · rintro ⟨⟨hid, hcode, hext⟩, rfl⟩
    exact ⟨hid, hcode, hext, rfl⟩

/-- No row has the movement's id, and its batch is there. -/
structure FreshMovement (t : Tables) (m : StockMovementRow) : Prop where
  key : findKey t.journal m.clientKey = none
  id : ∀ r ∈ t.journal, r.id ≠ m.id
  batch : ∀ id ∈ m.batchId, ∃ b ∈ t.batches, b.id = id

theorem insertJournal_eq_some {m row : StockMovementRow} :
    insertJournal t m = .ok (some row, t') ↔
      FreshMovement t m ∧ row = m ∧ t' = { t with journal := t.journal ++ [m] } := by
  unfold insertJournal
  rcases hk : findKey t.journal m.clientKey with _ | existing
  · simp only [Js.bind_eq_ok, Js.require_eq_ok, exists_and_left, exists_const, pure, Except.pure, Except.ok.injEq,
      Prod.mk.injEq, Option.some.injEq]
    constructor
    · rintro ⟨hid, hbatch, rfl, rfl⟩
      exact ⟨⟨hk, hid, hbatch⟩, rfl, rfl⟩
    · rintro ⟨⟨_, hid, hbatch⟩, rfl, rfl⟩
      exact ⟨hid, hbatch, rfl, rfl⟩
  · constructor
    · intro h
      cases h
    · rintro ⟨⟨hnone, _, _⟩, _⟩
      rw [hk] at hnone
      cases hnone

theorem insertJournal_eq_none {m : StockMovementRow} :
    insertJournal t m = .ok (none, t') ↔ (∃ existing, findKey t.journal m.clientKey = some existing) ∧ t' = t := by
  unfold insertJournal
  rcases hk : findKey t.journal m.clientKey with _ | existing
  · simp [Js.bind_eq_ok, pure, Except.pure]
  · simp [eq_comm]

/-- The rows that close the batch, as their columns store them. -/
def closingRows (env : StockEnv) (input : CreateBatchInput) (prep : NewBatch) (ids : BatchIds) :
    Except Js.HttpError (List StockMovementRow) :=
  match input.closeOn.filter (· ≠ "") with
  | none => .ok []
  | some closeOn => (closingValues env input prep ids closeOn).map fun m => [m]

theorem batchValues_id {id : String} {b : StockBatch} (h : batchValues env input prep id = .ok b) :
    b.id = id ∧ b.ingredientId = input.ingredientId ∧ b.warehouseId = input.warehouseId ∧
      b.unit = prep.unit.text ∧ numeric 14 3 prep.qtyReceived = .ok b.qtyReceived ∧
      b.source = prep.source ∧ b.extId = input.extId ∧ b.batchCode = input.batchCode := by
  unfold batchValues at h
  simp only [Js.bind_eq_ok] at h
  obtain ⟨_, _, _, _, _, _, qty, hqty, _, _, _, _, _, _, _, _, _, _, h⟩ := h
  cases h
  exact ⟨rfl, rfl, rfl, rfl, hqty, rfl, rfl, rfl⟩

theorem intakeValues_eq_ok {m : StockMovementRow} (h : intakeValues env input prep ids = .ok m) :
    m.id = ids.intake ∧ m.kind = .intake ∧ m.ingredientId = input.ingredientId ∧
      m.warehouseId = input.warehouseId ∧ m.batchId = some ids.batch ∧ m.unit = prep.unit.text ∧
      numeric 14 3 prep.qtyReceived = .ok m.qty ∧ m.clientKey = input.clientKey := by
  unfold intakeValues at h
  simp only [Js.bind_eq_ok] at h
  obtain ⟨_, _, qty, hqty, _, _, _, _, h⟩ := h
  cases h
  exact ⟨rfl, rfl, rfl, rfl, rfl, rfl, hqty, rfl⟩

theorem closingValues_eq_ok {closeOn : String} {m : StockMovementRow}
    (h : closingValues env input prep ids closeOn = .ok m) :
    m.id = ids.closing ∧ m.kind = .consumption ∧ m.batchId = some ids.batch ∧ m.clientKey = none := by
  unfold closingValues at h
  simp only [Js.bind_eq_ok] at h
  obtain ⟨_, _, _, _, h⟩ := h
  cases h
  exact ⟨rfl, rfl, rfl, rfl⟩

theorem closingRows_eq_ok {rows : List StockMovementRow} (h : closingRows env input prep ids = .ok rows) :
    rows.length ≤ 1 ∧ ∀ m ∈ rows, m.id = ids.closing ∧ m.kind = .consumption ∧ m.batchId = some ids.batch ∧
      m.clientKey = none := by
  unfold closingRows at h
  split at h
  · cases h
    exact ⟨Nat.zero_le _, List.forall_mem_nil _⟩
  · obtain ⟨m, hm, rfl⟩ := Js.map_eq_ok.mp h
    refine ⟨le_rfl, fun m' hm' => ?_⟩
    rw [List.mem_singleton.mp hm']
    exact closingValues_eq_ok hm

/-- The transaction adds the batch, its intake, and its closing where there is one. -/
theorem writeBatchTx_eq_ok :
    writeBatchTx env t input prep ids = .ok t' ↔
      ∃ b intake closing, batchValues env input prep ids.batch = .ok b ∧ FreshBatch t b ∧
        intakeValues env input prep ids = .ok intake ∧ findKey t.journal intake.clientKey = none ∧
        (∀ r ∈ t.journal, r.id ≠ ids.intake) ∧ closingRows env input prep ids = .ok closing ∧
        (∀ c ∈ closing, ∀ r ∈ t.journal ++ [intake], r.id ≠ c.id) ∧
        t' = ⟨t.batches ++ [b], t.journal ++ intake :: closing⟩ := by
  have hclose : ∀ {b : StockBatch} {s : Tables}, b ∈ s.batches → b.id = ids.batch →
      (closeBatch env s input prep ids = .ok t' ↔ ∃ closing, closingRows env input prep ids = .ok closing ∧
        (∀ c ∈ closing, ∀ r ∈ s.journal, r.id ≠ c.id) ∧ t' = { s with journal := s.journal ++ closing }) := by
    intro b s hb hid
    unfold closeBatch closingRows
    rcases input.closeOn.filter (· ≠ "") with _ | closeOn
    · simp [eq_comm]
    · simp only [Js.bind_eq_ok, Prod.exists, pure, Except.pure, Except.ok.injEq]
      constructor
      · rintro ⟨c, hc, row, s', hi, rfl⟩
        obtain ⟨_, _, _, hkey⟩ := closingValues_eq_ok hc
        rcases row with _ | row
        · obtain ⟨⟨existing, hexisting⟩, _⟩ := insertJournal_eq_none.mp hi
          rw [hkey] at hexisting
          cases hexisting
        · obtain ⟨hf, _, rfl⟩ := insertJournal_eq_some.mp hi
          refine ⟨[c], by rw [hc]; rfl, fun c' hc' => ?_, rfl⟩
          rw [List.mem_singleton.mp hc']
          exact hf.id
      · rintro ⟨closing, hrows, hfresh, rfl⟩
        obtain ⟨c, hc, rfl⟩ := Js.map_eq_ok.mp hrows
        obtain ⟨_, _, hbatch, hkey⟩ := closingValues_eq_ok hc
        refine ⟨c, hc, some c, _, insertJournal_eq_some.mpr ⟨⟨?_, hfresh c (List.mem_singleton_self _), ?_⟩, rfl, rfl⟩, rfl⟩
        · rw [hkey]
          rfl
        · rw [hbatch]
          rintro id ⟨⟩
          exact ⟨b, hb, hid⟩
  unfold writeBatchTx
  simp only [Js.bind_eq_ok, Prod.exists, Js.orThrow_eq_ok]
  constructor
  · rintro ⟨b, hb, s, hs, intake, hi, row, s', hj, movement, rfl, h⟩
    obtain ⟨hfresh, rfl⟩ := insertBatch_eq_ok.mp hs
    obtain ⟨hf, rfl, rfl⟩ := insertJournal_eq_some.mp hj
    have hid := (batchValues_id hb).1
    obtain ⟨closing, hc, hcf, rfl⟩ := (hclose (List.mem_append_right _ (List.mem_singleton_self b)) hid).mp h
    have hiid := (intakeValues_eq_ok hi).1
    refine ⟨b, _, closing, hb, hfresh, hi, hf.key, fun r hr => hiid ▸ hf.id r hr, hc, hcf, ?_⟩
    simp
  · rintro ⟨b, intake, closing, hb, hfresh, hi, hkey, hid, hc, hcf, rfl⟩
    have hbid := (batchValues_id hb).1
    obtain ⟨hiid, _, _, _, hbatch, _⟩ := intakeValues_eq_ok hi
    refine ⟨b, hb, _, insertBatch_eq_ok.mpr ⟨hfresh, rfl⟩, intake, hi, some intake, _,
      insertJournal_eq_some.mpr ⟨⟨hkey, fun r hr => hiid ▸ hid r hr, ?_⟩, rfl, rfl⟩, intake, rfl,
      (hclose (List.mem_append_right _ (List.mem_singleton_self b)) hbid).mpr ⟨closing, hc, hcf, ?_⟩⟩
    · rw [hbatch]
      rintro id ⟨⟩
      exact ⟨b, List.mem_append_right _ (List.mem_singleton_self b), hbid⟩
    · simp

end

end Mydon.Stock
