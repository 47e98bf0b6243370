import Mydon.Globerent.Units

/-! Import contracts with the factory: signing makes the units and the obligations, payments are
marked on the contract, and the life cycle follows the statuses of the units. -/

namespace Mydon.Globerent

open Mydon.Lib Mydon.Finance Mydon.Stock

/-! `create`. -/

/-- An item as it comes in: its quantity need not be whole. -/
structure ImportItemInput where
  modelId : Option ℕ
  name : String
  qty : ℚ
  price : ℚ
  deriving DecidableEq

/-- A date is read, or is not one. -/
structure CreateImportInput where
  contractNo : String
  contractDate : Option ℤ
  supplierId : Option ℕ
  currency : Option String
  items : List ImportItemInput
  purpose : Option ImportPurpose
  saleContractId : Option ℕ
  prepaymentAmount : Option ℚ
  prepaymentDueDate : Option (Option ℤ)
  balanceAmount : Option ℚ
  balanceDueDate : Option (Option ℤ)
  notes : Option String
  deriving DecidableEq

def checkItem (i : ImportItemInput) : Except Js.HttpError ImportItem := do
  Js.require (0 < i.qty ∧ i.qty.den = 1) (.badRequest ("Позиция «" ++ i.name ++ "»: количество — целое больше нуля"))
  Js.require (0 < i.price) (.badRequest ("Позиция «" ++ i.name ++ "»: цена — число больше нуля"))
  return ⟨i.modelId, i.name, i.qty.num.toNat, i.price⟩

def checkSchedule (host : Js.Host) (total prepay balance : ℚ) : Except Js.HttpError Unit := do
  Js.require (0 ≤ prepay ∧ 0 ≤ balance) (.badRequest "Суммы графика не могут быть отрицательными")
  Js.require (prepay + balance ≤ total + 1 / 100)
    (.badRequest ("График (" ++ host.numberText (prepay + balance) ++ ") больше суммы контракта (" ++
      host.numberText total ++ ") — проверь цифры"))

def checkDue (label : String) (due : Option (Option ℤ)) : Except Js.HttpError (Option ℤ) :=
  match due with
  | none => .ok none
  | some day => (Js.orThrow day (.badRequest (label ++ " — дата в формате ГГГГ-ММ-ДД"))).map some

def createImport (env : Env) (input : CreateImportInput) (db : Db) : Except Js.HttpError Db := do
  Js.require (Js.trim input.contractNo ≠ "") (.badRequest "Впиши номер контракта")
  let contractDate ← Js.orThrow input.contractDate (.badRequest "Дата контракта — в формате ГГГГ-ММ-ДД")
  let named := input.items.filter fun i => Js.trim i.name ≠ ""
  Js.require (named ≠ []) (.badRequest "Добавь хотя бы одну позицию")
  let items ← named.mapM checkItem
  let total := (items.map fun i => (i.qty : ℚ) * i.price).sum
  checkSchedule env.host total (input.prepaymentAmount.getD 0) (input.balanceAmount.getD 0)
  let prepaymentDueDate ← checkDue "Срок предоплаты" input.prepaymentDueDate
  let balanceDueDate ← checkDue "Срок баланса" input.balanceDueDate
  Js.require (input.purpose = some .for_sum_contract → input.saleContractId ≠ none)
    (.badRequest "Для контракта под договор продажи укажи сам договор")
  Js.require (input.saleContractId.all fun id => db.contracts.any (·.id = id)) (.notFound "Договор продажи не найден")
  Js.require (input.supplierId = none ∨ ¬ db.imports.any fun c =>
      c.supplierId = input.supplierId ∧ c.contractNo = Js.trim input.contractNo)
    (.conflict "Контракт с этим номером у поставщика уже есть")
  Js.require (input.supplierId.all env.finance.hasEntity) (.internal "gr_import_contract_supplier_id_entity_id_fk")
  let totalAmount ← numeric 18 2 total
  let prepaymentAmount ← numericOption 18 2 input.prepaymentAmount
  let balanceAmount ← numericOption 18 2 input.balanceAmount
  let contract : ImportContract := {
    id := db.imports.length
    contractNo := Js.trim input.contractNo
    contractDate
    supplierId := input.supplierId
    currency := env.finance.toUpperCase (input.currency.getD "USD")
    totalAmount
    items
    purpose := input.purpose.getD .for_stock
    saleContractId := input.saleContractId
    status := .draft
    lifecycleStatus := .draft
    prepaymentAmount
    prepaymentDueDate
    prepaymentPaidAt := none
    balanceAmount
    balanceDueDate
    balancePaidAt := none
    notes := input.notes }
  return { db with imports := db.imports ++ [contract] }

/-! `sign`. -/

/-- A unit of the specification, which has no VIN yet. -/
def signedUnit (contract id code : ℕ) (item : ImportItem) : GloberentUnit where
  id
  code
  modelId := item.modelId
  name := item.name
  year := none
  vin := none
  status := .CONTRACT_SIGNED
  salesStage := none
  lostReason := none
  salesPrice := none
  clientId := none
  contractId := none
  importContractId := some contract
  arrivalDate := none
  declarationType := none
  declarationNumber := none
  declarationDate := none
  transportCompany := none
  notes := none

/-- The items, each as often as its quantity says. -/
def specification (items : List ImportItem) : List ImportItem := items.flatMap fun i => List.replicate i.qty i

/-- The units of the contract, unless it has some already. -/
def materialize (contract : ImportContract) (db : Db) : Db :=
  if db.units.any (·.importContractId = some contract.id) then db
  else
    { db with units := db.units ++ (specification contract.items).zipIdx.map fun (item, k) =>
        signedUnit contract.id (db.units.length + k) (db.lastCode + 1 + k) item }

inductive PaymentKind
  | prepayment
  | balance
  deriving DecidableEq

/-- The words that an obligation's purpose begins with. -/
def PaymentKind.label : PaymentKind → String
  | prepayment => "предоплата заводу"
  | balance => "балансовый платёж заводу"

/-- The pattern of `like`, without its `%`. -/
def PaymentKind.pattern : PaymentKind → String
  | prepayment => "предоплата"
  | balance => "балансовый"

def ImportContract.amountOf (c : ImportContract) : PaymentKind → Option ℚ
  | .prepayment => c.prepaymentAmount
  | .balance => c.balanceAmount

def ImportContract.dueOf (c : ImportContract) : PaymentKind → Option ℤ
  | .prepayment => c.prepaymentDueDate
  | .balance => c.balanceDueDate

def ImportContract.paidAtOf (c : ImportContract) : PaymentKind → Option ℤ
  | .prepayment => c.prepaymentPaidAt
  | .balance => c.balancePaidAt

def obligation (c : ImportContract) (kind : PaymentKind) (amount : ℚ) : CreateFlowInput where
  direction := .outgoing
  status := .planned
  amount
  currency := some c.currency
  category := some "supplier"
  rate := none
  counterpartyId := c.supplierId
  docNo := none
  purpose := some (kind.label ++ " по импортному контракту № " ++ c.contractNo)
  date := none
  dueDate := c.dueOf kind
  unitId := none

/-- One obligation of the payment plan, linked to the contract; none without an amount. -/
def planPayment (env : Env) (c : ImportContract) (kind : PaymentKind) (db : Db) : Except Js.HttpError Db :=
  match (c.amountOf kind).filter (0 < ·) with
  | none => .ok db
  | some amount => do
    let created ← createFlow env.finance db.flows.length env.now (obligation c kind amount)
    return { db with flows := db.flows ++ [{ created with importContractId := some c.id }] }

def createPaymentPlan (env : Env) (c : ImportContract) (db : Db) : Except Js.HttpError Db :=
  planPayment env c .prepayment db >>= planPayment env c .balance

def sign (env : Env) (id : ℕ) (db : Db) : Except Js.HttpError Db := do
  let c ← Js.orThrow (db.findImport id) (.notFound "Импортный контракт не найден")
  Js.require (c.status = .draft) (.conflict s!"Контракт уже подписан ({c.status.text})")
  let updated := { c with status := .in_progress, lifecycleStatus := .signed }
  createPaymentPlan env updated (materialize updated (db.writeImport updated))

/-! `markPaid`. -/

def markedContract (c : ImportContract) (kind : PaymentKind) (now : ℤ) : ImportContract :=
  match kind with
  | .prepayment =>
    { c with
      prepaymentPaidAt := some now
      lifecycleStatus := if c.lifecycleStatus = .signed then .paying else c.lifecycleStatus }
  | .balance => { c with balancePaidAt := some now }

/-- An open obligation of the contract whose purpose begins with the words of the kind. -/
def isObligation (contract : ℕ) (kind : PaymentKind) (f : Flow) : Bool :=
  f.importContractId = some contract && f.direction = .outgoing &&
    f.purpose.any fun p => kind.pattern.toList.isPrefixOf p.toList

def plannedObligation (db : Db) (contract : ℕ) (kind : PaymentKind) : Option Flow :=
  db.flows.find? fun f => f.status = .planned && isObligation contract kind f

def markImportPaid (env : Env) (id : ℕ) (kind : PaymentKind) (db : Db) : Except Js.HttpError Db := do
  let c ← Js.orThrow (db.findImport id) (.notFound "Импортный контракт не найден")
  Js.require (c.paidAtOf kind = none) (.conflict "Эта оплата уже отмечена")
  let db := db.writeImport (markedContract c kind env.now)
  match plannedObligation db id kind with
  | none => return db
  | some planned => do
    let paid ← markPaid db.flows planned.id none env.now
    return { db with flows := Table.write Finance.Flow.id db.flows paid }

/-! `FinanceService.markPaid` and `cancelFlow` on the same table. -/

def payFlow (env : Env) (id : ℕ) (rate : Option ℚ) (db : Db) : Except Js.HttpError Db :=
  (markPaid db.flows id rate env.now).map fun f => { db with flows := Table.write Finance.Flow.id db.flows f }

/-! `bulkUnitAction`: the transaction. -/

def BULK_ACTIONS : List UnitAction :=
  [.markReadyToShip, .markInTransit, .markAtBorder, .markCustomsIm74, .markCustomsIm40, .markDelivered]

def checkBulk (action : UnitAction) (extra : ActionExtra) : Except Js.HttpError Unit := do
  Js.require (action ∈ BULK_ACTIONS) (.badRequest ("Массовые действия: mark-ready-to-ship, mark-in-transit, " ++
    "mark-at-border, mark-customs-im74, mark-customs-im40, mark-delivered"))
  let customs := action = .markCustomsIm74 ∨ action = .markCustomsIm40
  Js.require (customs → ¬ isBlank extra.declarationNumber) (.badRequest "Укажи номер ГТД")
  Js.require (customs → extra.declarationDate.isSome) (.badRequest "Дата ГТД — ГГГГ-ММ-ДД")
  Js.require (action = .markInTransit → ¬ isBlank extra.transportCompany) (.badRequest "Укажи перевозчика")

/-- Unlike a single action, the arrival of a bulk one does not overwrite a date. -/
def bulkUnit (action : UnitAction) (extra : ActionExtra) (today : ℤ) (u : GloberentUnit) : GloberentUnit :=
  let acted := if action = .markDelivered then { u with arrivalDate := u.arrivalDate.or (some today) }
    else actedUnit action extra today u
  { acted with status := (UNIT_TRANSITIONS action).target }

def isEligible (contract : ℕ) (action : UnitAction) (u : GloberentUnit) : Bool :=
  u.importContractId = some contract && u.status ∈ (UNIT_TRANSITIONS action).sources

def isLive (u : GloberentUnit) : Bool := u.status ≠ .CANCELLED && u.status ≠ .ARCHIVED

structure BulkResult where
  moved : ℕ
  skipped : ℤ
  deriving DecidableEq

def bulkUnitAction (env : Env) (id : ℕ) (action : UnitAction) (extra : ActionExtra) (db : Db) :
    Except Js.HttpError (Db × BulkResult) := do
  checkBulk action extra
  let _ ← Js.orThrow (db.findImport id) (.notFound "Импортный контракт не найден")
  let moved := db.units.countP (isEligible id action)
  let live := (db.unitsOf id).countP isLive
  let units := db.units.map fun u => if isEligible id action u then bulkUnit action extra env.today u else u
  return ({ db with units }, ⟨moved, live - moved⟩)

/-! `cancel`. -/

def cancelImport (id : ℕ) (db : Db) : Except Js.HttpError Db := do
  let c ← Js.orThrow (db.findImport id) (.notFound "Импортный контракт не найден")
  Js.require (c.status ≠ .cancelled) (.conflict "Контракт уже отменён")
  let linked := (db.unitsOf id).countP isLive
  Js.require (linked = 0)
    (.conflict s!"К контракту привязано единиц: {linked} — сначала отмени или заархивируй их")
  return db.writeImport { c with status := .cancelled, lifecycleStatus := .cancelled }

/-! The operations, each of them one transaction. -/

inductive ImportOp
  | create (input : CreateImportInput)
  | sign (id : ℕ)
  | markPaid (id : ℕ) (kind : PaymentKind)
  | bulkUnitAction (id : ℕ) (action : UnitAction) (extra : ActionExtra)
  | cancel (id : ℕ)
  | payFlow (id : ℕ) (rate : Option ℚ)

def ImportOp.perform (env : Env) (db : Db) : ImportOp → Except Js.HttpError Db
  | .create input => createImport env input db
  | .sign id => Globerent.sign env id db
  | .markPaid id kind => markImportPaid env id kind db
  | .bulkUnitAction id action extra => (Globerent.bulkUnitAction env id action extra db).map Prod.fst
  | .cancel id => cancelImport id db
  | .payFlow id rate => Globerent.payFlow env id rate db

end Mydon.Globerent
