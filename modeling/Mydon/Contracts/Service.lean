import Mydon.Clock
import Mydon.Finance.Flows

/-! Sale contracts. A contract is created with its payment schedule; payments come in as flows of their own,
and close the rows of the schedule that they cover. -/

namespace Mydon.Contracts

open Mydon.Lib Mydon.Finance Mydon.Stock

/-! The tables. -/

inductive ContractStatus
  | active
  | closed
  | cancelled
  deriving DecidableEq

def ContractStatus.text : ContractStatus → String
  | active => "active"
  | closed => "closed"
  | cancelled => "cancelled"

/-- `STATUS_TRANSITIONS`. -/
def STATUS_TRANSITIONS : ContractStatus → List ContractStatus
  | .active => [.closed, .cancelled]
  | .closed => [.active]
  | .cancelled => [.active]

/-- A row of `contract`. -/
structure Contract where
  id : ℕ
  contractNo : String
  contractDate : ℤ
  clientId : Option ℕ
  totalWithVat : ℚ
  totalVat : ℚ
  status : ContractStatus
  deriving DecidableEq

structure Db where
  contracts : List Contract
  flows : List Flow
  /-- The `flowIds` of the entries `contract.schedule_settled` in the journal. -/
  settled : List ℕ
  deriving DecidableEq

def Db.findContract (db : Db) (id : ℕ) : Option Contract := Table.lookup Contract.id db.contracts id

structure Env where
  host : Js.Host
  finance : FinanceEnv
  /-- `Math.pow`. -/
  pow : ℚ → ℚ → ℚ
  now : ℤ

/-! The formulas. -/

structure ContractItem where
  name : String
  qty : ℚ
  price : ℚ
  deriving DecidableEq

structure ContractTotals where
  totalWithVat : ℚ
  totalVat : ℚ
  totalNoVat : ℚ
  deriving DecidableEq

def contractTotals (items : List ContractItem) : ContractTotals :=
  let totalWithVat := (items.map fun r => r.price * r.qty).sum
  let totalVat := totalWithVat * 12 / 112
  ⟨totalWithVat, totalVat, totalWithVat - totalVat⟩

def trancheAmount (totalWithVat pct : ℚ) : ℚ := totalWithVat * pct / 100

/-- `due.setMonth(due.getMonth() + i)`. -/
def addMonths (day : ℤ) (i : ℕ) : ℤ :=
  let (year, month, d) := Clock.civil day
  Clock.ofCivil year (month + i) d

/-- The payments of an instalment plan: when each is due, and the amount of all of them. -/
def installmentSchedule (env : Env) (totalWithVat prepayPct months annualRatePct : ℚ) (firstDate : ℤ) : List (ℤ × ℚ) :=
  let principal := totalWithVat * (1 - prepayPct / 100)
  let r := annualRatePct / 100 / 12
  let growth := env.pow (1 + r) months
  let monthly := if 0 < r then principal * (r * growth) / (growth - 1) else principal / months
  (List.range ⌈months⌉.toNat).map fun i => (addMonths firstDate i, monthly)

/-! `createPlannedSchedule`. -/

/-- `"100"`, `"partial"`, `"install"` and `"post"`. -/
inductive PayType
  | hundred
  | tranches
  | install
  | post
  deriving DecidableEq

/-- A number of a document's parameters is read, or is not one; one that is missing is read as 0. -/
structure Tranche where
  pct : Option ℚ
  days : Option ℚ
  deriving DecidableEq

structure DocParams where
  payDays : Option ℚ
  partialTranches : List Tranche
  installMonths : Option ℚ
  prepayPct : Option ℚ
  installFirstDate : Option ℤ
  installInterest : Option ℚ
  deriving DecidableEq

structure ScheduleRow where
  amount : Option ℚ
  dueDate : ℤ
  purpose : String
  deriving DecidableEq

/-- Towards zero, as days are added to a date. -/
def truncate (x : ℚ) : ℤ := if 0 ≤ x then ⌊x⌋ else ⌈x⌉

def trancheRows (env : Env) (total : ℚ) (base : ℤ) (no : String) (tranches : List Tranche) : List ScheduleRow :=
  tranches.zipIdx.filterMap fun (t, i) =>
    (t.pct.filter (0 < ·)).map fun pct =>
      ⟨some (trancheAmount total pct), base + truncate (t.days.getD 0),
        s!"транш {i + 1} ({env.host.numberText pct}%) по договору {no}"⟩

def prepaymentRows (env : Env) (total : ℚ) (base : ℤ) (no : String) (prepayPct : Option ℚ) : List ScheduleRow :=
  match prepayPct.filter (0 < ·) with
  | some pct =>
    [⟨some (trancheAmount total pct), base, s!"предоплата {env.host.numberText pct}% по договору {no}"⟩]
  | none => []

def installmentRows (env : Env) (total : ℚ) (first : ℤ) (no : String) (prepayPct : Option ℚ) (months interest : ℚ) :
    List ScheduleRow :=
  let schedule := installmentSchedule env total (prepayPct.getD 0) months interest first
  schedule.zipIdx.map fun ((due, monthly), i) =>
    ⟨prepayPct.map fun _ => monthly, due, s!"рассрочка {i + 1}/{schedule.length} по договору {no}"⟩

def plannedSchedule (env : Env) (payType : Option PayType) (p : DocParams) (row : Contract) : List ScheduleRow :=
  let no := "№ " ++ row.contractNo ++ "/ОП"
  match payType with
  | some .hundred =>
    [⟨some row.totalWithVat, row.contractDate + truncate (p.payDays.getD 0), s!"оплата 100% по договору {no}"⟩]
  | some .tranches => trancheRows env row.totalWithVat row.contractDate no p.partialTranches
  | some .install =>
    match p.installMonths.filter (0 < ·) with
    | none => []
    | some months =>
      prepaymentRows env row.totalWithVat row.contractDate no p.prepayPct ++
        installmentRows env row.totalWithVat (p.installFirstDate.getD row.contractDate) no p.prepayPct months
          (p.installInterest.getD 0)
  | some .post => []
  | none => []

def scheduleFlow (row : Contract) (r : ScheduleRow) (amount : ℚ) : CreateFlowInput where
  direction := .incoming
  status := .planned
  amount
  currency := some "UZS"
  category := some "sale"
  rate := none
  counterpartyId := row.clientId
  docNo := none
  purpose := some r.purpose
  date := none
  dueDate := some r.dueDate
  unitId := none

/-- A flow of the contract, inserted and linked to it. -/
def insertFlow (env : Env) (contract : ℕ) (input : CreateFlowInput) (flows : List Flow) :
    Except Js.HttpError (List Flow) := do
  let created ← createFlow env.finance flows.length env.now input
  return flows ++ [{ created with contractId := some contract }]

def createPlannedSchedule (env : Env) (payType : Option PayType) (p : DocParams) (row : Contract) (flows : List Flow) :
    Except Js.HttpError (List Flow) :=
  (plannedSchedule env payType p row).foldlM (fun flows r => do
    let amount ← Js.orThrow r.amount (.badRequest "Сумма — положительное число")
    insertFlow env row.id (scheduleFlow row r amount) flows) flows

/-! `create`. -/

structure CreateContractInput where
  contractNo : Option String
  contractDate : Option ℤ
  clientId : Option ℕ
  sellerCompanyId : Option ℕ
  items : List ContractItem
  payType : Option PayType
  docParams : DocParams
  agentId : Option ℕ
  agentCommissionAmount : Option ℚ
  agentCommissionCurrency : Option String
  deriving DecidableEq

def checkItem (i : ContractItem) : Except Js.HttpError Unit := do
  Js.require (0 < i.qty) (.badRequest ("Позиция «" ++ i.name ++ "»: количество — целое больше нуля"))
  Js.require (0 < i.price) (.badRequest ("Позиция «" ++ i.name ++ "»: цена — число больше нуля"))

/-- `contractNo ~ '^\d+$'`, as a number. -/
def numericNo (s : String) : Option ℕ :=
  if s.toList ≠ [] ∧ s.toList.all Js.isDigit then s.toNat? else none

/-- One more than the largest number, unless a number is given. -/
def chosenNo (contracts : List Contract) (contractNo : Option String) : Except Js.HttpError String := do
  let given := Js.trim (contractNo.getD "")
  if given ≠ "" then return given
  let last := (contracts.filterMap fun c => numericNo c.contractNo).foldl max 0
  Js.require (last ≤ 2147483647) (.internal "integer out of range")
  return toString (last + 1)

def commissionFlow (row : Contract) (agentId : ℕ) (amount : ℚ) (currency : Option String) : CreateFlowInput where
  direction := .outgoing
  status := .planned
  amount
  currency := some (currency.getD "UZS")
  category := some "commission"
  rate := none
  counterpartyId := some agentId
  docNo := none
  purpose := some ("комиссия агента по договору № " ++ row.contractNo ++ "/ОП")
  date := none
  dueDate := none
  unitId := none

def createCommission (env : Env) (row : Contract) (agentId : Option ℕ) (amount : Option ℚ) (currency : Option String)
    (flows : List Flow) : Except Js.HttpError (List Flow) :=
  match agentId, amount with
  | some agentId, some amount => insertFlow env row.id (commissionFlow row agentId amount currency) flows
  | _, _ => .ok flows

def create (env : Env) (input : CreateContractInput) (db : Db) : Except Js.HttpError Db := do
  let contractDate ← Js.orThrow input.contractDate (.badRequest "Дата договора — в формате ГГГГ-ММ-ДД")
  let items := input.items.filter fun i => Js.trim i.name ≠ ""
  Js.require (items ≠ []) (.badRequest "Добавь хотя бы одну позицию")
  let _ ← items.mapM checkItem
  Js.require (input.clientId.all env.finance.hasEntity) (.notFound "Клиент не найден в реестре")
  let totals := contractTotals items
  Js.require (0 < totals.totalWithVat) (.badRequest "Сумма договора должна быть больше нуля")
  let contractNo ← chosenNo db.contracts input.contractNo
  Js.require (¬ db.contracts.any (·.contractNo = contractNo)) (.conflict ("Договор № " ++ contractNo ++ "/ОП уже существует"))
  Js.require (input.sellerCompanyId.all env.finance.hasEntity) (.internal "contract_seller_company_id_entity_id_fk")
  Js.require (input.agentId.all env.finance.hasEntity) (.internal "contract_agent_id_entity_id_fk")
  let totalWithVat ← numeric 18 2 totals.totalWithVat
  let totalVat ← numeric 18 2 totals.totalVat
  let agentCommissionAmount ← numericOption 18 2 input.agentCommissionAmount
  let row : Contract := ⟨db.contracts.length, contractNo, contractDate, input.clientId, totalWithVat, totalVat, .active⟩
  let flows ← createPlannedSchedule env input.payType input.docParams row db.flows
  let flows ← createCommission env row input.agentId agentCommissionAmount input.agentCommissionCurrency flows
  return { db with contracts := db.contracts ++ [row], flows }

/-! `setStatus`. -/

def setStatus (id : ℕ) (status : ContractStatus) (db : Db) : Except Js.HttpError Db := do
  let row ← Js.orThrow (db.findContract id) (.notFound "Договор не найден")
  if row.status = status then return db
  Js.require (status ∈ STATUS_TRANSITIONS row.status) (.conflict ("Переход " ++ row.status.text ++ " → " ++ status.text ++
    " запрещён (между closed и cancelled — только через active)"))
  return { db with contracts := Table.write Contract.id db.contracts { row with status } }

/-! `addPayment`. -/

/-- The rows of the contract that are expected, or were. -/
def isScheduled (contract : ℕ) (f : Flow) : Bool :=
  f.contractId = some contract && f.direction = .incoming && (f.status = .planned || f.status = .cancelled)

def dueBefore (a b : Flow) : Bool :=
  match a.dueDate, b.dueDate with
  | some x, some y => x < y || x = y && a.date ≤ b.date
  | some _, none => true
  | none, some _ => false
  | none, none => a.date ≤ b.date

def scheduleOf (flows : List Flow) (contract : ℕ) : List Flow :=
  (flows.filter (isScheduled contract)).insertionSort fun a b => dueBefore a b

/-- What cancelled rows with a payment date add up to. -/
def alreadySettled (flows : List Flow) (contract : ℕ) : ℚ :=
  (((scheduleOf flows contract).filter fun f => f.status = .cancelled ∧ f.paidAt ≠ none).map Finance.Flow.amount).sum

/-- The open rows, one after another, as long as what is available covers them. -/
def coveredRows (available : ℚ) : List Flow → List Flow
  | [] => []
  | f :: rows =>
    if f.status ≠ .planned then coveredRows available rows
    else if f.amount ≤ 0 ∨ available + 1 / 100 < f.amount then []
    else f :: coveredRows (available - f.amount) rows

def settleCoveredSchedule (contract : ℕ) (paid : ℚ) (now : ℤ) (db : Db) : Db :=
  let available := max 0 (paid - alreadySettled db.flows contract)
  let settled := (coveredRows available (scheduleOf db.flows contract)).map Finance.Flow.id
  { db with
    flows := db.flows.map fun f => if f.id ∈ settled then { f with status := .cancelled, paidAt := some now } else f
    settled := db.settled ++ settled }

structure AddPaymentInput where
  amount : ℚ
  currency : Option String
  docNo : Option String
  date : Option ℤ
  rate : Option ℚ
  deriving DecidableEq

def paymentFlow (row : Contract) (input : AddPaymentInput) : CreateFlowInput where
  direction := .incoming
  status := .actual
  amount := input.amount
  currency := input.currency
  category := some "sale"
  rate := input.rate
  counterpartyId := row.clientId
  docNo := input.docNo
  purpose := some ("оплата по договору № " ++ row.contractNo ++ "/ОП")
  date := input.date
  dueDate := none
  unitId := none

def addPayment (env : Env) (id : ℕ) (input : AddPaymentInput) (db : Db) : Except Js.HttpError Db := do
  let row ← Js.orThrow (db.findContract id) (.notFound "Договор не найден")
  Js.require (row.status ≠ .cancelled) (.conflict "Договор отменён — платежи по нему не принимаются")
  let flows ← insertFlow env id (paymentFlow row input) db.flows
  return settleCoveredSchedule id (paidUzs flows id) env.now { db with flows }

/-! `FinanceService.markPaid` and `cancelFlow`. -/

def payFlow (env : Env) (id : ℕ) (rate : Option ℚ) (db : Db) : Except Js.HttpError Db :=
  (markPaid db.flows id rate env.now).map fun f => { db with flows := Table.write Finance.Flow.id db.flows f }

def cancelFlow (id : ℕ) (db : Db) : Except Js.HttpError Db :=
  (Finance.cancelFlow db.flows id).map fun f => { db with flows := Table.write Finance.Flow.id db.flows f }

end Mydon.Contracts
