import Mydon.Lib.Table
import Mydon.Stock.StockService

/-! The money flows: obligations and payments, what is checked of a new one, and how it is paid or
cancelled. A foreign amount keeps the rate it was written with, and its equivalent in sums. -/

namespace Mydon.Finance

open Mydon.Lib Mydon.Stock

/-- `"in"` and `"out"`. -/
inductive Direction
  | incoming
  | outgoing
  deriving DecidableEq

inductive FlowStatus
  | planned
  | actual
  | cancelled
  deriving DecidableEq

def FlowStatus.text : FlowStatus → String
  | planned => "planned"
  | actual => "actual"
  | cancelled => "cancelled"

structure Flow where
  id : ℕ
  direction : Direction
  amount : ℚ
  currency : String
  purpose : Option String
  date : ℤ
  status : FlowStatus
  category : Option String
  rate : Option ℚ
  amountUzs : Option ℚ
  counterpartyId : Option ℕ
  docNo : Option String
  dueDate : Option ℤ
  paidAt : Option ℤ
  contractId : Option ℕ
  importContractId : Option ℕ
  unitId : Option ℕ
  deriving DecidableEq

/-- What a new flow is checked against, and the case mapping of the host. -/
structure FinanceEnv where
  toUpperCase : String → String
  /-- `fxCurrent`: the latest rate of a currency. -/
  fxRate : String → Option ℚ
  hasEntity : ℕ → Bool

def FLOW_CATEGORIES : List String :=
  ["sale", "service", "supplier", "logistics", "customs", "certification", "tax", "rent", "commission", "other"]

/-- `/^[A-Z]{3}$/`. -/
def isCurrency (s : String) : Bool := s.toList.length = 3 && s.toList.all Js.isUpper

/-- A flow is asked for as an obligation or as a payment. -/
inductive NewStatus
  | planned
  | actual
  deriving DecidableEq

def NewStatus.toStatus : NewStatus → FlowStatus
  | planned => .planned
  | actual => .actual

structure CreateFlowInput where
  direction : Direction
  status : NewStatus
  amount : ℚ
  currency : Option String
  category : Option String
  rate : Option ℚ
  counterpartyId : Option ℕ
  docNo : Option String
  purpose : Option String
  date : Option ℤ
  dueDate : Option ℤ
  unitId : Option ℕ
  deriving DecidableEq

structure PreparedFlow where
  currency : String
  rate : Option ℚ
  amountUzs : Option ℚ
  deriving DecidableEq

def prepareFlow (env : FinanceEnv) (input : CreateFlowInput) : Except Js.HttpError PreparedFlow := do
  let currency := Js.trim (env.toUpperCase (input.currency.getD "UZS"))
  Js.require (isCurrency currency) (.badRequest "Валюта — трёхбуквенный код: UZS, USD, CNY…")
  Js.require (0 < input.amount) (.badRequest "Сумма — положительное число")
  Js.require (input.category.all (· ∈ FLOW_CATEGORIES))
    (.badRequest ("Категория — одна из: " ++ String.intercalate ", " FLOW_CATEGORIES))
  Js.require (input.rate.all (0 < ·)) (.badRequest "Курс — положительное число")
  Js.require (input.counterpartyId.all env.hasEntity) (.notFound "Контрагент не найден в реестре")
  let rate := input.rate.or (if currency = "UZS" then none else env.fxRate currency)
  return ⟨currency, rate, if currency = "UZS" then none else rate.map (input.amount * ·)⟩

/-- The row that is inserted: its numbers are rounded to their columns. -/
def writeFlow (id : ℕ) (now : ℤ) (input : CreateFlowInput) (prep : PreparedFlow) : Except Js.HttpError Flow := do
  let amount ← numeric 18 2 input.amount
  let rate ← numericOption 18 4 prep.rate
  let amountUzs ← numericOption 18 2 prep.amountUzs
  return {
    id
    direction := input.direction
    amount
    currency := prep.currency
    purpose := input.purpose
    date := input.date.getD now
    status := input.status.toStatus
    category := input.category
    rate
    amountUzs
    counterpartyId := input.counterpartyId
    docNo := input.docNo
    dueDate := input.dueDate
    paidAt := if input.status = .actual then some now else none
    contractId := none
    importContractId := none
    unitId := input.unitId }

/-- `createFlowInTransaction` of an input without an `extId`. -/
def createFlow (env : FinanceEnv) (id : ℕ) (now : ℤ) (input : CreateFlowInput) : Except Js.HttpError Flow :=
  prepareFlow env input >>= writeFlow id now input

/-- `markPaidInTransaction`. -/
def markPaid (flows : List Flow) (id : ℕ) (rate : Option ℚ) (now : ℤ) : Except Js.HttpError Flow := do
  Js.require (rate.all (0 < ·)) (.badRequest "Курс — положительное число")
  let row ← Js.orThrow (Table.lookup Flow.id flows id) (.notFound "Запись не найдена")
  Js.require (row.status = .planned) (.badRequest s!"Запись уже закрыта ({row.status.text})")
  let rate := rate.or row.rate
  let amountUzs := if row.currency = "UZS" then none else (rate.map (row.amount * ·)).or row.amountUzs
  let rate ← numericOption 18 4 rate
  let amountUzs ← numericOption 18 2 amountUzs
  return { row with status := .actual, paidAt := some now, rate, amountUzs }

def cancelFlow (flows : List Flow) (id : ℕ) : Except Js.HttpError Flow := do
  let row ← Js.orThrow (Table.lookup Flow.id flows id) (.notFound "Запись не найдена")
  Js.require (row.status ≠ .cancelled) (.badRequest "Запись уже отменена")
  return { row with status := .cancelled }

/-- `case when currency = 'UZS' then amount else coalesce(amount_uzs, 0) end`. -/
def Flow.uzs (f : Flow) : ℚ := if f.currency = "UZS" then f.amount else f.amountUzs.getD 0

/-- `PAID_UZS_SQL`: what was really paid under a sale contract. -/
def paidUzs (flows : List Flow) (contract : ℕ) : ℚ :=
  ((flows.filter fun f => f.contractId = some contract ∧ f.direction = .incoming ∧ f.status = .actual).map Flow.uzs).sum

/-! What the operations do. -/

variable {env : FinanceEnv} {flows : List Flow} {id : ℕ} {now : ℤ} {input : CreateFlowInput} {rate : Option ℚ}
  {row : Flow}

/-- The columns of a new row that its callers rely on. -/
theorem createFlow_eq_ok (h : createFlow env id now input = .ok row) :
    row.id = id ∧ row.direction = input.direction ∧ row.status = input.status.toStatus ∧
      numeric 18 2 input.amount = .ok row.amount ∧ row.purpose = input.purpose ∧ row.category = input.category ∧
      row.dueDate = input.dueDate ∧ row.paidAt = (if input.status = .actual then some now else none) ∧
      row.date = input.date.getD now ∧ row.contractId = none ∧ row.importContractId = none ∧
      row.unitId = input.unitId := by
  obtain ⟨prep, -, hwrite⟩ := Js.bind_eq_ok.mp h
  obtain ⟨amount, hamount, hwrite⟩ := Js.bind_eq_ok.mp hwrite
  obtain ⟨_, -, hwrite⟩ := Js.bind_eq_ok.mp hwrite
  obtain ⟨_, -, hwrite⟩ := Js.bind_eq_ok.mp hwrite
  obtain rfl := Except.ok.inj hwrite
  exact ⟨rfl, rfl, rfl, hamount, rfl, rfl, rfl, rfl, rfl, rfl, rfl, rfl⟩

/-- A payment marks an obligation, and touches only what tells that it is paid. -/
theorem markPaid_eq_ok (h : markPaid flows id rate now = .ok row) :
    ∃ old uzs r, Table.lookup Flow.id flows id = some old ∧ old.status = .planned ∧
      row = { old with status := .actual, paidAt := some now, rate := r, amountUzs := uzs } := by
  obtain ⟨_, -, h⟩ := Js.bind_eq_ok.mp h
  obtain ⟨old, hold, h⟩ := Js.bind_eq_ok.mp h
  obtain ⟨_, hplanned, h⟩ := Js.bind_eq_ok.mp h
  obtain ⟨r, -, h⟩ := Js.bind_eq_ok.mp h
  obtain ⟨uzs, -, h⟩ := Js.bind_eq_ok.mp h
  exact ⟨old, uzs, r, Js.orThrow_eq_ok.mp hold, Js.require_eq_ok.mp hplanned, (Except.ok.inj h).symm⟩

theorem cancelFlow_eq_ok (h : cancelFlow flows id = .ok row) :
    ∃ old, Table.lookup Flow.id flows id = some old ∧ old.status ≠ .cancelled ∧
      row = { old with status := .cancelled } := by
  obtain ⟨old, hold, h⟩ := Js.bind_eq_ok.mp h
  obtain ⟨_, hnot, h⟩ := Js.bind_eq_ok.mp h
  exact ⟨old, Js.orThrow_eq_ok.mp hold, Js.require_eq_ok.mp hnot, (Except.ok.inj h).symm⟩

end Mydon.Finance
