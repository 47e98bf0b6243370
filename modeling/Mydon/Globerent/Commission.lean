import Mydon.Cash.Collections
import Mydon.Globerent.Units

/-! The manager's commission: the three methods of the calculator, and the row that closing a deal
writes after its transaction. -/

namespace Mydon.Globerent

open Mydon.Finance Mydon.Stock Mydon.Cash

def round2 (n : ℚ) : ℚ := mathRound (n * 100) / 100

inductive CommissionMethod
  | margin_rate
  | tiers
  | flat_bonus
  deriving DecidableEq

def CommissionMethod.text : CommissionMethod → String
  | margin_rate => "margin_rate"
  | tiers => "tiers"
  | flat_bonus => "flat_bonus"

def COMMISSION_METHODS : List CommissionMethod := [.margin_rate, .tiers, .flat_bonus]

def commissionMarginRate (salePrice costTotal ratePct : ℚ) : Option ℚ :=
  if salePrice ≤ 0 then none else some (mathRound ((salePrice - costTotal) * ratePct) / 100)

inductive TierBase
  | net_pocket
  | margin
  | revenue
  deriving DecidableEq

/-- A common tier: no call has a position of its own. -/
structure CommissionTier where
  marginPctFrom : ℚ
  marginPctTo : Option ℚ
  ratePct : ℚ
  baseType : TierBase
  deriving DecidableEq

def DEFAULT_COMMISSION_TIERS : List CommissionTier :=
  [⟨0, some 5, 1 / 2, .net_pocket⟩, ⟨5, some 10, 3 / 2, .net_pocket⟩, ⟨10, some 15, 5 / 2, .net_pocket⟩,
    ⟨15, none, 7 / 2, .net_pocket⟩]

/-- Of the tiers around the margin, the first with the largest lower bound. -/
def pickTier (tiers : List CommissionTier) (marginPct : ℚ) : Option CommissionTier :=
  let candidates := tiers.filter fun t => t.marginPctFrom ≤ marginPct ∧ t.marginPctTo.all (marginPct < ·)
  (candidates.insertionSort fun a b => b.marginPctFrom ≤ a.marginPctFrom).head?

def commissionTiers (salePrice costOfficialTotal : ℚ) (qty : ℕ) (netPocketPerUnit : Option ℚ)
    (tiers : List CommissionTier) : Option ℚ :=
  if salePrice ≤ 0 ∨ costOfficialTotal ≤ 0 then none
  else
    (pickTier tiers (round2 ((salePrice - costOfficialTotal) / costOfficialTotal * 100))).bind fun tier =>
      let base : Option ℚ := match tier.baseType with
        | .net_pocket => netPocketPerUnit.map fun perUnit => perUnit * (max 1 qty : ℕ)
        | .margin => some (salePrice - costOfficialTotal)
        | .revenue => some (salePrice * (max 1 qty : ℕ))
      base.map fun base => round2 (base * tier.ratePct / 100)

def commissionFlatBonus (netProfitTotal ratePct : ℚ) : ℚ := round2 (max 0 netProfitTotal * (ratePct / 100))

structure CommissionFigures where
  salePrice : Option ℚ
  costTotal : Option ℚ
  costOfficialTotal : Option ℚ
  netProfitTotal : Option ℚ
  netPocketPerUnit : Option ℚ
  ratePct : ℚ
  qty : ℕ
  deriving DecidableEq

/-- The commission, and why it is none. -/
structure CommissionResult where
  method : CommissionMethod
  commission : ℚ
  note : Option String
  deriving DecidableEq

def computeCommission (method : CommissionMethod) (figures : CommissionFigures) : CommissionResult :=
  match method with
  | .margin_rate =>
    match figures.salePrice, figures.costTotal with
    | some salePrice, some costTotal =>
      match commissionMarginRate salePrice costTotal figures.ratePct with
      | none => ⟨method, 0, some "цена продажи не заполнена"⟩
      | some c => ⟨method, c, if figures.ratePct = 0 then some "ставка должности не задана" else none⟩
    | _, _ => ⟨method, 0, some "нет цены продажи или себестоимости"⟩
  | .tiers =>
    match figures.salePrice, figures.costOfficialTotal with
    | some salePrice, some cost =>
      match commissionTiers salePrice cost figures.qty figures.netPocketPerUnit DEFAULT_COMMISSION_TIERS with
      | none => ⟨method, 0, some "не подобран tier или нет базы net_pocket"⟩
      | some c => ⟨method, c, none⟩
    | _, _ => ⟨method, 0, some "нет цены продажи или официальной себестоимости"⟩
  | .flat_bonus =>
    match figures.netProfitTotal with
    | none => ⟨method, 0, some "нет фактической прибыли (нужен расчёт калькулятора)"⟩
    | some profit => ⟨method, commissionFlatBonus profit figures.ratePct,
        if profit ≤ 0 then some "прибыль не положительная — бонуса нет" else none⟩

/-- The total of `cogsBreakdown`: rows without a rate are left out. -/
def totalUzs (flows : List Flow) (unitId : ℕ) : ℚ :=
  let paid := flows.filter fun f => f.unitId = some unitId ∧ f.direction = .outgoing ∧ f.status = .actual
  round2 (paid.filterMap fun f => if f.currency = "UZS" then some f.amount else f.amountUzs).sum

/-- The rows of `system_config` for the commission. -/
structure CommissionConfig where
  method : Option String
  ratePct : Option String
  deriving DecidableEq

/-- A method that is not on the list counts as the default one. -/
def CommissionConfig.chosen (config : CommissionConfig) : CommissionMethod :=
  (COMMISSION_METHODS.find? fun m => some m.text = config.method).getD .flat_bonus

def CommissionConfig.rate (config : CommissionConfig) (env : Env) : ℚ := (env.host.number (config.ratePct.getD "8")).getD 8

def commissionFigures (env : Env) (config : CommissionConfig) (db : Db) (unit : GloberentUnit) : CommissionFigures :=
  let total := totalUzs db.flows unit.id
  let cost := if 0 < total then some total else none
  ⟨unit.salesPrice, cost, cost, none, none, config.rate env, 1⟩

/-- `accrueCommission`: the row to insert, where the commission is positive. -/
def accrueCommission (env : Env) (config : CommissionConfig) (unit : GloberentUnit) (db : Db) :
    Except Js.HttpError (Option Flow) :=
  let result := computeCommission config.chosen (commissionFigures env config db unit)
  if 0 < result.commission then
    (numeric 18 2 result.commission).map fun amount => some {
      id := db.flows.length
      direction := .outgoing
      amount
      currency := "UZS"
      purpose := some (s!"комиссия менеджера по WH-{Clock.padStart 4 unit.code} (метод {result.method.text})")
      date := env.now
      status := .planned
      category := some "commission"
      rate := none
      amountUzs := none
      counterpartyId := none
      docNo := none
      dueDate := none
      paidAt := none
      contractId := none
      importContractId := none
      unitId := some unit.id }
  else .ok none

end Mydon.Globerent
