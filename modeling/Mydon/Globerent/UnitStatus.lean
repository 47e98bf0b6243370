import Mathlib.Data.List.Basic

/-! The status machine of a unit of machinery: seventeen statuses, the actions of the logistician
with the statuses they are allowed from, and the stages of a sale above the warehouse. -/

namespace Mydon.Globerent

inductive UnitStatus
  | NEW_REQUEST
  | CONTRACT_SIGNED
  | IN_PRODUCTION
  | READY_FOR_SHIPMENT
  | IN_TRANSIT_TO_BORDER
  | IN_TRANSIT_TO_UZ
  | AT_BORDER
  | CUSTOMS_CLEARANCE
  | IM74
  | IM40
  | DELIVERED_TO_WH
  | IN_STOCK
  | RESERVED
  | SOLD
  | DELIVERED_TO_CLIENT
  | ARCHIVED
  | CANCELLED
  deriving DecidableEq

/-- `UNIT_STATUS_LABELS`. -/
def UnitStatus.label : UnitStatus → String
  | NEW_REQUEST => "заявка"
  | CONTRACT_SIGNED => "контракт подписан"
  | IN_PRODUCTION => "в производстве"
  | READY_FOR_SHIPMENT => "готова к отгрузке"
  | IN_TRANSIT_TO_BORDER => "в пути до границы"
  | IN_TRANSIT_TO_UZ => "в пути по Узбекистану"
  | AT_BORDER => "на границе"
  | CUSTOMS_CLEARANCE => "растаможка"
  | IM74 => "ГТД ИМ-74 (врем. ввоз)"
  | IM40 => "ГТД ИМ-40 (св. обращение)"
  | DELIVERED_TO_WH => "доставлена на склад"
  | IN_STOCK => "на складе"
  | RESERVED => "резерв"
  | SOLD => "продана"
  | DELIVERED_TO_CLIENT => "передана клиенту"
  | ARCHIVED => "архив"
  | CANCELLED => "отменена"

/-- The keys of `UNIT_TRANSITIONS`. -/
inductive UnitAction
  | markInProduction
  | markReadyToShip
  | markInTransit
  | markAtBorder
  | markCustomsIm74
  | markCustomsIm40
  | markDelivered
  | toStock
  | markSold
  | markHandover
  | cancel
  | archive
  deriving DecidableEq

structure UnitTransition where
  target : UnitStatus
  sources : List UnitStatus
  label : String
  deriving DecidableEq

open UnitStatus in
def UNIT_TRANSITIONS : UnitAction → UnitTransition
  | .markInProduction => ⟨IN_PRODUCTION, [CONTRACT_SIGNED], "в производстве"⟩
  | .markReadyToShip => ⟨READY_FOR_SHIPMENT, [CONTRACT_SIGNED, IN_PRODUCTION], "готова к отгрузке"⟩
  | .markInTransit =>
    ⟨IN_TRANSIT_TO_UZ, [CUSTOMS_CLEARANCE, AT_BORDER, READY_FOR_SHIPMENT, IN_TRANSIT_TO_BORDER], "в пути"⟩
  | .markAtBorder => ⟨AT_BORDER, [IN_TRANSIT_TO_BORDER, IN_TRANSIT_TO_UZ, READY_FOR_SHIPMENT], "на границе"⟩
  | .markCustomsIm74 => ⟨IM74, [IN_TRANSIT_TO_UZ, AT_BORDER, CUSTOMS_CLEARANCE], "ГТД ИМ-74"⟩
  | .markCustomsIm40 => ⟨IM40, [IN_TRANSIT_TO_UZ, AT_BORDER, CUSTOMS_CLEARANCE, IM74], "ГТД ИМ-40"⟩
  | .markDelivered => ⟨DELIVERED_TO_WH, [IM74, IM40, IN_TRANSIT_TO_UZ, AT_BORDER], "доставлена на склад"⟩
  | .toStock => ⟨IN_STOCK, [DELIVERED_TO_WH], "принять на склад"⟩
  | .markSold => ⟨SOLD, [IN_STOCK, RESERVED, DELIVERED_TO_WH], "продана"⟩
  | .markHandover => ⟨DELIVERED_TO_CLIENT, [SOLD], "передана клиенту"⟩
  | .cancel => ⟨CANCELLED, [NEW_REQUEST, CONTRACT_SIGNED, IN_PRODUCTION], "отменить"⟩
  | .archive => ⟨ARCHIVED, [DELIVERED_TO_CLIENT, CANCELLED], "в архив"⟩

/-- Why an action is not allowed; none where it is. -/
def unitTransitionError (action : UnitAction) (current : UnitStatus) : Option String :=
  let t := UNIT_TRANSITIONS action
  if current ∈ t.sources then none
  else some ("Переход «" ++ t.label ++ "» невозможен из статуса «" ++ current.label ++ "» (разрешено из: " ++
    String.intercalate ", " (t.sources.map UnitStatus.label) ++ ")")

def VIN_UNBIND_ALLOWED : List UnitStatus := [.IN_TRANSIT_TO_UZ, .CONTRACT_SIGNED]

def RESERVE_ALLOWED : List UnitStatus := [.IN_STOCK, .DELIVERED_TO_WH]

def SALE_START_ALLOWED : List UnitStatus := [.IN_STOCK, .DELIVERED_TO_WH, .RESERVED]

/-- The tabs of the list, in the order of the pipeline. -/
inductive UnitGroup
  | zayavka
  | production
  | transit
  | border
  | im74
  | im40
  | stock
  | closed
  deriving DecidableEq

open UnitStatus in
/-- `UNIT_GROUPS`. -/
def UnitGroup.statuses : UnitGroup → List UnitStatus
  | zayavka => [NEW_REQUEST, CONTRACT_SIGNED]
  | production => [IN_PRODUCTION, READY_FOR_SHIPMENT]
  | transit => [IN_TRANSIT_TO_BORDER, IN_TRANSIT_TO_UZ]
  | border => [AT_BORDER]
  | im74 => [CUSTOMS_CLEARANCE, IM74]
  | im40 => [IM40]
  | stock => [DELIVERED_TO_WH, IN_STOCK, RESERVED, SOLD, DELIVERED_TO_CLIENT]
  | closed => [ARCHIVED, CANCELLED]

inductive SalesStage
  | NEW_LEAD
  | NEGOTIATION
  | PRICE_OFFER
  | WAITING_CONTRACT
  | WAITING_ADVANCE
  | ADVANCE_PAID
  | WAITING_FINAL
  | FULLY_PAID
  | READY_TO_SHIP
  | DELIVERED
  | CLOSED
  | LOST
  deriving DecidableEq

def STAGES_REQUIRE_PRICE : List SalesStage := [.WAITING_ADVANCE, .WAITING_FINAL, .READY_TO_SHIP]

/-! The phases of the pipeline, which its tabs are. -/

open UnitStatus in
/-- The place of the status's tab among the tabs. -/
def UnitStatus.phase : UnitStatus → ℕ
  | NEW_REQUEST | CONTRACT_SIGNED => 0
  | IN_PRODUCTION | READY_FOR_SHIPMENT => 1
  | IN_TRANSIT_TO_BORDER | IN_TRANSIT_TO_UZ => 2
  | AT_BORDER => 3
  | CUSTOMS_CLEARANCE | IM74 => 4
  | IM40 => 5
  | DELIVERED_TO_WH | IN_STOCK | RESERVED | SOLD | DELIVERED_TO_CLIENT => 6
  | ARCHIVED | CANCELLED => 7

def UNIT_GROUPS : List UnitGroup := [.zayavka, .production, .transit, .border, .im74, .im40, .stock, .closed]

/-- Only from the border or the customs clearance does an action lead to an earlier phase. -/
theorem phase_le_of_transition {action : UnitAction} {st : UnitStatus} (h : st ∈ (UNIT_TRANSITIONS action).sources)
    (hback : ¬ (action = .markInTransit ∧ (st = .AT_BORDER ∨ st = .CUSTOMS_CLEARANCE))) :
    st.phase ≤ (UNIT_TRANSITIONS action).target.phase := by
  revert h hback
  cases action <;> cases st <;> decide

/-- The customs declaration is in: these statuses are left only for one another. -/
def UnitStatus.Declared (st : UnitStatus) : Prop := 4 ≤ st.phase ∧ st ≠ .CUSTOMS_CLEARANCE

instance (st : UnitStatus) : Decidable st.Declared := inferInstanceAs (Decidable (_ ∧ _))

theorem declared_of_transition {action : UnitAction} {st : UnitStatus} (h : st ∈ (UNIT_TRANSITIONS action).sources)
    (hdeclared : st.Declared) :
    (UNIT_TRANSITIONS action).target.Declared ∧ st.phase ≤ (UNIT_TRANSITIONS action).target.phase := by
  revert h hdeclared
  cases action <;> cases st <;> decide

theorem unitTransitionError_eq_none {action : UnitAction} {st : UnitStatus} :
    unitTransitionError action st = none ↔ st ∈ (UNIT_TRANSITIONS action).sources := by
  unfold unitTransitionError
  dsimp only
  split_ifs with h <;> simp [h]

end Mydon.Globerent
