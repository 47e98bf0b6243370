import Mydon.Lib.Tally
import Mydon.Vending.Slots
import Mathlib.Algebra.Order.BigOperators.Group.List
import Mathlib.Algebra.Order.Ring.Rat

/-! What is computed from the history of the slots: the refills, as rises between neighbouring
snapshots, and the shrinkage of the days without one. -/

namespace Mydon.Vending

open Mydon.Lib

structure MachineSnapshot where
  serial : String
  capturedAt : ℤ
  slots : List Slot
  deriving DecidableEq

def hasProduct (s : Slot) : Bool := s.product.any fun p => Js.trim p ≠ ""

def slotValid (s : Slot) : Bool := capacityValid s.capacity

def usable (s : Slot) : Bool := hasProduct s && slotValid s

inductive PlanogramStatus
  | noSlots
  | uncalibrated
  | ok
  deriving DecidableEq

/-- Uncalibrated is where less than a half of the slots with a product are valid. -/
def planogramStatus (slots : List Slot) : PlanogramStatus :=
  let withProduct := slots.filter hasProduct
  if withProduct.length = 0 then .noSlots
  else if 2 * (withProduct.filter slotValid).length < withProduct.length then .uncalibrated
  else .ok

def DEAD_MIN_SLOTS : ℕ := 10

def deadMachine (slots : List Slot) : Bool :=
  let withProduct := slots.filter hasProduct
  DEAD_MIN_SLOTS ≤ withProduct.length && withProduct.all (!slotValid ·)

/-! Refills. -/

def filled (s : Slot) : ℤ := min s.quantity s.capacity

/-- `s.product!.trim()`. -/
def productName (s : Slot) : String := Js.trim (s.product.getD "")

structure SlotRise where
  coilId : String
  product : String
  before : ℤ
  after : ℤ
  delta : ℤ
  deriving DecidableEq

structure RefillEvent where
  serial : String
  windowFrom : ℤ
  windowTo : ℤ
  units : ℤ
  slots : List SlotRise
  deriving DecidableEq

/-- The slot that stands for each coil: its last usable row. -/
def held (slots : List Slot) : List (String × Slot) := collapse Slot.coilId (slots.filter usable)

/-- A slot that was refilled: the same coil held less of the same product. -/
def slotRise (before : List (String × Slot)) (s : Slot) : Option SlotRise :=
  if usable s then
    match OrderedMap.get before s.coilId with
    | none => none
    | some b =>
      if b.product.map Js.trim ≠ s.product.map Js.trim then none
      else if 0 < filled s - filled b then some ⟨s.coilId, productName s, filled b, filled s, filled s - filled b⟩
      else none
  else none

def rises (prev cur : List Slot) : List SlotRise := cur.filterMap (slotRise (held prev))

def unitsOf (slots : List SlotRise) : ℤ := (slots.map (·.delta)).sum

/-- A threshold of zero would make every window a refill. -/
def reaches (minUnits units : ℤ) : Bool := 0 < units && minUnits ≤ units

def windowEvent (minUnits : ℤ) (serial : String) (prev cur : MachineSnapshot) : Option RefillEvent :=
  if deadMachine prev.slots || deadMachine cur.slots then none
  else
    let slots := rises prev.slots cur.slots
    if reaches minUnits (unitsOf slots) then some ⟨serial, prev.capturedAt, cur.capturedAt, unitsOf slots, slots⟩
    else none

def byTime (snapshots : List MachineSnapshot) : List MachineSnapshot :=
  snapshots.insertionSort fun a b => a.capturedAt ≤ b.capturedAt

def detectRefills (snapshots : List MachineSnapshot) (minUnits : ℤ) : List RefillEvent :=
  (group MachineSnapshot.serial snapshots).flatMap fun e =>
    let sorted := byTime e.2
    (sorted.zip sorted.tail).filterMap fun w => windowEvent minUnits e.1 w.1 w.2

structure HumanRefill where
  id : String
  serial : String
  performedAt : ℤ
  qty : ℤ
  deriving DecidableEq

/-- The operator's record closest to the middle of the window, within `padMs` of the window. -/
def matchRefill (event : RefillEvent) (refills : List HumanRefill) (padMs : ℤ) : Option HumanRefill :=
  let lo := event.windowFrom - padMs
  let hi := event.windowTo + padMs
  let mid : ℚ := (event.windowFrom + event.windowTo) / 2
  let candidates := refills.filter fun r => r.serial = event.serial && lo ≤ r.performedAt && r.performedAt ≤ hi
  (candidates.insertionSort fun a b => |(a.performedAt : ℚ) - mid| ≤ |(b.performedAt : ℚ) - mid|).head?

/-! Shrinkage. -/

/-- What the usable slots hold of each product. -/
def qtyByProduct (slots : List Slot) : List (String × ℤ) :=
  tally productName (fun _ => 0) (fun n s => n + filled s) (slots.filter usable)

structure ShrinkDayInput where
  date : ℤ
  startSlots : List Slot
  endSlots : List Slot
  sales : List (String × ℚ)
  refillUnits : ℤ
  deriving DecidableEq

structure ShrinkItem where
  product : String
  lossUnits : ℚ
  lossValue : ℚ
  surplusUnits : ℚ
  daysCounted : ℕ
  noPrice : Bool
  alert : Bool
  deriving DecidableEq

structure ShrinkSummary where
  items : List ShrinkItem
  lossValue : ℚ
  daysCounted : ℕ
  daysSkipped : ℕ
  threshold : ℚ
  deriving DecidableEq

/-- A product over the period so far. -/
structure ShrinkAcc where
  net : ℚ
  daysCounted : ℕ
  noPrice : Bool
  deriving DecidableEq

/-- A product counts on a day when it is in the start and in the end. -/
def dayNets (d : ShrinkDayInput) : List (String × ℚ) :=
  (qtyByProduct d.startSlots).filterMap fun start =>
    (OrderedMap.get (qtyByProduct d.endSlots) start.1).map fun endQty =>
      (start.1, (start.2 : ℚ) - (OrderedMap.get d.sales start.1).getD 0 - endQty)

def countedDays (days : List ShrinkDayInput) : List ShrinkDayInput := days.filter fun d => d.refillUnits ≤ 0

def shrinkAcc (prices : List (String × ℚ)) (nets : List (String × ℚ)) : List (String × ShrinkAcc) :=
  tally Prod.fst (fun product => ⟨0, 0, (OrderedMap.get prices product).isNone⟩)
    (fun a e => { a with net := a.net + e.2, daysCounted := a.daysCounted + 1 }) nets

def shrinkItem (prices : List (String × ℚ)) (threshold : ℚ) (e : String × ShrinkAcc) : ShrinkItem :=
  let lossUnits := max 0 e.2.net
  let lossValue := match OrderedMap.get prices e.1 with
    | none => 0
    | some price => lossUnits * price
  { product := e.1
    lossUnits
    lossValue
    surplusUnits := max 0 (-e.2.net)
    daysCounted := e.2.daysCounted
    noPrice := e.2.noPrice
    alert := 0 < lossUnits && threshold ≤ lossValue }

def shrinkItems (prices : List (String × ℚ)) (threshold : ℚ) (acc : List (String × ShrinkAcc)) : List ShrinkItem :=
  ((acc.map (shrinkItem prices threshold)).filter fun i => 0 < i.lossUnits || 0 < i.surplusUnits).insertionSort
    fun a b => b.lossValue ≤ a.lossValue

/-- A day with a refill is left out as a whole; the rest nets out within a product. -/
def shrinkageByDay (days : List ShrinkDayInput) (prices : List (String × ℚ)) (threshold : ℚ) : ShrinkSummary :=
  let counted := countedDays days
  let items := shrinkItems prices threshold (shrinkAcc prices (counted.flatMap dayNets))
  { items
    lossValue := (items.map (·.lossValue)).sum
    daysCounted := counted.length
    daysSkipped := days.length - counted.length
    threshold }

/-! The pieces. -/

theorem usable_eq_false_of_dead {slots : List Slot} (h : deadMachine slots = true) {s : Slot} (hs : s ∈ slots) :
    usable s = false := by
  unfold deadMachine at h
  rw [Bool.and_eq_true, List.all_eq_true] at h
  by_contra hu
  unfold usable at hu
  rw [Bool.not_eq_false, Bool.and_eq_true] at hu
  have hinvalid := h.2 s (List.mem_filter.mpr ⟨hs, hu.1⟩)
  rw [hu.2] at hinvalid
  cases hinvalid

theorem slotRise_of_not_usable {before : List (String × Slot)} {s : Slot} (h : usable s = false) :
    slotRise before s = none := by
  simp [slotRise, h]

theorem rises_of_dead {prev cur : List Slot} (h : (deadMachine prev || deadMachine cur) = true) : rises prev cur = [] := by
  unfold rises
  rw [List.filterMap_eq_nil_iff]
  intro s hs
  rcases (Bool.or_eq_true _ _).mp h with h | h
  · have hheld : held prev = [] := by
      have hnone : prev.filter usable = [] := by
        rw [List.filter_eq_nil_iff]
        intro s hs
        rw [usable_eq_false_of_dead h hs]
        exact Bool.false_ne_true
      simp [held, hnone, collapse]
    simp [slotRise, hheld]
  · exact slotRise_of_not_usable (usable_eq_false_of_dead h hs)

/-- A dead machine shows no rise, so the check of it decides nothing. -/
theorem windowEvent_eq (minUnits : ℤ) (serial : String) (prev cur : MachineSnapshot) :
    windowEvent minUnits serial prev cur =
      if reaches minUnits (unitsOf (rises prev.slots cur.slots)) then
        some ⟨serial, prev.capturedAt, cur.capturedAt, unitsOf (rises prev.slots cur.slots), rises prev.slots cur.slots⟩
      else none := by
  unfold windowEvent
  by_cases hdead : (deadMachine prev.slots || deadMachine cur.slots) = true
  · rw [if_pos hdead, rises_of_dead hdead]
    rfl
  · rw [if_neg hdead]

theorem windowEvent_fields {minUnits : ℤ} {serial : String} {prev cur : MachineSnapshot} {ev : RefillEvent}
    (h : windowEvent minUnits serial prev cur = some ev) :
    ev.serial = serial ∧ ev.windowFrom = prev.capturedAt ∧ ev.windowTo = cur.capturedAt := by
  rw [windowEvent_eq] at h
  split_ifs at h
  obtain rfl := Option.some.inj h
  exact ⟨rfl, rfl, rfl⟩

theorem slotRise_pos {before : List (String × Slot)} {s : Slot} {rise : SlotRise} (h : slotRise before s = some rise) :
    0 < rise.delta := by
  unfold slotRise at h
  split_ifs at h
  split at h
  · cases h
  · split_ifs at h with hproduct hpos
    obtain rfl := Option.some.inj h
    exact hpos

theorem unitsOf_nonneg {prev cur : List Slot} : 0 ≤ unitsOf (rises prev cur) := by
  refine List.sum_nonneg fun n hn => ?_
  obtain ⟨rise, hrise, rfl⟩ := List.mem_map.mp hn
  obtain ⟨s, _, hs⟩ := List.mem_filterMap.mp hrise
  exact (slotRise_pos hs).le

/-- The snapshots of one machine. -/
theorem detectRefills_of_serial {snapshots : List MachineSnapshot} {minUnits : ℤ} {serial : String}
    (h : ∀ s ∈ snapshots, s.serial = serial) : detectRefills snapshots minUnits =
      ((byTime snapshots).zip (byTime snapshots).tail).filterMap fun w => windowEvent minUnits serial w.1 w.2 := by
  unfold detectRefills
  rcases snapshots with _ | ⟨s, rest⟩
  · rfl
  · have hkeys : OrderedMap.keySet ((s :: rest).map MachineSnapshot.serial) = [serial] := by
      have hrest : distinctFrom [serial] (rest.map MachineSnapshot.serial) = [serial] := by
        refine distinctFrom_of_subset fun k hk => ?_
        obtain ⟨r, hr, rfl⟩ := List.mem_map.mp hk
        exact List.mem_singleton.mpr (h r (List.mem_cons_of_mem _ hr))
      rw [List.map_cons, OrderedMap.keySet, List.foldl_cons, h s List.mem_cons_self]
      exact hrest
    have hall : (s :: rest).filter (fun r => r.serial = serial) = s :: rest :=
      List.filter_eq_self.mpr fun r hr => decide_eq_true (h r hr)
    rw [group_eq, hkeys, List.map_singleton, hall, List.flatMap_singleton]

end Mydon.Vending
