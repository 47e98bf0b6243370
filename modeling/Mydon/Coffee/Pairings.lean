import Mydon.Lib.Pairing
import Mathlib.Data.List.Sort
import Mathlib.Algebra.Order.Ring.Int

/-! The fills of a container paired with its returns, for the norm against the fact and for the consumption
reports. Days are numbers; a row's `id` is its row in the table, neither pairing reads it. -/

namespace Mydon.Coffee

open Mydon.Lib

structure Refill where
  id : ℕ
  position : ℤ
  containerNumber : Option ℤ
  enteredDate : ℤ
  filledWeight : ℤ
  locationId : String
  locationName : String
  ingredientId : Option String
  deriving DecidableEq

structure ContainerReturn where
  id : ℕ
  position : ℤ
  containerNumber : ℤ
  weight : ℤ
  returnedDate : ℤ
  deriving DecidableEq

/-- The key `container:position`. -/
abbrev SetKey := ℤ × ℤ

def netWeight (filledWeight : ℤ) (tareWeight : Option ℤ) : Option ℤ := tareWeight.map (filledWeight - ·)

/-! `NormFactService.matchRefillsToReturns`. -/

structure NormFill where
  refillId : ℕ
  date : ℤ
  locationId : String
  ingredientId : Option String
  net : Option ℤ
  deriving DecidableEq

structure NormReturn where
  returnId : ℕ
  position : ℤ
  containerNumber : ℤ
  date : ℤ
  net : Option ℤ
  deriving DecidableEq

/-- `СыраяПара`. -/
structure RawPair where
  refillId : ℕ
  returnId : ℕ
  position : ℤ
  containerNumber : ℤ
  locationId : String
  fillDate : ℤ
  returnDate : ℤ
  fillNet : Option ℤ
  returnNet : Option ℤ
  ingredientIdRaw : Option String
  deriving DecidableEq

/-- The loop: the latest fill strictly before the day, and the first one not before it if of the day. -/
def strictlyBefore {α : Type*} (date : α → ℤ) (day : ℤ) : List α → ℕ → Option ℕ → Option ℕ × Option ℕ
  | [], _, picked => (picked, none)
  | f :: rest, i, picked =>
    if date f < day then strictlyBefore date day rest (i + 1) (some i)
    else (picked, if date f = day then some i else none)

def pickNorm {α : Type*} (date : α → ℤ) (list : List α) (start : ℕ) (day : ℤ) : Option ℕ :=
  let (picked, sameDay) := strictlyBefore date day (list.drop start) start none
  picked.or sameDay

def normFills (refills : List Refill) (tareByKey : SetKey → Option ℤ) (k : SetKey) : List NormFill :=
  ((refills.filter fun f => f.containerNumber = some k.1 ∧ f.position = k.2).map fun f =>
    (⟨f.id, f.enteredDate, f.locationId, f.ingredientId,
      netWeight f.filledWeight (tareByKey k)⟩ : NormFill)).insertionSort fun a b => a.date ≤ b.date

def normReturn (tareByKey : SetKey → Option ℤ) (r : ContainerReturn) : NormReturn :=
  ⟨r.id, r.position, r.containerNumber, r.returnedDate, netWeight r.weight (tareByKey (r.containerNumber, r.position))⟩

def rawPair (pair : NormFill × NormReturn) : RawPair :=
  let (fill, r) := pair
  { refillId := fill.refillId
    returnId := r.returnId
    position := r.position
    containerNumber := r.containerNumber
    locationId := fill.locationId
    fillDate := fill.date
    returnDate := r.date
    fillNet := fill.net
    returnNet := r.net
    ingredientIdRaw := fill.ingredientId }

def matchRefillsToReturns (refills : List Refill) (returns : List ContainerReturn) (tareByKey : SetKey → Option ℤ) :
    List RawPair :=
  let sortedReturns := (returns.map (normReturn tareByKey)).insertionSort fun a b => a.date ≤ b.date
  (pairUp (normFills refills tareByKey) (fun r => (r.containerNumber, r.position))
    (fun list start r => pickNorm NormFill.date list start r.date) (fun _ => 0) sortedReturns).map rawPair

/-! The shared `matchReturnsToRefills`, and the events that the reports feed it with. -/

structure ContainerFillEvent where
  refillId : ℕ
  date : ℤ
  position : ℤ
  containerNumber : ℤ
  netWeight : Option ℤ
  locationId : String
  locationName : String
  deriving DecidableEq

structure ContainerReturnEvent where
  returnId : ℕ
  date : ℤ
  position : ℤ
  containerNumber : ℤ
  netWeight : Option ℤ
  deriving DecidableEq

structure ContainerConsumptionRow where
  refillId : ℕ
  returnId : ℕ
  containerNumber : ℤ
  position : ℤ
  locationId : String
  locationName : String
  fillDate : ℤ
  returnDate : ℤ
  fillNet : Option ℤ
  returnNet : Option ℤ
  consumedGrams : Option ℤ
  deriving DecidableEq

/-- The loop: the latest fill up to the day. -/
def upToDay {α : Type*} (date : α → ℤ) (day : ℤ) : List α → ℕ → Option ℕ → Option ℕ
  | [], _, picked => picked
  | f :: rest, i, picked => if date f ≤ day then upToDay date day rest (i + 1) (some i) else picked

def pickShared {α : Type*} (date : α → ℤ) (list : List α) (start : ℕ) (day : ℤ) : Option ℕ :=
  upToDay date day (list.drop start) start none

/-- Grams used; unknown without a tare, or where the weights contradict each other. -/
def consumedGrams (fillNet returnNet : Option ℤ) : Option ℤ :=
  match fillNet, returnNet with
  | some fill, some ret => if 0 ≤ ret ∧ ret ≤ fill then some (fill - ret) else none
  | _, _ => none

def consumptionRow (pair : ContainerFillEvent × ContainerReturnEvent) : ContainerConsumptionRow :=
  let (fill, r) := pair
  { refillId := fill.refillId
    returnId := r.returnId
    containerNumber := r.containerNumber
    position := r.position
    locationId := fill.locationId
    locationName := fill.locationName
    fillDate := fill.date
    returnDate := r.date
    fillNet := fill.netWeight
    returnNet := r.netWeight
    consumedGrams := consumedGrams fill.netWeight r.netWeight }

def eventFills (fills : List ContainerFillEvent) (k : SetKey) : List ContainerFillEvent :=
  (fills.filter fun f => f.containerNumber = k.1 ∧ f.position = k.2).insertionSort fun a b => a.date ≤ b.date

def matchReturnsToRefills (fills : List ContainerFillEvent) (returns : List ContainerReturnEvent) :
    List ContainerConsumptionRow :=
  let sortedReturns := returns.insertionSort fun a b => a.date ≤ b.date
  (pairUp (eventFills fills) (fun r => (r.containerNumber, r.position))
    (fun list start r => pickShared ContainerFillEvent.date list start r.date) (fun _ => 0) sortedReturns).map
    consumptionRow

def fillEvent (tareByKey : SetKey → Option ℤ) (f : Refill) : Option ContainerFillEvent :=
  f.containerNumber.map fun containerNumber =>
    ⟨f.id, f.enteredDate, f.position, containerNumber,
      netWeight f.filledWeight (tareByKey (containerNumber, f.position)), f.locationId, f.locationName⟩

def returnEvent (tareByKey : SetKey → Option ℤ) (r : ContainerReturn) : ContainerReturnEvent :=
  ⟨r.id, r.returnedDate, r.position, r.containerNumber,
    netWeight r.weight (tareByKey (r.containerNumber, r.position))⟩

/-- The rows behind `containerConsumption` and the reconciliation of all locations. -/
def consumptionRows (refills : List Refill) (returns : List ContainerReturn) (tareByKey : SetKey → Option ℤ) :
    List ContainerConsumptionRow :=
  matchReturnsToRefills (refills.filterMap (fillEvent tareByKey)) (returns.map (returnEvent tareByKey))

/-! Both read as pairs of the rows themselves. -/

def ContainerReturn.key (r : ContainerReturn) : SetKey := (r.containerNumber, r.position)

def fillsOf (refills : List Refill) (k : SetKey) : List Refill :=
  (refills.filter fun f => f.containerNumber = some k.1 ∧ f.position = k.2).insertionSort
    fun a b => a.enteredDate ≤ b.enteredDate

def sortedReturns (returns : List ContainerReturn) : List ContainerReturn :=
  returns.insertionSort fun a b => a.returnedDate ≤ b.returnedDate

end Mydon.Coffee
