import Mydon.Clock
import Mydon.Js.Text
import Mydon.Lib.Tally
import Mathlib.Data.List.Sort
import Mathlib.Data.Rat.Floor

/-! The cash of the machines: the estimate of what lies in them, and what was expected between two collections. -/

namespace Mydon.Cash

open Mydon.Lib

/-- `Math.round`. -/
def mathRound (x : ℚ) : ℤ := ⌊x + 1 / 2⌋

/-! Channels. -/

def norm (host : Js.Host) (v : Option String) : String := host.toLowerCase (Js.trim (v.getD ""))

def CASH_RESOURCES : List String := ["cash", "cash0", "cash payment", "credit"]

def orderIsCash (host : Js.Host) (orderResource : Option String) : Bool := norm host orderResource ∈ CASH_RESOURCES

/-- `lower(o.order_resource) IN (…)`, which does not trim. -/
def resourceIn (host : Js.Host) (orderResource : Option String) : Bool :=
  orderResource.any fun r => host.toLowerCase r ∈ CASH_RESOURCES

/-! `cashInMachines`. -/

structure CashSale where
  machineId : String
  ts : ℤ
  amount : ℚ
  cash : Bool
  deriving DecidableEq

structure ReceivedCollection where
  machineId : String
  receivedAt : ℤ
  deriving DecidableEq

structure MachineCash where
  machineId : String
  amount : ℚ
  since : Option ℤ
  deriving DecidableEq

structure CashInMachines where
  total : ℚ
  perMachine : List MachineCash
  deriving DecidableEq

/-- The latest receipt of each machine. -/
def latest (received : List ReceivedCollection) : List (String × ℤ) :=
  received.foldl (fun m c => OrderedMap.alter (fun own => match own with
    | none => c.receivedAt
    | some t => if t < c.receivedAt then c.receivedAt else t) c.machineId m) []

/-- A cash sale that the latest receipt of its machine does not leave out. -/
def counted (last : List (String × ℤ)) (s : CashSale) : Bool :=
  s.cash && (OrderedMap.get last s.machineId).all (· < s.ts)

def sums (last : List (String × ℤ)) (sales : List CashSale) : List (String × ℚ) :=
  tally CashSale.machineId (fun _ => 0) (fun own s => own + s.amount) (sales.filter (counted last))

def cashInMachines (sales : List CashSale) (received : List ReceivedCollection) : CashInMachines :=
  let last := latest received
  let perMachine := ((sums last sales).map fun e => MachineCash.mk e.1 e.2 (OrderedMap.get last e.1)).insertionSort
    fun a b => b.amount ≤ a.amount
  ⟨(perMachine.map (·.amount)).sum, perMachine⟩

/-! The tables. -/

inductive CollectionStatus
  | collected
  | received
  | cancelled
  deriving DecidableEq

structure CollectionRow where
  id : String
  machineId : String
  collectedAt : ℤ
  receivedAt : Option ℤ
  amount : Option ℚ
  status : CollectionStatus
  deriving DecidableEq

structure CoffeeOrderRow where
  machineId : Option String
  ts : ℤ
  amount : ℚ
  orderResource : Option String
  countable : Bool
  deriving DecidableEq

/-- A day of a snack machine; its channel of payment is not known. -/
structure SaleRow where
  machineId : Option String
  dt : ℤ
  amount : ℚ
  deriving DecidableEq

structure CashDb where
  collections : List CollectionRow
  orders : List CoffeeOrderRow
  sales : List SaleRow
  /-- Ids and names of the registry. -/
  names : List (String × String)
  deriving DecidableEq

/-- `имёнаМап.get`, where the last name of an id stays. -/
def nameOf (db : CashDb) (machineId : String) : Option String :=
  (db.names.reverse.find? fun e => e.1 = machineId).map Prod.snd

/-! `CollectionsService.cashEstimate`. -/

def coffeeSale (host : Js.Host) (o : CoffeeOrderRow) : Option CashSale :=
  if o.countable then o.machineId.map fun m => ⟨m, o.ts, o.amount, orderIsCash host o.orderResource⟩ else none

/-- `T23:59:59+05:00`: a day of snacks is put at its end, and taken for cash. -/
def snackSale (s : SaleRow) : Option CashSale :=
  s.machineId.map fun m => ⟨m, Clock.tashkentDayStart s.dt + 86399000, s.amount, true⟩

/-- `продажи`. -/
def estimateSales (host : Js.Host) (db : CashDb) : List CashSale :=
  db.orders.filterMap (coffeeSale host) ++ db.sales.filterMap snackSale

/-- `метки`. -/
def receipts (db : CashDb) : List ReceivedCollection :=
  db.collections.filterMap fun c => c.receivedAt.map fun t => ⟨c.machineId, t⟩

structure MachineEstimate where
  machineId : String
  name : Option String
  amount : ℤ
  since : Option ℤ
  deriving DecidableEq

structure CashEstimate where
  total : ℤ
  perMachine : List MachineEstimate
  deriving DecidableEq

def cashEstimate (host : Js.Host) (db : CashDb) : CashEstimate :=
  let found := cashInMachines (estimateSales host db) (receipts db)
  ⟨mathRound found.total, found.perMachine.map fun m => ⟨m.machineId, nameOf db m.machineId, mathRound m.amount, m.since⟩⟩

/-! `CollectionsService.reconcile`: the intervals. -/

/-- A row of the query over the pairs of neighbouring collections. -/
structure IntervalRow where
  id : String
  machineId : String
  prev : ℤ
  collectedAt : ℤ
  amount : Option ℚ
  expected : ℚ
  deriving DecidableEq

/-- The collections of a machine in their order. -/
def historyOf (db : CashDb) (machineId : String) : List CollectionRow :=
  (db.collections.filter fun c => c.status ≠ .cancelled && c.machineId = machineId).insertionSort
    fun a b => a.collectedAt ≤ b.collectedAt

/-- `LAG(c.collected_at) OVER (PARTITION BY c.machine_id ORDER BY c.collected_at)`. -/
def pairs (db : CashDb) : List (CollectionRow × CollectionRow) :=
  (OrderedMap.keySet (db.collections.map CollectionRow.machineId)).flatMap fun m =>
    (historyOf db m).zip (historyOf db m).tail

/-- The condition of the join. -/
def joins (host : Js.Host) (w : CollectionRow × CollectionRow) (o : CoffeeOrderRow) : Bool :=
  o.machineId = some w.2.machineId && o.countable && resourceIn host o.orderResource &&
    w.1.collectedAt < o.ts && o.ts ≤ w.2.collectedAt

def intervalRow (host : Js.Host) (db : CashDb) (w : CollectionRow × CollectionRow) : IntervalRow where
  id := w.2.id
  machineId := w.2.machineId
  prev := w.1.collectedAt
  collectedAt := w.2.collectedAt
  amount := w.2.amount
  expected := ((db.orders.filter (joins host w)).map (·.amount)).sum

def intervalRows (host : Js.Host) (db : CashDb) : List IntervalRow := (pairs db).map (intervalRow host db)

inductive IntervalStatus
  | awaiting
  | gap
  | usual
  deriving DecidableEq

structure ReconcileInterval where
  id : String
  machineId : String
  name : Option String
  from_ : ℤ
  to_ : ℤ
  days : ℚ
  expected : ℤ
  taken : Option ℤ
  difference : Option ℤ
  share : Option ℚ
  status : IntervalStatus
  deriving DecidableEq

/-- `медиана`. -/
def median (values : List ℚ) : ℚ :=
  let s := values.insertionSort (· ≤ ·)
  let mid := s.length / 2
  if s.length % 2 = 0 then (s.getD (mid - 1) 0 + s.getD mid 0) / 2 else s.getD mid 0

def daysOf (r : IntervalRow) : ℚ := (r.collectedAt - r.prev) / 86400000

def durations (rows : List IntervalRow) (machineId : String) : List ℚ :=
  (rows.filter fun r => r.machineId = machineId).map daysOf

/-- An interval that is closed by a collection still waiting for receipt is no shortage. -/
def reconcileInterval (db : CashDb) (rows : List IntervalRow) (r : IntervalRow) : ReconcileInterval :=
  let taken := r.amount.map mathRound
  let expected := mathRound r.expected
  let difference := taken.map (· - expected)
  { id := r.id
    machineId := r.machineId
    name := nameOf db r.machineId
    from_ := r.prev
    to_ := r.collectedAt
    days := mathRound (daysOf r * 100) / 100
    expected
    taken
    difference
    share := if 0 < expected then difference.map fun d => (mathRound ((d : ℚ) / expected * 10000) : ℚ) / 100 else none
    status := if r.amount.isNone then .awaiting
      else if 2 * median (durations rows r.machineId) < daysOf r then .gap
      else .usual }

def intervals (host : Js.Host) (db : CashDb) : List ReconcileInterval :=
  (intervalRows host db).map (reconcileInterval db (intervalRows host db))

end Mydon.Cash
