import Mydon.Globerent.Reserves

/-! The life cycle of an import contract. `recomputeLifecycle` is no transaction: it reads the contract,
its units, the acts and the payments, and writes what it made of them, one statement after another. -/

namespace Mydon.Globerent

open Mydon.Lib Mydon.Finance

/-! The rules. -/

def ImportLifecycle.rank : ImportLifecycle → ℤ
  | cancelled => -1
  | draft => 0
  | signed => 1
  | paying => 2
  | shipping => 3
  | customs => 4
  | warehoused => 5
  | delivered => 6
  | closed => 7

def WAREHOUSED_UNITS : List UnitStatus := [.DELIVERED_TO_WH, .IM40]

def CUSTOMS_UNITS : List UnitStatus := [.AT_BORDER, .CUSTOMS_CLEARANCE, .IM74]

def SHIPPING_UNITS : List UnitStatus := [.READY_FOR_SHIPMENT, .IN_TRANSIT_TO_BORDER, .IN_TRANSIT_TO_UZ]

def lifecycleFromUnits (statuses : List UnitStatus) : Option ImportLifecycle :=
  let active := statuses.filter fun s => s ≠ .CANCELLED ∧ s ≠ .ARCHIVED
  if active = [] then none
  else if active.any (· ∈ WAREHOUSED_UNITS) then some .warehoused
  else if active.any (· ∈ CUSTOMS_UNITS) then some .customs
  else if active.any (· ∈ SHIPPING_UNITS) then some .shipping
  else some .signed

/-- The lifecycle to move to, where there is one. -/
def monotonicLifecycleStep (current : ImportLifecycle) (computed : Option ImportLifecycle) : Option ImportLifecycle :=
  computed.bind fun computed =>
    if current = .closed ∨ current = .cancelled then none
    else if current.rank < computed.rank then some computed
    else none

structure ActiveUnit where
  inHandoverAct : Bool
  hasSaleContract : Bool
  deriving DecidableEq

def finalLifecycle (activeUnits : List ActiveUnit) (allSaleContractsPaid : Bool) : Option ImportLifecycle :=
  if activeUnits = [] then none
  else if ¬ activeUnits.all fun u => u.inHandoverAct && u.hasSaleContract then none
  else if allSaleContractsPaid then some .closed
  else some .delivered

/-! `recomputeLifecycle`, by its next statement. -/

/-- What the statements before have read; the contract is the row of the first. -/
inductive Recompute
  | readUnits (c : ImportContract)
  | readActs (c : ImportContract) (units : List GloberentUnit)
  | readSales (c : ImportContract) (units : List GloberentUnit) (acts : List ContractAct)
  | write (c : ImportContract) (step : ImportLifecycle)
  | record (c : ImportContract) (step : ImportLifecycle)
  | done (lifecycle : ImportLifecycle)
  deriving DecidableEq

/-- The event `import.lifecycle`. -/
structure LifecycleEvent where
  contract : ℕ
  old : ImportLifecycle
  new : ImportLifecycle
  deriving DecidableEq

/-- The sale contracts of the active units. -/
def saleContractsOf (units : List GloberentUnit) : List ℕ :=
  ((units.filter isLive).filterMap GloberentUnit.contractId).dedup

def Recompute.decided (c : ImportContract) (target : Option ImportLifecycle) : Recompute :=
  match monotonicLifecycleStep c.lifecycleStatus target with
  | none => .done c.lifecycleStatus
  | some step => .write c step

def salePaid (db : Db) (sale : SaleContract) : Bool :=
  0 < sale.totalWithVat ∧ sale.totalWithVat ≤ paidUzs db.flows sale.id

/-- The statement, and what is left to do. -/
def Recompute.proceed (db : Db) : Recompute → Db × List LifecycleEvent × Recompute
  | .readUnits c =>
    let units := db.unitsOf c.id
    (db, [], if saleContractsOf units = [] then decided c (lifecycleFromUnits (units.map GloberentUnit.status))
      else .readActs c units)
  | .readActs c units => (db, [], .readSales c units (db.acts.filter (·.contractId ∈ saleContractsOf units)))
  | .readSales c units acts =>
    let actedUnitIds := acts.flatMap ContractAct.equipmentIds
    let sales := db.contracts.filter (·.id ∈ saleContractsOf units)
    let activeUnits := (units.filter isLive).map fun u => ⟨u.id ∈ actedUnitIds, u.contractId.isSome⟩
    let fin := finalLifecycle activeUnits (sales.all (salePaid db))
    (db, [], decided c (fin.or (lifecycleFromUnits (units.map GloberentUnit.status))))
  | .write c step =>
    match db.findImport c.id with
    | some row => (db.writeImport { row with lifecycleStatus := step }, [], .record c step)
    | none => (db, [], .record c step)
  | .record c step => (db, [⟨c.id, c.lifecycleStatus, step⟩], .done step)
  | .done lifecycle => (db, [], .done lifecycle)

/-! The world: the tables, the events, and the recomputations under way. -/

structure LifecycleWorld where
  db : Db
  recomputes : List Recompute
  events : List LifecycleEvent

inductive LifecycleAction
  | request (env : Env) (op : ImportOp)
  | recompute (id : ℕ)
  | proceed (i : ℕ)
  | others (db : Db)

def LifecycleWorld.request (env : Env) (op : ImportOp) (w : LifecycleWorld) : LifecycleWorld :=
  match op.perform env w.db with
  | .ok db => { w with db }
  | .error _ => w

/-- A recomputation starts with the read of the contract. -/
def LifecycleWorld.recompute (id : ℕ) (w : LifecycleWorld) : LifecycleWorld :=
  match w.db.findImport id with
  | some c => { w with recomputes := w.recomputes ++ [.readUnits c] }
  | none => w

def LifecycleWorld.proceed (i : ℕ) (w : LifecycleWorld) : LifecycleWorld :=
  match w.recomputes[i]? with
  | some r =>
    let (db, events, r') := r.proceed w.db
    ⟨db, w.recomputes.set i r', w.events ++ events⟩
  | none => w

/-- Everything else leaves the import contracts alone: only signing gives a contract its first units. -/
def OtherTables (db db' : Db) : Prop := db'.imports = db.imports ∧ ∀ k, db.unitsOf k = [] → db'.unitsOf k = []

def LifecycleNext (w : LifecycleWorld) : LifecycleAction → LifecycleWorld → Prop
  | .request env op, w' => w' = w.request env op
  | .recompute id, w' => w' = w.recompute id
  | .proceed i, w' => w' = w.proceed i
  | .others db, w' => OtherTables w.db db ∧ w' = { w with db }

end Mydon.Globerent
