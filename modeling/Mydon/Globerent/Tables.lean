import Mydon.Finance.Flows
import Mydon.Globerent.UnitStatus

/-! The tables of the machinery business, of one direction. Rows are numbered as they are inserted,
and none is ever deleted. -/

namespace Mydon.Globerent

open Mydon.Lib Mydon.Finance

/-- A row of `globerent_unit`; `code` is the number of `WH-0001`. -/
structure GloberentUnit where
  id : ℕ
  code : ℕ
  modelId : Option ℕ
  name : String
  year : Option ℤ
  vin : Option String
  status : UnitStatus
  salesStage : Option SalesStage
  lostReason : Option String
  salesPrice : Option ℚ
  clientId : Option ℕ
  contractId : Option ℕ
  importContractId : Option ℕ
  arrivalDate : Option ℤ
  declarationType : Option String
  declarationNumber : Option String
  declarationDate : Option ℤ
  transportCompany : Option String
  notes : Option String
  deriving DecidableEq

inductive ReserveStatus
  | active
  | cancelled
  | expired
  deriving DecidableEq

/-- A row of `unit_reserve`. -/
structure Reserve where
  id : ℕ
  unitId : ℕ
  clientId : Option ℕ
  endDate : ℤ
  status : ReserveStatus
  note : Option String
  createdBy : String
  deriving DecidableEq

inductive ImportStatus
  | draft
  | in_progress
  | completed
  | cancelled
  deriving DecidableEq

def ImportStatus.text : ImportStatus → String
  | draft => "draft"
  | in_progress => "in_progress"
  | completed => "completed"
  | cancelled => "cancelled"

/-- `IMPORT_LIFECYCLE`. -/
inductive ImportLifecycle
  | draft
  | signed
  | paying
  | shipping
  | customs
  | warehoused
  | delivered
  | closed
  | cancelled
  deriving DecidableEq

inductive ImportPurpose
  | for_stock
  | under_client
  | for_sum_contract
  deriving DecidableEq

structure ImportItem where
  modelId : Option ℕ
  name : String
  qty : ℕ
  price : ℚ
  deriving DecidableEq

/-- A row of `gr_import_contract`. -/
structure ImportContract where
  id : ℕ
  contractNo : String
  contractDate : ℤ
  supplierId : Option ℕ
  currency : String
  totalAmount : ℚ
  items : List ImportItem
  purpose : ImportPurpose
  saleContractId : Option ℕ
  status : ImportStatus
  lifecycleStatus : ImportLifecycle
  prepaymentAmount : Option ℚ
  prepaymentDueDate : Option ℤ
  prepaymentPaidAt : Option ℤ
  balanceAmount : Option ℚ
  balanceDueDate : Option ℤ
  balancePaidAt : Option ℤ
  notes : Option String
  deriving DecidableEq

/-- What the import contracts read of `contract`. -/
structure SaleContract where
  id : ℕ
  totalWithVat : ℚ
  deriving DecidableEq

/-- What the import contracts read of `contract_act`: the units handed over. -/
structure ContractAct where
  contractId : ℕ
  equipmentIds : List ℕ
  deriving DecidableEq

structure Db where
  units : List GloberentUnit
  reserves : List Reserve
  imports : List ImportContract
  flows : List Flow
  contracts : List SaleContract
  acts : List ContractAct
  deriving DecidableEq

def Db.empty : Db := ⟨[], [], [], [], [], []⟩

def Db.findUnit (db : Db) (id : ℕ) : Option GloberentUnit := Table.lookup GloberentUnit.id db.units id

def Db.writeUnit (db : Db) (u : GloberentUnit) : Db := { db with units := Table.write GloberentUnit.id db.units u }

def Db.findImport (db : Db) (id : ℕ) : Option ImportContract := Table.lookup ImportContract.id db.imports id

def Db.writeImport (db : Db) (c : ImportContract) : Db :=
  { db with imports := Table.write ImportContract.id db.imports c }

/-- The units of an import contract. -/
def Db.unitsOf (db : Db) (contract : ℕ) : List GloberentUnit :=
  db.units.filter fun u => u.importContractId = some contract

/-- `coalesce(max((substring(code from 4))::int), 0)`. -/
def Db.lastCode (db : Db) : ℕ := (db.units.map GloberentUnit.code).foldl max 0

/-- What the services ask of the other tables and of the clock. -/
structure Env where
  host : Js.Host
  finance : FinanceEnv
  actor : String
  today : ℤ
  now : ℤ

end Mydon.Globerent
