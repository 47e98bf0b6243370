import Mydon.Contracts.Service

/-! The tables that the registry import of one direction reads and writes: cards of companies, machines, sale
contracts and money flows. Rows of all tables take their ids from one source of fresh ones. -/

namespace Mydon.Registry

open Mydon.Lib Mydon.Finance

/-- A row of `entity`. -/
structure Entity where
  id : ℕ
  type : String
  name : String
  externalRef : Option String
  deriving DecidableEq

/-- What the import reads of `globerent_unit`. -/
structure UnitRow where
  id : ℕ
  vin : Option String
  contractId : Option ℕ
  deriving DecidableEq

/-- A row of `money_flow`. -/
structure MoneyFlow extends Finance.Flow where
  method : Option String
  isOfficial : Bool
  counterparty : Option String
  deriving DecidableEq

/-- A row of `contract`. -/
structure Contract extends Contracts.Contract where
  buyer : Js.Json
  sellerCompanyId : Option ℕ
  docParams : Js.Json
  createdFrom : Option String

structure Db where
  entities : List Entity
  units : List UnitRow
  contracts : List Contract
  flows : List MoneyFlow
  /-- The `contractId` of each row of `contract_act`. -/
  acts : List ℕ
  /-- The `saleContractId` of each row of `gr_import_contract`. -/
  imports : List (Option ℕ)
  nextId : ℕ

def Db.findContract (db : Db) (id : ℕ) : Option Contract := Table.lookup (fun c => c.id) db.contracts id

def Db.findByNo (db : Db) (no : String) : Option Contract := Table.lookup (fun c => c.contractNo) db.contracts no

/-- The last of the contractors with this INN, as a `Map` made of them keeps it. -/
def Db.contractorByInn (db : Db) (inn : String) : Option ℕ :=
  if inn = "" then none
  else ((db.entities.filter fun e => e.type = "contractor" ∧ e.externalRef = some inn).getLast?).map Entity.id

def Db.unitByVin (db : Db) (vin : String) : Option ℕ :=
  if vin = "" then none else ((db.units.filter fun u => u.vin = some vin).getLast?).map UnitRow.id

def Db.seller (db : Db) : Option ℕ := (db.entities.find? fun e => e.type = "own_company").map Entity.id

/-- Both companies are known, and they are different. -/
def differ : Option ℕ → Option ℕ → Bool
  | some payer, some client => payer ≠ client
  | _, _ => false

/-- The flow stands on the contract, and the two are of different companies. -/
def isForeign (f : MoneyFlow) (c : Contract) : Bool := f.contractId = some c.id && differ f.counterpartyId c.clientId

/-- The keys and the references of the tables that the import relies on. -/
structure Db.WF (db : Db) : Prop where
  ids : (db.contracts.map fun c => c.id).Nodup
  nos : (db.contracts.map fun c => c.contractNo).Nodup
  fresh : ∀ c ∈ db.contracts, c.id < db.nextId
  flowIds : (db.flows.map fun f => f.id).Nodup
  flowFresh : ∀ f ∈ db.flows, f.id < db.nextId
  flowContract : ∀ f ∈ db.flows, ∀ id, f.contractId = some id → ∃ c ∈ db.contracts, c.id = id
  flowPayer : ∀ f ∈ db.flows, ∀ id, f.counterpartyId = some id → ∃ e ∈ db.entities, e.id = id
  client : ∀ c ∈ db.contracts, ∀ id, c.clientId = some id → ∃ e ∈ db.entities, e.id = id

end Mydon.Registry
