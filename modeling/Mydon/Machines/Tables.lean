import Mydon.Js.Json
import Mydon.Lib.Table
import Mydon.Machines.Numbers

/-! The tables of machines: cards of the registry, what is known of those that are machines, and where each one has
stood. -/

namespace Mydon.Machines

open Mydon.Lib Mydon.Js

inductive MachineStatus
  | in_service
  | warehouse
  | repair
  deriving DecidableEq

/-- Row of `entity`; of its attributes, the place that a card names as its own («точка»). -/
structure EntityRow where
  id : String
  type : String
  name : String
  createdAt : String
  externalRef : Option String
  point : Option String
  deriving DecidableEq

/-- Row of `machine_card`. -/
structure MachineCard where
  entityId : String
  kind : MachineKind
  status : MachineStatus
  inventoryNo : Option String
  labelPending : Bool
  deriving DecidableEq

/-- Row of `machine_placement`; its days count from the epoch. -/
structure Placement where
  locationId : String
  entityId : String
  startDate : Option ℤ
  endDate : Option ℤ
  deriving DecidableEq

structure Db where
  entities : List EntityRow
  machineCards : List MachineCard
  placements : List Placement
  deriving DecidableEq

def Db.entity (db : Db) (id : String) : Option EntityRow := Table.lookup EntityRow.id db.entities id

def Db.machineCard (db : Db) (id : String) : Option MachineCard := Table.lookup MachineCard.entityId db.machineCards id

/-- `insert into entity`. -/
def Db.create (db : Db) (row : EntityRow) : Db :=
  match db.entity row.id with
  | some _ => db
  | none => { db with entities := db.entities ++ [row] }

/-- Constraint `machine_card_inventory_no_canonical`. -/
def inventoryNoCanonical (no : String) : Bool :=
  match no.toList with
  | series :: hyphen :: digits =>
    (series = 'K' || series = 'S' || series = 'D' || series = 'C') && hyphen = '-' && 3 ≤ digits.length &&
      digits.length ≤ 6 && digits.all isDigit
  | _ => false

/-- A row of `machine_card` is inserted or updated. What the index `machine_card_inventory_no_key` folds in a number,
the canonical form does not have. -/
def Db.saveMachineCard (db : Db) (row : MachineCard) : Except HttpError Db := do
  require (∀ no ∈ row.inventoryNo, inventoryNoCanonical no = true) (.internal "machine_card_inventory_no_canonical")
  require (∀ c ∈ db.machineCards, c.entityId ≠ row.entityId → ∀ no ∈ row.inventoryNo, c.inventoryNo ≠ some no)
    (.internal "machine_card_inventory_no_key")
  return { db with machineCards := Table.upsert MachineCard.entityId db.machineCards row }

variable {db db' : Db} {row : MachineCard} {e : EntityRow} {id : String}

theorem saveMachineCard_eq_ok : db.saveMachineCard row = .ok db' ↔
    (∀ no ∈ row.inventoryNo, inventoryNoCanonical no = true) ∧
      (∀ c ∈ db.machineCards, c.entityId ≠ row.entityId → ∀ no ∈ row.inventoryNo, c.inventoryNo ≠ some no) ∧
      db' = { db with machineCards := Table.upsert MachineCard.entityId db.machineCards row } := by
  unfold Db.saveMachineCard
  constructor
  · intro h
    obtain ⟨_, hcanonical, h⟩ := bind_eq_ok.mp h
    obtain ⟨_, hkey, h⟩ := bind_eq_ok.mp h
    exact ⟨require_eq_ok.mp hcanonical, require_eq_ok.mp hkey, (Except.ok.inj h).symm⟩
  · rintro ⟨hcanonical, hkey, rfl⟩
    refine bind_eq_ok.mpr ⟨(), require_eq_ok.mpr hcanonical, bind_eq_ok.mpr ⟨(), require_eq_ok.mpr hkey, rfl⟩⟩

theorem inventoryNoCanonical_of_canonical {beyond : Char → List Char} {kind : MachineKind} {no : String}
    (h : Canonical beyond kind no) : inventoryNoCanonical no = true := by
  obtain ⟨n, hn, hformat⟩ := canonical_iff.mp h
  obtain ⟨series, hseries, rfl⟩ := Option.map_eq_some_iff.mp hformat
  have hletter : (series = 'K' || series = 'S' || series = 'D' || series = 'C') = true := by
    revert hseries
    cases kind <;> intro hs <;> cases hs <;> decide
  have hlen : (Nat.toDigits 10 n).length ≤ 6 := (Nat.length_toDigits_le_iff (by decide) (by decide)).mpr hn
  unfold inventoryNoCanonical seriesText SERIES_WIDTH
  rw [String.toList_ofList]
  dsimp only
  rw [hletter, List.length_append, List.length_replicate, List.all_append]
  simp only [Bool.and_eq_true, decide_eq_true_eq, List.all_eq_true]
  refine ⟨⟨⟨⟨trivial, trivial⟩, by omega⟩, by omega⟩, fun c hc => ?_, fun c hc => ?_⟩
  · rw [List.eq_of_mem_replicate hc]
    decide
  · exact Nat.isDigit_of_mem_toDigits (by decide) (by decide) hc

/-- A row that is already there is not written again. -/
theorem entity_create : (db.create e).entity id = (db.entity id).or (if e.id = id then some e else none) := by
  unfold Db.create
  rcases hold : db.entity e.id with _ | old
  · dsimp only
    unfold Db.entity
    rw [Table.lookup_append]
    simp only [Table.lookup, List.find?_cons, List.find?_nil]
    by_cases hid : e.id = id <;> simp [hid]
  · dsimp only
    split_ifs with hid
    · rw [← hid, hold, Option.some_or]
    · rw [Option.or_none]

end Mydon.Machines
