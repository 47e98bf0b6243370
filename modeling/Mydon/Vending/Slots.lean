import Mydon.Lib.OrderedMap
import Mydon.Vending.Catalog
import Mathlib.Data.List.Induction

/-! The planogram mirror of the machines and the history of its snapshots. A snapshot is written
over the mirror slot by slot, then the slots it does not have are removed. -/

namespace Mydon.Vending

open Mydon.Lib

/-! Serials. -/

def OURVEND_SERIAL_DIGITS : ℕ := 10

/-- Trimmed, in lower case, and without the `c` before ten digits. -/
def normalizeMachineSerial (host : Js.Host) (raw : String) : String :=
  let s := host.toLowerCase (Js.trim raw)
  match s.toList with
  | 'c' :: digits => if digits.length = OURVEND_SERIAL_DIGITS && digits.all Js.isDigit then String.ofList digits else s
  | _ => s

def machineSerialKeys (host : Js.Host) (raw : String) : List String :=
  let s := host.toLowerCase (Js.trim raw)
  if s = "" then []
  else
    let canonical := normalizeMachineSerial host s
    if canonical = s then [s] else [s, canonical]

/-- A card of a machine in the registry. -/
structure MachineEntityRow where
  id : String
  name : String
  externalRef : Option String
  deriving DecidableEq

/-- The card of a serial, the first one where several share it. -/
def idBySerial (host : Js.Host) (rows : List MachineEntityRow) : List (String × String) :=
  rows.foldl (fun m r => (machineSerialKeys host (r.externalRef.getD "")).foldl
    (fun m key => OrderedMap.alter (fun own => own.getD r.id) key m) m) []

/-! Slots. -/

structure IngestSlotInput where
  coilId : String
  product : String
  capacity : ℤ
  quantity : ℤ
  deriving DecidableEq

structure IngestMachineInput where
  serial : String
  slots : List IngestSlotInput
  deriving DecidableEq

structure IngestPayload where
  capturedAt : Option ℤ
  machines : List IngestMachineInput
  deriving DecidableEq

/-- A row of `machine_slot`, of which serial and coil are the key. -/
structure MachineSlotRow where
  machineSerial : String
  machineId : Option String
  coilId : String
  productName : Option String
  productId : Option String
  capacity : ℤ
  quantity : ℤ
  isValid : Bool
  syncedAt : ℤ
  deriving DecidableEq

/-- A row of `slot_snapshot`, which has no key. -/
structure SlotSnapshotRow where
  machineSerial : String
  coilId : String
  productName : Option String
  capacity : ℤ
  quantity : ℤ
  capturedAt : ℤ
  deriving DecidableEq

/-- A slot as the calculations see it. -/
structure Slot where
  coilId : String
  product : Option String
  capacity : ℤ
  quantity : ℤ
  deriving DecidableEq

structure SkippedMachine where
  serial : String
  slots : ℕ
  reason : String
  deriving DecidableEq

structure MirrorDb where
  slots : List MachineSlotRow
  snapshots : List SlotSnapshotRow
  /-- The events `vending.slots.skipped`. -/
  skipped : List (List SkippedMachine)
  deriving DecidableEq

/-- What the intake reads besides the mirror. -/
structure IngestEnv where
  host : Js.Host
  catalog : Catalog
  machines : List MachineEntityRow
  now : ℤ

def MAX_SLOTS_PER_MACHINE : ℕ := 2000

def MAX_CAPACITY : ℤ := 100

/-- `0 < capacity ≤ MAX_CAPACITY`. -/
def capacityValid (capacity : ℤ) : Bool := 0 < capacity && capacity ≤ MAX_CAPACITY

/-- `s.product.trim() || null`. -/
def productOf (s : IngestSlotInput) : Option String :=
  let product := Js.trim s.product
  if product = "" then none else some product

def slotRow (env : IngestEnv) (capturedAt : ℤ) (m : IngestMachineInput) (s : IngestSlotInput) : MachineSlotRow where
  machineSerial := m.serial
  machineId := OrderedMap.get (idBySerial env.host env.machines) (normalizeMachineSerial env.host m.serial)
  coilId := s.coilId
  productName := productOf s
  productId := (productOf s).bind (env.catalog.productIdOf env.host)
  capacity := s.capacity
  quantity := s.quantity
  isValid := capacityValid s.capacity
  syncedAt := capturedAt

def snapshotRow (capturedAt : ℤ) (m : IngestMachineInput) (s : IngestSlotInput) : SlotSnapshotRow where
  machineSerial := m.serial
  coilId := s.coilId
  productName := productOf s
  capacity := s.capacity
  quantity := s.quantity
  capturedAt := capturedAt

/-- A coil that comes twice keeps its first place and its last row. -/
def collapse {ρ : Type*} (coil : ρ → String) (rows : List ρ) : List (String × ρ) :=
  rows.foldl (fun m row => OrderedMap.alter (fun _ => row) (coil row) m) []

def sameSlot (a b : MachineSlotRow) : Bool := a.machineSerial = b.machineSerial && a.coilId = b.coilId

/-- The `SET` of the conflict: the card follows a new product, and an unknown one does not wipe out
the card of the old product. -/
def mergeSlot (old new : MachineSlotRow) : MachineSlotRow :=
  { new with productId := if new.productName ≠ old.productName then new.productId else new.productId.or old.productId }

/-- `INSERT … ON CONFLICT (machine_serial, coil_id) DO UPDATE … WHERE synced_at <= capturedAt`. -/
def upsertSlot (rows : List MachineSlotRow) (row : MachineSlotRow) : List MachineSlotRow :=
  if rows.any (sameSlot · row) then
    rows.map fun r => if sameSlot r row && r.syncedAt ≤ row.syncedAt then mergeSlot r row else r
  else rows ++ [row]

/-- The rows of a machine arrive in chunks; their coils differ, so the chunks do not meet. -/
def ingestMachine (env : IngestEnv) (capturedAt : ℤ) (db : MirrorDb) (m : IngestMachineInput) : MirrorDb :=
  { db with
    slots := ((collapse MachineSlotRow.coilId (m.slots.map (slotRow env capturedAt m))).map Prod.snd).foldl
      upsertSlot db.slots
    snapshots := db.snapshots ++ m.slots.map (snapshotRow capturedAt m) }

/-- The rows that the pruning of a machine deletes. -/
def vanished (capturedAt : ℤ) (m : IngestMachineInput) (r : MachineSlotRow) : Bool :=
  r.machineSerial = m.serial && r.coilId ∉ m.slots.map (·.coilId) && r.syncedAt ≤ capturedAt

def pruneMachine (capturedAt : ℤ) (rows : List MachineSlotRow) (m : IngestMachineInput) : List MachineSlotRow :=
  if m.slots = [] then rows else rows.filter (!vanished capturedAt m ·)

/-- Silence of the source is no reason to delete: a machine without slots is not pruned. -/
def pruneVanishedSlots (rows : List MachineSlotRow) (machines : List IngestMachineInput) (capturedAt : ℤ) :
    List MachineSlotRow := machines.foldl (pruneMachine capturedAt) rows

structure IngestSlotsResult where
  machines : ℕ
  slots : ℕ
  linked : ℕ
  pruned : ℕ
  skipped : List SkippedMachine
  deriving DecidableEq

def skippedOf (payload : IngestPayload) : List SkippedMachine :=
  (payload.machines.filter fun m => MAX_SLOTS_PER_MACHINE < m.slots.length).map fun m =>
    ⟨m.serial, m.slots.length, "слишком много слотов"⟩

def ingestSlots (env : IngestEnv) (db : MirrorDb) (payload : IngestPayload) : IngestSlotsResult × MirrorDb :=
  let capturedAt := payload.capturedAt.getD env.now
  let accepted := payload.machines.filter fun m => m.slots.length ≤ MAX_SLOTS_PER_MACHINE
  let written := accepted.foldl (ingestMachine env capturedAt) db
  let slots := pruneVanishedSlots written.slots accepted capturedAt
  let skipped := skippedOf payload
  ({ machines := accepted.length
     slots := (accepted.map fun m => m.slots.length).sum
     linked := (accepted.filter fun m =>
       (OrderedMap.get (idBySerial env.host env.machines) (normalizeMachineSerial env.host m.serial)).isSome).length
     pruned := written.slots.length - slots.length
     skipped },
   { written with slots, skipped := if skipped = [] then written.skipped else written.skipped ++ [skipped] })

def MachineSlotRow.toSlot (r : MachineSlotRow) : Slot := ⟨r.coilId, r.productName, r.capacity, r.quantity⟩

def slotsByMachine (db : MirrorDb) (freshSince : Option ℤ) : List (String × List Slot) :=
  (db.slots.filter fun r => freshSince.all (· ≤ r.syncedAt)).foldl
    (fun m r => OrderedMap.alter (fun list => list.getD [] ++ [r.toSlot]) r.machineSerial m) []

/-! What the pieces do. -/

theorem keys_collapse_nodup {ρ : Type*} (coil : ρ → String) (rows : List ρ) :
    (OrderedMap.keys (collapse coil rows)).Nodup := by
  unfold collapse
  induction rows using List.reverseRecOn with
  | nil => exact List.nodup_nil
  | append_singleton rows row ih =>
    rw [List.foldl_append]
    exact OrderedMap.nodup_keys_alter _ _ ih

/-- The last row of a coil is the one that stays. -/
theorem get_collapse {ρ : Type*} (coil : ρ → String) (rows : List ρ) (c : String) :
    OrderedMap.get (collapse coil rows) c = rows.reverse.find? fun row => coil row = c := by
  unfold collapse
  induction rows using List.reverseRecOn with
  | nil => rfl
  | append_singleton rows row ih =>
    rw [List.foldl_append, List.foldl_cons, List.foldl_nil, OrderedMap.get_alter, ih, List.reverse_append]
    simp only [List.reverse_singleton, List.singleton_append, List.find?_cons]
    split_ifs with h <;> simp [h]

theorem of_mem_collapse {ρ : Type*} {coil : ρ → String} {rows : List ρ} {e : String × ρ} (he : e ∈ collapse coil rows) :
    coil e.2 = e.1 ∧ e.2 ∈ rows := by
  have hget := OrderedMap.get_of_mem (keys_collapse_nodup _ _) he
  rw [get_collapse] at hget
  have hcoil := List.find?_some hget
  exact ⟨of_decide_eq_true hcoil, List.mem_reverse.mp (List.mem_of_find?_eq_some hget)⟩

theorem get_slotsByMachine (db : MirrorDb) (serial : String) :
    (OrderedMap.get (slotsByMachine db none) serial).getD [] =
      (db.slots.filter fun r => r.machineSerial = serial).map MachineSlotRow.toSlot := by
  unfold slotsByMachine
  simp only [Option.all_none, List.filter_true]
  induction db.slots using List.reverseRecOn with
  | nil => rfl
  | append_singleton rows row ih =>
    rw [List.foldl_append, List.foldl_cons, List.foldl_nil, OrderedMap.get_alter, List.filter_append, List.map_append,
      ← ih]
    split_ifs with h
    · simp [h]
    · simp [h]

end Mydon.Vending
