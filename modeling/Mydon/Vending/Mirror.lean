import Mydon.Lib.FencedCell
import Mydon.Vending.Slots

/-! The mirror of one machine after its snapshots have arrived in some order. -/

namespace Mydon.Vending

open Mydon.Lib

/-- A snapshot of the machine, as it arrives. -/
structure Delivery where
  env : IngestEnv
  capturedAt : ℤ
  slots : List IngestSlotInput

def Delivery.coils (d : Delivery) : List String := d.slots.map (·.coilId)

def deliverSnapshot (serial : String) (db : MirrorDb) (d : Delivery) : MirrorDb :=
  (ingestSlots d.env db ⟨some d.capturedAt, [⟨serial, d.slots⟩]⟩).2

def deliverSnapshots (serial : String) (db : MirrorDb) (ds : List Delivery) : MirrorDb :=
  ds.foldl (deliverSnapshot serial) db

def IngestSlotInput.toSlot (s : IngestSlotInput) : Slot := ⟨s.coilId, productOf s, s.capacity, s.quantity⟩

/-- The slots of a snapshot, one for a coil. -/
def planogram (slots : List IngestSlotInput) : List Slot :=
  (collapse IngestSlotInput.coilId slots).map fun e => e.2.toSlot

/-- The mirror of a machine. -/
def mirrorOf (db : MirrorDb) (serial : String) : List Slot :=
  (OrderedMap.get (slotsByMachine db none) serial).getD []

/-! One coil. -/

variable {serial coil : String} {rows : List MachineSlotRow} {row : MachineSlotRow} {db : MirrorDb}
  {ds : List Delivery} {d : Delivery}

def atCoil (serial coil : String) (r : MachineSlotRow) : Bool := r.machineSerial = serial && r.coilId = coil

/-- The row of a coil, as a stamped cell. -/
def cellOf (serial : String) (rows : List MachineSlotRow) (coil : String) : Option (ℤ × Slot) :=
  (rows.find? (atCoil serial coil)).map fun r => (r.syncedAt, r.toSlot)

/-- What a snapshot says of a coil. -/
def slotAt (slots : List IngestSlotInput) (coil : String) : Option Slot :=
  (slots.reverse.find? (·.coilId = coil)).map IngestSlotInput.toSlot

def coilsOf (serial : String) (rows : List MachineSlotRow) : List String :=
  (rows.filter fun r => r.machineSerial = serial).map (·.coilId)

theorem sameSlot_eq_atCoil (r : MachineSlotRow) : sameSlot r row = atCoil row.machineSerial row.coilId r := rfl

theorem atCoil_upserted (r : MachineSlotRow) :
    atCoil serial coil (if sameSlot r row && r.syncedAt ≤ row.syncedAt then mergeSlot r row else r) =
      atCoil serial coil r := by
  split_ifs with h
  · simp only [sameSlot, Bool.and_eq_true, decide_eq_true_eq] at h
    simp [atCoil, mergeSlot, h.1.1, h.1.2]
  · rfl

theorem cellOf_upsertSlot_self :
    cellOf row.machineSerial (upsertSlot rows row) row.coilId =
      FencedCell.deliver (cellOf row.machineSerial rows row.coilId) (row.syncedAt, some row.toSlot) := by
  unfold cellOf upsertSlot
  split_ifs with hany
  · rw [List.find?_map]
    simp only [Function.comp_def, atCoil_upserted]
    rcases hfind : rows.find? (atCoil row.machineSerial row.coilId) with _ | old
    · obtain ⟨r, hr, hsame⟩ := List.any_eq_true.mp hany
      exact absurd hsame (List.find?_eq_none.mp hfind r hr)
    · have hold : atCoil row.machineSerial row.coilId old = true := List.find?_some hfind
      simp only [sameSlot_eq_atCoil, hold, Bool.true_and, Option.map_some, FencedCell.deliver, decide_eq_true_eq]
      split_ifs <;> rfl
  · have hnone : rows.find? (atCoil row.machineSerial row.coilId) = none := by
      refine List.find?_eq_none.mpr fun r hr hat => hany ?_
      exact List.any_eq_true.mpr ⟨r, hr, hat⟩
    rw [List.find?_append, hnone]
    simp [atCoil, FencedCell.deliver]

theorem cellOf_upsertSlot_of_ne (hne : row.coilId ≠ coil) :
    cellOf serial (upsertSlot rows row) coil = cellOf serial rows coil := by
  unfold cellOf upsertSlot
  split_ifs with hany
  · rw [List.find?_map]
    simp only [Function.comp_def, atCoil_upserted]
    rcases hfind : rows.find? (atCoil serial coil) with _ | old
    · rfl
    · have hold : atCoil serial coil old = true := List.find?_some hfind
      have hsame : sameSlot old row = false := by
        simp only [atCoil, Bool.and_eq_true, decide_eq_true_eq] at hold
        simp [sameSlot, hold.2, Ne.symm hne]
      simp [hsame]
  · rw [List.find?_append]
    simp [atCoil, hne]

theorem coilsOf_upsertSlot (hserial : row.machineSerial = serial) :
    coilsOf serial (upsertSlot rows row) =
      if row.coilId ∈ coilsOf serial rows then coilsOf serial rows else coilsOf serial rows ++ [row.coilId] := by
  have hmem : rows.any (sameSlot · row) = true ↔ row.coilId ∈ coilsOf serial rows := by
    simp [coilsOf, sameSlot, hserial, and_assoc]
  unfold upsertSlot
  split_ifs with hany hin hin
  · unfold coilsOf
    rw [List.filter_map, List.map_map]
    have hkeep : ∀ r, (if sameSlot r row && r.syncedAt ≤ row.syncedAt then mergeSlot r row else r).machineSerial =
        r.machineSerial ∧
        (if sameSlot r row && r.syncedAt ≤ row.syncedAt then mergeSlot r row else r).coilId = r.coilId := by
      intro r
      split_ifs with h
      · simp only [sameSlot, Bool.and_eq_true, decide_eq_true_eq] at h
        exact ⟨h.1.1.symm, h.1.2.symm⟩
      · exact ⟨rfl, rfl⟩
    simp only [Function.comp_def, fun r => (hkeep r).1, fun r => (hkeep r).2]
  · exact absurd (hmem.mp hany) hin
  · exact absurd (hmem.mpr hin) hany
  · simp [coilsOf, hserial]

theorem nodup_coilsOf_upsertSlot (hserial : row.machineSerial = serial) (h : (coilsOf serial rows).Nodup) :
    (coilsOf serial (upsertSlot rows row)).Nodup := by
  rw [coilsOf_upsertSlot hserial]
  split_ifs with hin
  · exact h
  · exact h.append (List.nodup_singleton _) (by simpa using hin)

/-- Rows of one machine, stamp and coil apart, written over the mirror. -/
theorem cellOf_upserts {stamp : ℤ} {new : List (String × MachineSlotRow)} (hnd : (OrderedMap.keys new).Nodup)
    (hrow : ∀ e ∈ new, e.2.machineSerial = serial ∧ e.2.coilId = e.1 ∧ e.2.syncedAt = stamp) :
    cellOf serial ((new.map Prod.snd).foldl upsertSlot rows) coil =
      match OrderedMap.get new coil with
      | none => cellOf serial rows coil
      | some row => FencedCell.deliver (cellOf serial rows coil) (stamp, some row.toSlot) := by
  induction new generalizing rows with
  | nil => rfl
  | cons e new ih =>
    obtain ⟨c, row⟩ := e
    obtain ⟨hserial, hcoil, hstamp⟩ := hrow (c, row) List.mem_cons_self
    rw [OrderedMap.keys_cons, List.nodup_cons] at hnd
    rw [List.map_cons, List.foldl_cons, ih hnd.2 fun e he => hrow e (List.mem_cons_of_mem _ he)]
    by_cases hc : c = coil
    · have hget : OrderedMap.get new coil = none := OrderedMap.get_eq_none_iff.mpr (hc ▸ hnd.1)
      have hself : cellOf row.machineSerial (upsertSlot rows row) row.coilId =
          FencedCell.deliver (cellOf row.machineSerial rows row.coilId) (row.syncedAt, some row.toSlot) :=
        cellOf_upsertSlot_self
      rw [hserial, hcoil, hstamp, hc] at hself
      simp [OrderedMap.get, hc, hget, hself]
    · simp only [OrderedMap.get, hc, if_false, cellOf_upsertSlot_of_ne (hcoil.trans_ne hc)]

theorem nodup_coilsOf_upserts {new : List MachineSlotRow} (hserial : ∀ row ∈ new, row.machineSerial = serial)
    (h : (coilsOf serial rows).Nodup) : (coilsOf serial (new.foldl upsertSlot rows)).Nodup := by
  induction new generalizing rows with
  | nil => exact h
  | cons row new ih =>
    refine ih (fun row hrow => hserial row (List.mem_cons_of_mem _ hrow)) ?_
    exact nodup_coilsOf_upsertSlot (hserial row List.mem_cons_self) h

theorem atCoil_unique (hnd : (coilsOf serial rows).Nodup) {r r' : MachineSlotRow} (hr : r ∈ rows) (hr' : r' ∈ rows)
    (h : atCoil serial coil r = true) (h' : atCoil serial coil r' = true) : r = r' := by
  simp only [atCoil, Bool.and_eq_true, decide_eq_true_eq] at h h'
  refine List.inj_on_of_nodup_map hnd ?_ ?_ (h.2.trans h'.2.symm)
  · exact List.mem_filter.mpr ⟨hr, decide_eq_true h.1⟩
  · exact List.mem_filter.mpr ⟨hr', decide_eq_true h'.1⟩

/-- Where a coil has one row, pruning decides by that row. -/
theorem cellOf_pruneMachine {stamp : ℤ} {m : IngestMachineInput} (hserial : m.serial = serial)
    (hne : m.slots ≠ []) (hnd : (coilsOf serial rows).Nodup) :
    cellOf serial (pruneMachine stamp rows m) coil =
      if coil ∈ m.slots.map (·.coilId) then cellOf serial rows coil
      else FencedCell.deliver (cellOf serial rows coil) (stamp, none) := by
  unfold cellOf pruneMachine
  rw [if_neg hne, List.find?_filter]
  have hvanished : ∀ r, atCoil serial coil r = true →
      vanished stamp m r = (coil ∉ m.slots.map (·.coilId) && r.syncedAt ≤ stamp) := by
    intro r hr
    simp only [atCoil, Bool.and_eq_true, decide_eq_true_eq] at hr
    simp [vanished, hserial, hr.1, hr.2]
  split_ifs with hin
  · congr 2
    funext r
    rcases hat : atCoil serial coil r with _ | _
    · simp
    · simp [hvanished r hat, hin]
  · rcases hfind : rows.find? (atCoil serial coil) with _ | old
    · rw [Option.map_eq_none_iff.mpr]
      · rfl
      · refine List.find?_eq_none.mpr fun r hr h => List.find?_eq_none.mp hfind r hr ?_
        exact (of_decide_eq_true h).2
    · have hold := List.find?_some hfind
      have hmem := List.mem_of_find?_eq_some hfind
      have hgone : vanished stamp m old = decide (old.syncedAt ≤ stamp) := by simp [hvanished old hold, hin]
      simp only [Option.map_some, FencedCell.deliver, Option.map_none]
      split_ifs with hle
      · rw [Option.map_eq_none_iff, List.find?_eq_none]
        intro r hr h
        obtain ⟨hkeep, hat⟩ := of_decide_eq_true h
        rw [atCoil_unique hnd hr hmem hat hold, hgone] at hkeep
        simp [hle] at hkeep
      · rw [Option.map_eq_some_iff]
        refine ⟨old, ?_, rfl⟩
        rcases hfound : rows.find? _ with _ | r
        · have hno := List.find?_eq_none.mp hfound old hmem
          simp [hgone, hle, hold] at hno
        · have hboth := List.find?_some hfound
          obtain ⟨_, hat⟩ := of_decide_eq_true hboth
          rw [atCoil_unique hnd (List.mem_of_find?_eq_some hfound) hmem hat hold]

theorem nodup_coilsOf_pruneMachine {stamp : ℤ} {m : IngestMachineInput} (h : (coilsOf serial rows).Nodup) :
    (coilsOf serial (pruneMachine stamp rows m)).Nodup := by
  unfold pruneMachine
  split_ifs
  · exact h
  · exact h.sublist ((List.filter_sublist.filter _).map _)

theorem coilId_of_cellOf {stamp : ℤ} {slot : Slot} (h : cellOf serial rows coil = some (stamp, slot)) :
    slot.coilId = coil := by
  obtain ⟨r, hfind, hr⟩ := Option.map_eq_some_iff.mp h
  have hat := List.find?_some hfind
  simp only [atCoil, Bool.and_eq_true, decide_eq_true_eq] at hat
  obtain ⟨-, rfl⟩ := Prod.mk.inj hr
  exact hat.2

/-! One snapshot. -/

theorem get_slotRows (env : IngestEnv) (stamp : ℤ) (m : IngestMachineInput) (coil : String) :
    (OrderedMap.get (collapse MachineSlotRow.coilId (m.slots.map (slotRow env stamp m))) coil).map
      MachineSlotRow.toSlot = slotAt m.slots coil := by
  rw [get_collapse, ← List.map_reverse, List.find?_map, Option.map_map]
  rfl

theorem slotAt_eq_none_iff {slots : List IngestSlotInput} :
    slotAt slots coil = none ↔ coil ∉ slots.map (·.coilId) := by
  simp [slotAt]

/-- A snapshot reaches a coil as a stamped value, or as a stamped silence. -/
theorem cellOf_deliverSnapshot (hslots : d.slots ≠ [] ∧ d.slots.length ≤ MAX_SLOTS_PER_MACHINE)
    (hnd : (coilsOf serial db.slots).Nodup) :
    (∀ coil, cellOf serial (deliverSnapshot serial db d).slots coil =
        FencedCell.deliver (cellOf serial db.slots coil) (d.capturedAt, slotAt d.slots coil)) ∧
      (coilsOf serial (deliverSnapshot serial db d).slots).Nodup := by
  set m : IngestMachineInput := ⟨serial, d.slots⟩ with hm
  set new := collapse MachineSlotRow.coilId (m.slots.map (slotRow d.env d.capturedAt m)) with hnew
  have hdeliver : (deliverSnapshot serial db d).slots =
      pruneMachine d.capturedAt ((new.map Prod.snd).foldl upsertSlot db.slots) m := by
    have haccepted : [m].filter (fun m => m.slots.length ≤ MAX_SLOTS_PER_MACHINE) = [m] := by simp [hm, hslots.2]
    unfold deliverSnapshot ingestSlots pruneVanishedSlots
    simp only [← hm, haccepted]
    rfl
  have hrow : ∀ e ∈ new, e.2.machineSerial = serial ∧ e.2.coilId = e.1 ∧ e.2.syncedAt = d.capturedAt := by
    intro e he
    obtain ⟨hcoil, hmem⟩ := of_mem_collapse he
    obtain ⟨s, _, hs⟩ := List.mem_map.mp hmem
    refine ⟨?_, hcoil, ?_⟩ <;> rw [← hs] <;> rfl
  have hwritten : (coilsOf serial ((new.map Prod.snd).foldl upsertSlot db.slots)).Nodup := by
    refine nodup_coilsOf_upserts (fun row hr => ?_) hnd
    obtain ⟨e, he, rfl⟩ := List.mem_map.mp hr
    exact (hrow e he).1
  rw [hdeliver]
  refine ⟨fun coil => ?_, nodup_coilsOf_pruneMachine hwritten⟩
  have hserial : m.serial = serial := rfl
  rw [cellOf_pruneMachine hserial hslots.1 hwritten, cellOf_upserts (keys_collapse_nodup _ _) hrow]
  have hget := get_slotRows d.env d.capturedAt m coil
  rw [← hnew] at hget
  rw [← hget]
  rcases hcoil : OrderedMap.get new coil with _ | row
  · rw [hcoil, Option.map_none] at hget
    rw [if_neg (slotAt_eq_none_iff.mp hget.symm)]
    rfl
  · rw [hcoil, Option.map_some] at hget
    have hin : coil ∈ m.slots.map (·.coilId) := by
      by_contra hnot
      rw [slotAt_eq_none_iff.mpr hnot] at hget
      cases hget
    rw [if_pos hin]
    rfl

/-! All snapshots. -/

/-- What the snapshots say of a coil, in the order they arrive. -/
def sayings (ds : List Delivery) (coil : String) : List (ℤ × Option Slot) :=
  ds.map fun d => (d.capturedAt, slotAt d.slots coil)

theorem cellOf_deliverSnapshots (hfresh : ∀ r ∈ db.slots, r.machineSerial ≠ serial)
    (hslots : ∀ d ∈ ds, d.slots ≠ [] ∧ d.slots.length ≤ MAX_SLOTS_PER_MACHINE) :
    (∀ coil, cellOf serial (deliverSnapshots serial db ds).slots coil = FencedCell.deliverAll (sayings ds coil)) ∧
      (coilsOf serial (deliverSnapshots serial db ds).slots).Nodup := by
  induction ds using List.reverseRecOn with
  | nil =>
    have hnone : db.slots.filter (fun r => r.machineSerial = serial) = [] := by simpa using hfresh
    refine ⟨fun coil => ?_, by simp [deliverSnapshots, coilsOf, hnone]⟩
    have hfind : db.slots.find? (atCoil serial coil) = none :=
      List.find?_eq_none.mpr fun r hr h => by simp [atCoil, hfresh r hr] at h
    simp [cellOf, deliverSnapshots, hfind, sayings, FencedCell.deliverAll]
  | append_singleton ds d ih =>
    obtain ⟨hcell, hnd⟩ := ih fun d' hd' => hslots d' (by simp [hd'])
    have hd := hslots d (by simp)
    have heq : deliverSnapshots serial db (ds ++ [d]) = deliverSnapshot serial (deliverSnapshots serial db ds) d := by
      simp [deliverSnapshots]
    rw [heq]
    obtain ⟨hstep, hnd'⟩ := cellOf_deliverSnapshot hd hnd
    refine ⟨fun coil => ?_, hnd'⟩
    rw [hstep, hcell, sayings, sayings, List.map_append, List.map_singleton,
      FencedCell.deliverAll_snoc]

/-- The rows of the machine, read off coil by coil. -/
theorem mem_mirrorOf {slot : Slot} (hnd : (coilsOf serial db.slots).Nodup) :
    slot ∈ mirrorOf db serial ↔ ∃ stamp, cellOf serial db.slots slot.coilId = some (stamp, slot) := by
  unfold mirrorOf cellOf
  rw [get_slotsByMachine]
  simp only [List.mem_map, List.mem_filter, decide_eq_true_eq, Option.map_eq_some_iff]
  constructor
  · rintro ⟨r, ⟨hr, hserial⟩, rfl⟩
    have hat : atCoil serial r.toSlot.coilId r = true := by simp [atCoil, hserial, MachineSlotRow.toSlot]
    rcases hfind : db.slots.find? (atCoil serial r.toSlot.coilId) with _ | r'
    · exact absurd hat (List.find?_eq_none.mp hfind r hr)
    · refine ⟨r.syncedAt, r, ?_, rfl⟩
      rw [atCoil_unique hnd (List.mem_of_find?_eq_some hfind) hr (List.find?_some hfind) hat]
  · rintro ⟨stamp, r, hfind, h⟩
    have hat := List.find?_some hfind
    simp only [atCoil, Bool.and_eq_true, decide_eq_true_eq] at hat
    exact ⟨r, ⟨List.mem_of_find?_eq_some hfind, hat.1⟩, congrArg Prod.snd h⟩

theorem mem_planogram {slots : List IngestSlotInput} {slot : Slot} :
    slot ∈ planogram slots ↔ slotAt slots slot.coilId = some slot := by
  unfold planogram slotAt
  rw [← get_collapse, List.mem_map, Option.map_eq_some_iff]
  constructor
  · rintro ⟨e, he, rfl⟩
    refine ⟨e.2, ?_, rfl⟩
    have hget := OrderedMap.get_of_mem (keys_collapse_nodup _ _) he
    rwa [← (of_mem_collapse he).1] at hget
  · rintro ⟨s, hget, rfl⟩
    exact ⟨(_, s), OrderedMap.mem_of_get hget, rfl⟩

theorem nodup_planogram (slots : List IngestSlotInput) : (planogram slots).Nodup := by
  refine List.Nodup.of_map (fun s : Slot => s.coilId) ?_
  unfold planogram
  rw [List.map_map]
  have hcoil : ∀ e ∈ collapse IngestSlotInput.coilId slots,
      ((fun s : Slot => s.coilId) ∘ fun e : String × IngestSlotInput => e.2.toSlot) e = e.1 :=
    fun e he => (of_mem_collapse he).1
  rw [List.map_congr_left hcoil]
  exact keys_collapse_nodup IngestSlotInput.coilId slots

theorem nodup_mirrorOf (hnd : (coilsOf serial db.slots).Nodup) : (mirrorOf db serial).Nodup := by
  refine List.Nodup.of_map (fun s : Slot => s.coilId) ?_
  unfold mirrorOf
  rw [get_slotsByMachine, List.map_map]
  exact hnd

/-- Every coil that a snapshot has and the newest one has not is cleared by a later delivery, one
without the coil and not older than the snapshot. -/
def Cleared (ds : List Delivery) (newest : Delivery) : Prop :=
  ∀ earlier d later, ds = earlier ++ d :: later → ∀ coil ∈ d.coils, coil ∉ newest.coils →
    ∃ d' ∈ later, coil ∉ d'.coils ∧ d.capturedAt ≤ d'.capturedAt

theorem cleared_iff {newest : Delivery} : Cleared ds newest ↔
    ∀ coil, coil ∉ newest.coils → FencedCell.deliverAll (sayings ds coil) = none := by
  constructor
  · intro hclear coil hnot
    refine FencedCell.deliverAll_eq_none_iff.mpr fun earlier later t v heq => ?_
    obtain ⟨ds₁, rest, rfl, -, hrest⟩ := List.map_eq_append_iff.mp heq
    obtain ⟨d, ds₂, rfl, hd, rfl⟩ := List.map_eq_cons_iff.mp hrest
    obtain ⟨rfl, hv⟩ := Prod.mk.inj hd
    have hin : coil ∈ d.coils := by
      by_contra hno
      rw [slotAt_eq_none_iff.mpr hno] at hv
      cases hv
    obtain ⟨d', hd', hno, hle⟩ := hclear ds₁ d ds₂ rfl coil hin hnot
    exact ⟨_, List.mem_map_of_mem hd', slotAt_eq_none_iff.mpr hno, hle⟩
  · intro hnone earlier d later heq coil hin hnot
    obtain ⟨v, hv⟩ : ∃ v, slotAt d.slots coil = some v := by
      refine Option.ne_none_iff_exists'.mp fun h => ?_
      exact slotAt_eq_none_iff.mp h hin
    have hsay : sayings ds coil = sayings earlier coil ++ (d.capturedAt, some v) :: sayings later coil := by
      simp [sayings, heq, hv]
    obtain ⟨e, he, hsilent, hle⟩ := FencedCell.deliverAll_eq_none_iff.mp (hnone coil hnot) _ _ _ _ hsay
    obtain ⟨d', hd', rfl⟩ := List.mem_map.mp he
    exact ⟨d', hd', slotAt_eq_none_iff.mp hsilent, hle⟩

/-- The mirror ends as the newest snapshot in exactly the orders in which every coil that the newest
snapshot lacks is cleared. -/
theorem mirror_newest_iff {newest : Delivery} (hfresh : ∀ r ∈ db.slots, r.machineSerial ≠ serial)
    (hslots : ∀ d ∈ ds, d.slots ≠ [] ∧ d.slots.length ≤ MAX_SLOTS_PER_MACHINE)
    (hdistinct : ∀ d ∈ ds, ∀ d' ∈ ds, d.capturedAt = d'.capturedAt → d.slots = d'.slots)
    (hnewest : newest ∈ ds) (hmax : ∀ d ∈ ds, d.capturedAt ≤ newest.capturedAt) :
    (mirrorOf (deliverSnapshots serial db ds) serial).Perm (planogram newest.slots) ↔ Cleared ds newest := by
  obtain ⟨hcell, hnd⟩ := cellOf_deliverSnapshots hfresh hslots
  rw [List.perm_ext_iff_of_nodup (nodup_mirrorOf hnd) (nodup_planogram _), cleared_iff]
  have hmem : ∀ slot, slot ∈ mirrorOf (deliverSnapshots serial db ds) serial ↔
      ∃ stamp, FencedCell.deliverAll (sayings ds slot.coilId) = some (stamp, slot) := by
    intro slot
    rw [mem_mirrorOf hnd, hcell]
  have hkept : ∀ coil slot, slotAt newest.slots coil = some slot →
      FencedCell.deliverAll (sayings ds coil) = some (newest.capturedAt, slot) := by
    intro coil slot hslot
    refine FencedCell.deliverAll_newest ?_ ?_ ?_
    · exact List.mem_map.mpr ⟨newest, hnewest, by rw [hslot]⟩
    · exact List.forall_mem_map.mpr hmax
    · refine List.forall_mem_map.mpr fun d hd heq => ?_
      rw [hdistinct d hd newest hnewest heq, hslot]
  constructor
  · intro hsame coil hnot
    by_contra hsome
    obtain ⟨⟨stamp, slot⟩, hslot⟩ := Option.ne_none_iff_exists'.mp hsome
    obtain rfl := coilId_of_cellOf ((hcell coil).trans hslot)
    have hin := mem_planogram.mp ((hsame slot).mp ((hmem slot).mpr ⟨stamp, hslot⟩))
    rw [slotAt_eq_none_iff.mpr hnot] at hin
    cases hin
  · intro hclear slot
    rw [hmem, mem_planogram]
    constructor
    · rintro ⟨stamp, h⟩
      rcases hat : slotAt newest.slots slot.coilId with _ | own
      · rw [hclear _ (slotAt_eq_none_iff.mp hat)] at h
        cases h
      · rw [hkept _ _ hat] at h
        exact congrArg some (congrArg Prod.snd (Option.some.inj h))
    · intro h
      exact ⟨_, hkept _ _ h⟩

def mirrorHost : Js.Host where
  toLowerCase s := s
  number _ := none
  numberText _ := ""
  toFixed12 _ := ""
  localeCompare _ _ := 0
  sha256 s := s

/-- A machine without a card, and goods without a product. -/
def sampleIngestEnv : IngestEnv := ⟨mirrorHost, ⟨[], []⟩, [], 0⟩

def bothCoils : Delivery := ⟨sampleIngestEnv, 1000, [⟨"A", "Cola", 10, 5⟩, ⟨"C", "Chips", 10, 7⟩]⟩

def oneCoil : Delivery := ⟨sampleIngestEnv, 2000, [⟨"A", "Cola", 10, 9⟩]⟩

/-- In order of time the coil that went out is removed. -/
theorem mirror_newest_sample :
    (mirrorOf (deliverSnapshots "2508160376" ⟨[], [], []⟩ [bothCoils, oneCoil]) "2508160376").Perm
        (planogram oneCoil.slots) ↔ Cleared [bothCoils, oneCoil] oneCoil :=
  mirror_newest_iff (List.forall_mem_nil _) (by decide) (by decide) (List.mem_cons_of_mem _ List.mem_cons_self)
    (by decide)

/-- The older snapshot comes late and brings the coil back. -/
theorem late_snapshot_revives_coil :
    ¬ (mirrorOf (deliverSnapshots "2508160376" ⟨[], [], []⟩ [oneCoil, bothCoils]) "2508160376").Perm
      (planogram oneCoil.slots) := by
  intro h
  have hlength := h.length_eq
  revert hlength
  decide

end Mydon.Vending
