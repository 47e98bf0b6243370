import Mydon.Clock
import Mydon.Vending.Field
import Mathlib.Data.List.Flatten

/-! The history of the slots as its two readers group it, and what rows that come again change in it:
the moments stay, and the slots of one of them are read again. -/

namespace Mydon.Vending

open Mydon.Lib

/-- A row of the history, its product under the name that `nameOf` gives it. -/
def rowSlot (nameOf : String → String) (r : SlotSnapshotRow) : Slot :=
  ⟨r.coilId, ((r.productName.map Js.trim).filter (· ≠ "")).map nameOf, r.capacity, r.quantity⟩

/-- `поМоменту`: a snapshot is made of the rows of one moment. -/
def byMoment (nameOf : String → String) (serial : String) (rows : List SlotSnapshotRow) : List MachineSnapshot :=
  (group SlotSnapshotRow.capturedAt rows).map fun e => ⟨serial, e.1, e.2.map (rowSlot nameOf)⟩

def rowsSince (since : ℤ) (rows : List SlotSnapshotRow) : List SlotSnapshotRow := rows.filter fun r => since ≤ r.capturedAt

def rowsOfForm (since : ℤ) (rows : List SlotSnapshotRow) (form : String) : List SlotSnapshotRow :=
  (rowsSince since rows).filter fun r => r.machineSerial = form

/-- `формыКанона`: the written forms of each canonical serial. -/
def canonForms (host : Js.Host) (since : ℤ) (rows : List SlotSnapshotRow) : List (String × List String) :=
  group (normalizeMachineSerial host) (OrderedMap.keySet ((rowsSince since rows).map SlotSnapshotRow.machineSerial))

/-- The snapshots of a machine under all forms of its serial. -/
def machineSnapshots (nameOf : String → String) (since : ℤ) (rows : List SlotSnapshotRow) (canon : String)
    (forms : List String) : List MachineSnapshot :=
  byMoment nameOf canon (forms.flatMap (rowsOfForm since rows))

/-- The refills that the detector sees in the history, machine by machine. -/
def historyRefills (host : Js.Host) (nameOf : String → String) (since minUnits : ℤ) (rows : List SlotSnapshotRow) :
    List RefillEvent :=
  (canonForms host since rows).flatMap fun e => detectRefills (machineSnapshots nameOf since rows e.1 e.2) minUnits

/-! Grouped rows. -/

variable {host : Js.Host} {nameOf : String → String} {since minUnits T t : ℤ} {serial canon form : String}
  {forms : List String} {rows rows' before again after : List SlotSnapshotRow}

def moments (rows : List SlotSnapshotRow) : List ℤ := OrderedMap.keySet (rows.map SlotSnapshotRow.capturedAt)

def slotsAt (nameOf : String → String) (rows : List SlotSnapshotRow) (t : ℤ) : List Slot :=
  (rows.filter fun r => r.capturedAt = t).map (rowSlot nameOf)

def snapshotAt (nameOf : String → String) (serial : String) (rows : List SlotSnapshotRow) (t : ℤ) : MachineSnapshot :=
  ⟨serial, t, slotsAt nameOf rows t⟩

theorem byMoment_eq : byMoment nameOf serial rows = (moments rows).map (snapshotAt nameOf serial rows) := by
  rw [byMoment, group_eq, List.map_map]
  rfl

theorem byTime_map {ι : Type*} (f : ι → MachineSnapshot) (is : List ι) :
    byTime (is.map f) = (is.insertionSort fun i j => (f i).capturedAt ≤ (f j).capturedAt).map f :=
  (List.map_insertionSort _ _ f is fun _ _ _ _ => Iff.rfl).symm

/-- The moments in order, without repetition. -/
def sortedMoments (rows : List SlotSnapshotRow) : List ℤ := (moments rows).insertionSort (· ≤ ·)

theorem byTime_byMoment :
    byTime (byMoment nameOf serial rows) = (sortedMoments rows).map (snapshotAt nameOf serial rows) := by
  rw [byMoment_eq, byTime_map]
  rfl

theorem sortedMoments_pairwise (rows : List SlotSnapshotRow) : (sortedMoments rows).Pairwise (· < ·) := by
  have hnd : (sortedMoments rows).Nodup := (List.perm_insertionSort _ _).nodup_iff.mpr (nodup_keySet _)
  have hle : (sortedMoments rows).Pairwise (· ≤ ·) := List.pairwise_insertionSort _ _
  exact hle.imp₂ (fun a b hle hne => lt_of_le_of_ne hle hne) hnd

/-- Neighbouring moments. -/
def windows (ts : List ℤ) : List (ℤ × ℤ) := ts.zip ts.tail

theorem windows_nodup {ts : List ℤ} (h : ts.Pairwise (· < ·)) : (windows ts).Nodup := by
  refine List.Nodup.of_map Prod.snd ?_
  rw [windows, List.map_snd_zip (by simp)]
  exact (h.imp ne_of_lt).sublist (List.tail_sublist ts)

theorem lt_of_window {ts : List ℤ} (h : ts.Pairwise (· < ·)) {w : ℤ × ℤ} (hw : w ∈ windows ts) : w.1 < w.2 := by
  induction ts with
  | nil => cases hw
  | cons a ts ih =>
    rcases ts with _ | ⟨b, ts⟩
    · cases hw
    · rcases List.mem_cons.mp hw with rfl | hw
      · exact List.rel_of_pairwise_cons h List.mem_cons_self
      · exact ih h.of_cons hw

/-- The refills of one machine, window by window. -/
theorem detectRefills_byMoment : detectRefills (byMoment nameOf serial rows) minUnits =
    (windows (sortedMoments rows)).filterMap fun w =>
      windowEvent minUnits serial (snapshotAt nameOf serial rows w.1) (snapshotAt nameOf serial rows w.2) := by
  have hserial : ∀ s ∈ byMoment nameOf serial rows, s.serial = serial := by
    intro s hs
    rw [byMoment_eq] at hs
    obtain ⟨t, _, rfl⟩ := List.mem_map.mp hs
    rfl
  rw [detectRefills_of_serial hserial, byTime_byMoment, ← List.map_tail, List.zip_map, List.filterMap_map]
  rfl

/-! Rows that come again. -/

/-- The rows of one moment that were already there. -/
def Again (T : ℤ) (before again : List SlotSnapshotRow) : Prop := ∀ r ∈ again, r ∈ before ∧ r.capturedAt = T

theorem Again.filter (h : Again T before again) (p : SlotSnapshotRow → Bool) :
    Again T (before.filter p) (again.filter p) := by
  intro r hr
  rw [List.mem_filter] at hr
  exact ⟨List.mem_filter.mpr ⟨(h r hr.1).1, hr.2⟩, (h r hr.1).2⟩

theorem rowsOfForm_append :
    rowsOfForm since (rows ++ rows') form = rowsOfForm since rows form ++ rowsOfForm since rows' form := by
  simp [rowsOfForm, rowsSince]

theorem Again.rowsOfForm (h : Again T before again) :
    Again T (rowsOfForm since before form) (rowsOfForm since again form) := (h.filter _).filter _

theorem Again.canonForms_eq (h : Again T before again) :
    canonForms host since (before ++ again ++ after) = canonForms host since (before ++ after) := by
  have hkeys : ∀ k ∈ (rowsSince since again).map SlotSnapshotRow.machineSerial,
      k ∈ (rowsSince since before).map SlotSnapshotRow.machineSerial := by
    intro k hk
    obtain ⟨r, hr, rfl⟩ := List.mem_map.mp hk
    exact List.mem_map_of_mem (h.filter _ r hr).1
  unfold canonForms rowsSince at *
  simp only [List.filter_append, List.map_append]
  rw [keySet_repeat hkeys]

theorem Again.moments_eq (h : Again T before again) : moments (before ++ again ++ after) = moments (before ++ after) := by
  have hkeys : ∀ k ∈ again.map SlotSnapshotRow.capturedAt, k ∈ before.map SlotSnapshotRow.capturedAt := by
    intro k hk
    obtain ⟨r, hr, rfl⟩ := List.mem_map.mp hk
    exact List.mem_map_of_mem (h r hr).1
  unfold moments
  simp only [List.map_append]
  exact keySet_repeat hkeys

/-- The rows of a machine. -/
def machineRows (since : ℤ) (forms : List String) (rows : List SlotSnapshotRow) : List SlotSnapshotRow :=
  forms.flatMap (rowsOfForm since rows)

theorem Again.moments_machineRows (h : Again T before again) :
    moments (machineRows since forms (before ++ again ++ after)) =
      moments (machineRows since forms (before ++ after)) := by
  unfold moments machineRows
  rw [List.map_flatMap, List.map_flatMap]
  refine keySet_flatMap fun form _ seen => ?_
  have hkeys : ∀ k ∈ (Vending.rowsOfForm since again form).map SlotSnapshotRow.capturedAt,
      k ∈ (Vending.rowsOfForm since before form).map SlotSnapshotRow.capturedAt := by
    intro k hk
    obtain ⟨r, hr, rfl⟩ := List.mem_map.mp hk
    exact List.mem_map_of_mem (h.rowsOfForm r hr).1
  simp only [rowsOfForm_append, List.map_append]
  exact distinctFrom_repeat hkeys

/-- Apart from their moment nothing is read anew. -/
theorem Again.slotsAt_of_ne (h : Again T before again) (hne : t ≠ T) :
    slotsAt nameOf (machineRows since forms (before ++ again ++ after)) t =
      slotsAt nameOf (machineRows since forms (before ++ after)) t := by
  unfold slotsAt machineRows
  rw [List.filter_flatMap, List.filter_flatMap]
  congr 1
  refine List.flatMap_congr fun form _ => ?_
  have hnone : (Vending.rowsOfForm since again form).filter (fun r => r.capturedAt = t) = [] := by
    rw [List.filter_eq_nil_iff]
    intro r hr heq
    exact hne ((of_decide_eq_true heq).symm.trans (h.rowsOfForm r hr).2)
  rw [rowsOfForm_append, rowsOfForm_append, rowsOfForm_append, List.filter_append, List.filter_append, hnone,
    List.append_nil, List.filter_append]

theorem machineRows_perm : (machineRows since forms (before ++ again ++ after)).Perm
    (machineRows since forms (before ++ after) ++ machineRows since forms again) := by
  unfold machineRows
  refine List.Perm.trans (List.Perm.flatMap_left _ fun form _ => ?_) (List.flatMap_append_perm _ _ _).symm
  simp only [rowsOfForm_append, List.append_assoc]
  exact List.Perm.append_left _ List.perm_append_comm

theorem machineRows_sublist : (machineRows since forms (before ++ after)).Sublist
    (machineRows since forms (before ++ again ++ after)) := by
  refine List.Sublist.flatMap_right _ fun form _ => ?_
  simp only [rowsOfForm_append]
  exact List.Sublist.append (List.sublist_append_left _ _) (List.Sublist.refl _)

end Mydon.Vending
