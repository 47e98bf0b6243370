import Mydon.Vending.History

/-! When rows that come again leave the refills of the history as they were. -/

namespace Mydon.Vending

open Mydon.Lib

variable {host : Js.Host} {nameOf : String → String} {since minUnits T : ℤ} {serial canon : String}
  {forms : List String} {before again after : List SlotSnapshotRow}

section window
variable {prev prev' cur cur' more : List Slot} {s : Slot} {rise : SlotRise} {old : List (String × Slot)}

theorem slotRise_eq_some_iff : slotRise old s = some rise ↔
    usable s = true ∧ ∃ b, OrderedMap.get old s.coilId = some b ∧ b.product.map Js.trim = s.product.map Js.trim ∧
      filled b < filled s ∧ rise = ⟨s.coilId, productName s, filled b, filled s, filled s - filled b⟩ := by
  unfold slotRise
  split_ifs with hu
  · rcases OrderedMap.get old s.coilId with _ | b
    · simp
    · simp only [hu, true_and, Option.some.injEq, exists_eq_left']
      split_ifs with hproduct hpos
      · simp [hproduct]
      · rw [Option.some.injEq]
        refine ⟨fun h => ⟨not_not.mp hproduct, by omega, h.symm⟩, fun h => h.2.2.symm⟩
      · refine ⟨fun h => (by cases h), fun h => ?_⟩
        have := h.2.1
        omega
  · simp [hu]

theorem product_of_usable (h : usable s = true) : s.product.map Js.trim = some (productName s) := by
  unfold usable hasProduct at h
  rcases hs : s.product with _ | p
  · simp [hs] at h
  · simp [productName, hs]

/-- A rise tells what the coil held before, so the rises of a snapshot tell it for each of its slots that rose. -/
theorem rises_eq_iff : rises prev' cur = rises prev cur ↔
    ∀ s ∈ cur, slotRise (held prev') s = slotRise (held prev) s := by
  have hcarry : ∀ {p q : List Slot}, rises p cur = rises q cur → ∀ s ∈ cur, ∀ rise,
      slotRise (held p) s = some rise → slotRise (held q) s = some rise := by
    intro p q heq s hs rise hrise
    have hmem : rise ∈ rises q cur := heq ▸ List.mem_filterMap.mpr ⟨s, hs, hrise⟩
    obtain ⟨s', _, hrise'⟩ := List.mem_filterMap.mp hmem
    obtain ⟨hu, b, _, hproduct, hlt, hr⟩ := slotRise_eq_some_iff.mp hrise
    obtain ⟨hu', b', hb', hproduct', _, hr'⟩ := slotRise_eq_some_iff.mp hrise'
    obtain ⟨hcoil, hname, hbefore, -, -⟩ := SlotRise.mk.inj (hr.symm.trans hr')
    refine slotRise_eq_some_iff.mpr ⟨hu, b', hcoil ▸ hb', ?_, hbefore ▸ hlt, hbefore ▸ hr⟩
    rw [hproduct', product_of_usable hu', product_of_usable hu, hname]
  constructor
  · intro heq s hs
    rcases h : slotRise (held prev) s with _ | rise
    · rcases h' : slotRise (held prev') s with _ | rise'
      · rfl
      · rw [hcarry heq s hs rise' h'] at h
        cases h
    · exact hcarry heq.symm s hs rise h
  · intro h
    exact List.filterMap_congr h

theorem rises_of_perm (h : cur'.Perm (cur ++ more)) : (rises prev cur').Perm (rises prev cur ++ rises prev more) := by
  have hperm := h.filterMap (slotRise (held prev))
  rwa [List.filterMap_append] at hperm

theorem unitsOf_of_perm (h : cur'.Perm (cur ++ more)) :
    unitsOf (rises prev cur') = unitsOf (rises prev cur) + unitsOf (rises prev more) := by
  unfold unitsOf
  rw [((rises_of_perm h).map _).sum_eq, List.map_append, List.sum_append]

/-- More rows of a moment show no more rises exactly when none of them rose. -/
theorem rises_insert_iff (hsub : cur.Sublist cur') (h : cur'.Perm (cur ++ more)) :
    rises prev cur' = rises prev cur ↔ ∀ s ∈ more, slotRise (held prev) s = none := by
  have hlength : (rises prev cur').length = (rises prev cur).length + (rises prev more).length := by
    rw [(rises_of_perm h).length_eq, List.length_append]
  constructor
  · intro heq
    rw [heq] at hlength
    have hnil : rises prev more = [] := List.eq_nil_of_length_eq_zero (by omega)
    exact List.filterMap_eq_nil_iff.mp hnil
  · intro hnone
    have hnil : rises prev more = [] := List.filterMap_eq_nil_iff.mpr hnone
    refine ((hsub.filterMap _).eq_of_length ?_).symm
    rw [hnil] at hlength
    exact hlength.symm

theorem windowEvent_eq_iff {a b : ℤ} : windowEvent minUnits serial ⟨serial, a, prev'⟩ ⟨serial, b, cur'⟩ =
      windowEvent minUnits serial ⟨serial, a, prev⟩ ⟨serial, b, cur⟩ ↔
    rises prev' cur' = rises prev cur ∨
      (reaches minUnits (unitsOf (rises prev' cur')) = false ∧ reaches minUnits (unitsOf (rises prev cur)) = false) := by
  rw [windowEvent_eq, windowEvent_eq]
  constructor
  · intro h
    rcases hnew : reaches minUnits (unitsOf (rises prev' cur')) with _ | _ <;>
      rcases hold : reaches minUnits (unitsOf (rises prev cur)) with _ | _
    · exact .inr ⟨rfl, rfl⟩
    · simp [hnew, hold] at h
    · simp [hnew, hold] at h
    · simp only [hnew, hold, if_true, Option.some.injEq, RefillEvent.mk.injEq] at h
      exact .inl h.2.2.2.2
  · rintro (heq | ⟨hnew, hold⟩)
    · rw [heq]
    · simp [hnew, hold]

theorem reaches_mono {units more : ℤ} (hmore : 0 ≤ more) (h : reaches minUnits units = true) :
    reaches minUnits (units + more) = true := by
  simp only [reaches, Bool.and_eq_true, decide_eq_true_eq] at h ⊢
  omega

/-- In the window that ends with the moment, more rows matter unless they did not rise or all rises together
stay below the threshold. -/
theorem window_more_iff {a b : ℤ} (hsub : cur.Sublist cur') (h : cur'.Perm (cur ++ more)) :
    windowEvent minUnits serial ⟨serial, a, prev⟩ ⟨serial, b, cur'⟩ =
        windowEvent minUnits serial ⟨serial, a, prev⟩ ⟨serial, b, cur⟩ ↔
      (∀ s ∈ more, slotRise (held prev) s = none) ∨
        reaches minUnits (unitsOf (rises prev cur) + unitsOf (rises prev more)) = false := by
  rw [windowEvent_eq_iff, rises_insert_iff hsub h, unitsOf_of_perm h]
  refine or_congr_right ⟨And.left, fun hnew => ⟨hnew, ?_⟩⟩
  by_contra hold
  rw [Bool.not_eq_false] at hold
  rw [reaches_mono unitsOf_nonneg hold] at hnew
  cases hnew

end window

/-- What the history says of a machine at a moment. -/
def told (nameOf : String → String) (since : ℤ) (forms : List String) (rows : List SlotSnapshotRow) (t : ℤ) :
    List Slot := slotsAt nameOf (machineRows since forms rows) t

/-- The rows that come again do not show in the refills of a machine. In the window that ends with their
moment none of them rose, or the rises stay below the threshold however often they are counted; in the
window that begins with it each coil of the next snapshot rose as before, or the rises stay below it. -/
structure RefillsUnmoved (nameOf : String → String) (since minUnits T : ℤ) (forms : List String)
    (before again after : List SlotSnapshotRow) : Prop where
  arriving : ∀ prev, (prev, T) ∈ windows (sortedMoments (machineRows since forms (before ++ after))) →
    (∀ s ∈ told nameOf since forms again T,
      slotRise (held (told nameOf since forms (before ++ after) prev)) s = none) ∨
    reaches minUnits (unitsOf (rises (told nameOf since forms (before ++ after) prev)
        (told nameOf since forms (before ++ after) T)) +
      unitsOf (rises (told nameOf since forms (before ++ after) prev) (told nameOf since forms again T))) = false
  leaving : ∀ next, (T, next) ∈ windows (sortedMoments (machineRows since forms (before ++ after))) →
    (∀ s ∈ told nameOf since forms (before ++ after) next,
      slotRise (held (told nameOf since forms (before ++ again ++ after) T)) s =
        slotRise (held (told nameOf since forms (before ++ after) T)) s) ∨
    ∀ rows ∈ [before ++ again ++ after, before ++ after], reaches minUnits (unitsOf (rises
      (told nameOf since forms rows T) (told nameOf since forms (before ++ after) next))) = false

theorem told_perm : (told nameOf since forms (before ++ again ++ after) T).Perm
    (told nameOf since forms (before ++ after) T ++ told nameOf since forms again T) := by
  unfold told slotsAt
  rw [← List.map_append, ← List.filter_append]
  exact (machineRows_perm.filter _).map _

theorem told_sublist : (told nameOf since forms (before ++ after) T).Sublist
    (told nameOf since forms (before ++ again ++ after) T) := by
  unfold told slotsAt
  exact (machineRows_sublist.filter _).map _

theorem windowEvent_tag {prev cur : MachineSnapshot} {ev : RefillEvent}
    (h : windowEvent minUnits serial prev cur = some ev) :
    (ev.windowFrom, ev.windowTo) = (prev.capturedAt, cur.capturedAt) := by
  obtain ⟨_, hfrom, hto⟩ := windowEvent_fields h
  rw [hfrom, hto]

/-- One machine. -/
theorem Again.detectRefills_iff (h : Again T before again) :
    detectRefills (machineSnapshots nameOf since (before ++ again ++ after) canon forms) minUnits =
        detectRefills (machineSnapshots nameOf since (before ++ after) canon forms) minUnits ↔
      RefillsUnmoved nameOf since minUnits T forms before again after := by
  have hsorted := sortedMoments_pairwise (machineRows since forms (before ++ after))
  have hmoments : sortedMoments (machineRows since forms (before ++ again ++ after)) =
      sortedMoments (machineRows since forms (before ++ after)) := by
    unfold sortedMoments
    rw [h.moments_machineRows]
  have hother : ∀ t, t ≠ T → snapshotAt nameOf canon (machineRows since forms (before ++ again ++ after)) t =
      ⟨canon, t, told nameOf since forms (before ++ after) t⟩ := by
    intro t ht
    rw [snapshotAt, h.slotsAt_of_ne ht]
    rfl
  unfold machineSnapshots
  rw [← machineRows, ← machineRows, detectRefills_byMoment, detectRefills_byMoment, hmoments,
    filterMap_eq_iff_of_tag (fun ev => (ev.windowFrom, ev.windowTo)) (windows_nodup hsorted)
      (fun _ _ _ hev => windowEvent_tag hev) (fun _ _ _ hev => windowEvent_tag hev)]
  constructor
  · intro hall
    refine ⟨fun prev hw => ?_, fun next hw => ?_⟩
    · have hne := (lt_of_window hsorted hw).ne
      have hwindow := hall _ hw
      rw [hother prev hne] at hwindow
      exact (window_more_iff told_sublist told_perm).mp hwindow
    · have hne := (lt_of_window hsorted hw).ne'
      have hwindow := hall _ hw
      rw [hother next hne] at hwindow
      refine (windowEvent_eq_iff.mp hwindow).imp rises_eq_iff.mp fun hquiet => ?_
      exact List.forall_mem_cons.mpr ⟨hquiet.1, List.forall_mem_singleton.mpr hquiet.2⟩
  · rintro ⟨harriving, hleaving⟩ ⟨a, b⟩ hw
    have hlt := lt_of_window hsorted hw
    by_cases ha : a = T
    · subst ha
      rw [hother b hlt.ne']
      refine windowEvent_eq_iff.mpr ((hleaving b hw).imp rises_eq_iff.mpr fun hquiet => ?_)
      exact ⟨hquiet _ List.mem_cons_self, hquiet _ (List.mem_cons_of_mem _ List.mem_cons_self)⟩
    · rw [hother a ha]
      by_cases hb : b = T
      · subst hb
        exact (window_more_iff told_sublist told_perm).mpr (harriving a hw)
      · rw [hother b hb]
        rfl

theorem serial_of_detectRefills {rows : List SlotSnapshotRow} {ev : RefillEvent}
    (h : ev ∈ detectRefills (machineSnapshots nameOf since rows canon forms) minUnits) : ev.serial = canon := by
  rw [machineSnapshots, detectRefills_byMoment] at h
  obtain ⟨w, _, hev⟩ := List.mem_filterMap.mp h
  exact (windowEvent_fields hev).1

/-- All machines. -/
theorem Again.historyRefills_iff (h : Again T before again) :
    historyRefills host nameOf since minUnits (before ++ again ++ after) =
        historyRefills host nameOf since minUnits (before ++ after) ↔
      ∀ e ∈ canonForms host since (before ++ after), RefillsUnmoved nameOf since minUnits T e.2 before again after := by
  unfold historyRefills
  rw [h.canonForms_eq, canonForms, group_eq, List.flatMap_map, List.flatMap_map,
    flatMap_eq_iff_of_tag RefillEvent.serial (nodup_keySet _) (fun _ _ _ hev => serial_of_detectRefills hev)
      (fun _ _ _ hev => serial_of_detectRefills hev), List.forall_mem_map]
  exact forall₂_congr fun _ _ => h.detectRefills_iff

end Mydon.Vending
