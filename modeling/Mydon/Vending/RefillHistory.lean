import Mathlib
import Mydon.Vending.RefillJournal

/-! The journal of one machine against its history: while no snapshot comes between the ends of a window
that was written down, the journal is what the detector sees in the history as a whole. -/

namespace Mydon.Vending

open Mydon.Lib

/-! Neighbouring moments. -/

theorem mem_windows_iff {ts : List ℤ} (h : ts.Pairwise (· < ·)) {a b : ℤ} :
    (a, b) ∈ windows ts ↔ a ∈ ts ∧ b ∈ ts ∧ a < b ∧ ∀ c ∈ ts, ¬ (a < c ∧ c < b) := by
  induction ts with
  | nil => simp [windows]
  | cons t ts ih =>
    rcases ts with _ | ⟨u, ts⟩
    · simp only [windows, List.tail_cons, List.zip_nil_right, List.not_mem_nil, false_iff, List.mem_singleton]
      rintro ⟨rfl, rfl, hlt, _⟩
      exact lt_irrefl _ hlt
    · have hstep : windows (t :: u :: ts) = (t, u) :: windows (u :: ts) := rfl
      have hfirst : ∀ c ∈ u :: ts, t < c := (List.pairwise_cons.mp h).1
      have hrest := (List.pairwise_cons.mp h).2
      have hnext : ∀ c ∈ u :: ts, u ≤ c := by
        intro c hc
        rcases List.mem_cons.mp hc with rfl | hc
        · exact le_rfl
        · exact ((List.pairwise_cons.mp hrest).1 c hc).le
      rw [hstep, List.mem_cons, ih hrest]
      constructor
      · rintro (heq | ⟨ha, hb, hlt, hnone⟩)
        · obtain ⟨rfl, rfl⟩ := Prod.mk.inj heq
          refine ⟨List.mem_cons_self, List.mem_cons_of_mem _ List.mem_cons_self, hfirst _ List.mem_cons_self, ?_⟩
          rintro c hc ⟨hac, hcb⟩
          rcases List.mem_cons.mp hc with rfl | hc
          · exact lt_irrefl _ hac
          · exact not_le.mpr hcb (hnext c hc)
        · refine ⟨List.mem_cons_of_mem _ ha, List.mem_cons_of_mem _ hb, hlt, ?_⟩
          rintro c hc ⟨hac, hcb⟩
          rcases List.mem_cons.mp hc with rfl | hc
          · exact absurd (hfirst a ha) hac.asymm
          · exact hnone c hc ⟨hac, hcb⟩
      · rintro ⟨ha, hb, hlt, hnone⟩
        have hb' : b ∈ u :: ts := by
          rcases List.mem_cons.mp hb with rfl | hb
          · rcases List.mem_cons.mp ha with rfl | ha
            · exact absurd hlt (lt_irrefl _)
            · exact absurd (hfirst a ha) hlt.asymm
          · exact hb
        rcases List.mem_cons.mp ha with rfl | ha
        · refine .inl (Prod.ext rfl ?_)
          have hu := hnone u (List.mem_cons_of_mem _ List.mem_cons_self)
          have hau : a < u := hfirst u List.mem_cons_self
          have hub := hnext b hb'
          omega
        · exact .inr ⟨ha, hb', hlt, fun c hc => hnone c (List.mem_cons_of_mem _ hc)⟩

/-- Two windows of a history are one, or they do not meet. -/
theorem windows_disjoint {ts : List ℤ} (h : ts.Pairwise (· < ·)) {a b a' b' : ℤ} (hw : (a, b) ∈ windows ts)
    (hw' : (a', b') ∈ windows ts) (hne : b ≠ b') : Disjoint (Set.Ioc a b) (Set.Ioc a' b') := by
  obtain ⟨ha, hb, hlt, hnone⟩ := (mem_windows_iff h).mp hw
  obtain ⟨ha', hb', hlt', hnone'⟩ := (mem_windows_iff h).mp hw'
  rw [Set.disjoint_left]
  rintro c ⟨hac, hcb⟩ ⟨hac', hcb'⟩
  have h₁ := hnone b' hb'
  have h₂ := hnone' b hb
  omega

/-! The history of a machine. -/

/-- A machine, the host its serial is normalized on, and how a run of the detector reads it. -/
structure Watch where
  host : Js.Host
  serial : String
  nameOf : String → String
  minUnits : ℤ

namespace Watch

variable (w : Watch)

def rows (all : List SlotSnapshotRow) : List SlotSnapshotRow :=
  all.filter fun r => normalizeMachineSerial w.host r.machineSerial = w.serial

/-- The written forms of the serial, in the order they came. -/
def forms (all : List SlotSnapshotRow) : List String := OrderedMap.keySet ((w.rows all).map SlotSnapshotRow.machineSerial)

def ordered (all : List SlotSnapshotRow) : List SlotSnapshotRow :=
  (w.forms all).flatMap fun form => all.filter fun r => r.machineSerial = form

/-- The whole history, a snapshot for each moment. -/
def history (all : List SlotSnapshotRow) : List MachineSnapshot := byMoment w.nameOf w.serial (w.ordered all)

def refills (all : List SlotSnapshotRow) : List RefillEvent := detectRefills (w.history all) w.minUnits

end Watch

variable {w : Watch} {all more : List SlotSnapshotRow} {r : SlotSnapshotRow} {ev ev' : RefillEvent} {since t : ℤ}

theorem mem_watch_rows : r ∈ w.rows all ↔ r ∈ all ∧ normalizeMachineSerial w.host r.machineSerial = w.serial := by
  rw [Watch.rows, List.mem_filter, decide_eq_true_eq]

theorem watch_rows_append : w.rows (all ++ more) = w.rows all ++ w.rows more := List.filter_append _ _

theorem normalize_of_mem_forms {form : String} (h : form ∈ w.forms all) :
    normalizeMachineSerial w.host form = w.serial := by
  rw [Watch.forms, mem_keySet] at h
  obtain ⟨r, hr, rfl⟩ := List.mem_map.mp h
  exact (mem_watch_rows.mp hr).2

theorem mem_ordered : r ∈ w.ordered all ↔ r ∈ w.rows all := by
  rw [Watch.ordered, List.mem_flatMap, mem_watch_rows]
  constructor
  · rintro ⟨form, hform, hr⟩
    obtain ⟨hmem, heq⟩ := List.mem_filter.mp hr
    rw [of_decide_eq_true heq]
    exact ⟨hmem, normalize_of_mem_forms hform⟩
  · rintro ⟨hmem, hof⟩
    refine ⟨r.machineSerial, ?_, List.mem_filter.mpr ⟨hmem, decide_eq_true rfl⟩⟩
    rw [Watch.forms, mem_keySet]
    exact List.mem_map_of_mem (mem_watch_rows.mpr ⟨hmem, hof⟩)

theorem mem_sortedMoments_ordered : t ∈ sortedMoments (w.ordered all) ↔ ∃ r ∈ w.rows all, r.capturedAt = t := by
  rw [sortedMoments, List.mem_insertionSort, moments, mem_keySet, List.mem_map]
  simp only [mem_ordered]

/-- A refill of the history is a window between neighbouring moments. -/
theorem mem_refills_iff : ev ∈ w.refills all ↔ ∃ a b, (a, b) ∈ windows (sortedMoments (w.ordered all)) ∧
    windowEvent w.minUnits w.serial (snapshotAt w.nameOf w.serial (w.ordered all) a)
      (snapshotAt w.nameOf w.serial (w.ordered all) b) = some ev := by
  rw [Watch.refills, Watch.history, detectRefills_byMoment, List.mem_filterMap, Prod.exists]

theorem window_of_refill (h : ev ∈ w.refills all) :
    (ev.windowFrom, ev.windowTo) ∈ windows (sortedMoments (w.ordered all)) := by
  obtain ⟨a, b, hw, hev⟩ := mem_refills_iff.mp h
  obtain ⟨_, hfrom, hto⟩ := windowEvent_fields hev
  rw [hfrom, hto]
  exact hw

theorem refills_nodup : ((w.refills all).map (·.windowTo)).Nodup := by
  have hsorted := sortedMoments_pairwise (w.ordered all)
  have hends : ((windows (sortedMoments (w.ordered all))).map Prod.snd).Nodup := by
    rw [windows, List.map_snd_zip (by simp)]
    exact (hsorted.imp ne_of_lt).sublist (List.tail_sublist _)
  rw [Watch.refills, Watch.history, detectRefills_byMoment]
  exact hends.sublist (map_filterMap_sublist (fun _ _ hev => (windowEvent_fields hev).2.2) _)

theorem eq_of_windowTo (h : ev ∈ w.refills all) (h' : ev' ∈ w.refills all) (hto : ev.windowTo = ev'.windowTo) :
    ev = ev' := List.inj_on_of_nodup_map refills_nodup h h' hto

/-! More rows. -/

/-- The forms that were there keep their places. -/
theorem forms_append (w : Watch) (all more : List SlotSnapshotRow) : ∃ extra, w.forms (all ++ more) = w.forms all ++ extra ∧
    ∀ form ∈ extra, ∀ r ∈ all, r.machineSerial ≠ form := by
  obtain ⟨extra, hextra, hnew⟩ := distinctFrom_eq_append (w.forms all) ((w.rows more).map SlotSnapshotRow.machineSerial)
  have hforms : w.forms (all ++ more) =
      distinctFrom (w.forms all) ((w.rows more).map SlotSnapshotRow.machineSerial) := by
    rw [Watch.forms, watch_rows_append, List.map_append]
    exact distinctFrom_append
  refine ⟨extra, hforms.trans hextra, fun form hform r hr heq => ?_⟩
  obtain ⟨hfrom, hnot⟩ := hnew form hform
  obtain ⟨r', hr', heq'⟩ := List.mem_map.mp hfrom
  refine hnot ?_
  rw [Watch.forms, mem_keySet]
  refine List.mem_map.mpr ⟨r, mem_watch_rows.mpr ⟨hr, ?_⟩, heq⟩
  rw [heq, ← heq']
  exact (mem_watch_rows.mp hr').2

/-- Rows of other moments leave the slots of a moment as they were. -/
theorem slotsAt_append (h : ∀ r ∈ w.rows more, r.capturedAt ≠ t) :
    slotsAt w.nameOf (w.ordered (all ++ more)) t = slotsAt w.nameOf (w.ordered all) t := by
  obtain ⟨extra, hforms, hextra⟩ := forms_append w all more
  unfold slotsAt
  congr 1
  unfold Watch.ordered
  rw [List.filter_flatMap, List.filter_flatMap]
  have hmore : ∀ form ∈ w.forms (all ++ more),
      ((all ++ more).filter fun r => r.machineSerial = form).filter (fun r => r.capturedAt = t) =
        (all.filter fun r => r.machineSerial = form).filter fun r => r.capturedAt = t := by
    intro form hform
    have hnone : (more.filter fun r => r.machineSerial = form).filter (fun r => r.capturedAt = t) = [] := by
      rw [List.filter_eq_nil_iff]
      intro r hr hat
      obtain ⟨hmem, heq⟩ := List.mem_filter.mp hr
      refine h r (mem_watch_rows.mpr ⟨hmem, ?_⟩) (of_decide_eq_true hat)
      rw [of_decide_eq_true heq]
      exact normalize_of_mem_forms hform
    rw [List.filter_append, List.filter_append, hnone, List.append_nil]
  rw [List.flatMap_congr hmore, hforms, List.flatMap_append]
  have hnew : (extra.flatMap fun form => (all.filter fun r => r.machineSerial = form).filter fun r => r.capturedAt = t) =
      [] := by
    rw [List.flatMap_eq_nil_iff]
    intro form hform
    rw [List.filter_eq_nil_iff]
    intro r hr
    obtain ⟨hmem, heq⟩ := List.mem_filter.mp hr
    exact absurd (of_decide_eq_true heq) (hextra form hform r hmem)
  rw [hnew, List.append_nil]

/-- A refill stays while no new moment comes between its ends. -/
theorem refill_append (h : ev ∈ w.refills all)
    (hnew : ∀ r ∈ w.rows more, ∀ r' ∈ w.rows all, r'.capturedAt ≠ r.capturedAt)
    (hout : ∀ r ∈ w.rows more, ¬ (ev.windowFrom < r.capturedAt ∧ r.capturedAt < ev.windowTo)) :
    ev ∈ w.refills (all ++ more) := by
  obtain ⟨a, b, hw, hev⟩ := mem_refills_iff.mp h
  obtain ⟨_, hfrom, hto⟩ := windowEvent_fields hev
  obtain ⟨ha, hb, hlt, hnone⟩ := (mem_windows_iff (sortedMoments_pairwise _)).mp hw
  obtain ⟨ra, hra, rfl⟩ := mem_sortedMoments_ordered.mp ha
  obtain ⟨rb, hrb, rfl⟩ := mem_sortedMoments_ordered.mp hb
  have hfromEq : ev.windowFrom = ra.capturedAt := hfrom
  have htoEq : ev.windowTo = rb.capturedAt := hto
  have hmem : ∀ r ∈ w.rows all, r ∈ w.rows (all ++ more) := fun r hr => by
    rw [watch_rows_append]
    exact List.mem_append_left _ hr
  refine mem_refills_iff.mpr ⟨ra.capturedAt, rb.capturedAt, ?_, ?_⟩
  · refine (mem_windows_iff (sortedMoments_pairwise _)).mpr ⟨mem_sortedMoments_ordered.mpr ⟨ra, hmem ra hra, rfl⟩,
      mem_sortedMoments_ordered.mpr ⟨rb, hmem rb hrb, rfl⟩, hlt, fun c hc => ?_⟩
    obtain ⟨rc, hrc, rfl⟩ := mem_sortedMoments_ordered.mp hc
    rw [watch_rows_append, List.mem_append] at hrc
    rcases hrc with hrc | hrc
    · exact hnone _ (mem_sortedMoments_ordered.mpr ⟨rc, hrc, rfl⟩)
    · rw [← hfromEq, ← htoEq]
      exact hout rc hrc
  · rw [snapshotAt, snapshotAt, slotsAt_append fun r hr => (hnew r hr ra hra).symm,
      slotsAt_append fun r hr => (hnew r hr rb hrb).symm]
    exact hev

/-! A run of the detector over the whole history. -/

/-- A scan whose window covers the rows of the machine sees its whole history. -/
theorem machineSnapshots_of_covered (h : ∀ r ∈ w.rows all, since ≤ r.capturedAt) {e : String × List String}
    (he : e ∈ canonForms w.host since all) (hserial : e.1 = w.serial) :
    machineSnapshots w.nameOf since all e.1 e.2 = w.history all := by
  rw [canonForms, group_eq] at he
  obtain ⟨k, _, rfl⟩ := List.mem_map.mp he
  subst hserial
  have hrows : (rowsSince since all).filter (fun r => normalizeMachineSerial w.host r.machineSerial = w.serial) =
      w.rows all := by
    rw [rowsSince, List.filter_comm]
    exact List.filter_eq_self.mpr fun r hr => decide_eq_true (h r hr)
  have hforms : (OrderedMap.keySet ((rowsSince since all).map SlotSnapshotRow.machineSerial)).filter
      (fun form => normalizeMachineSerial w.host form = w.serial) = w.forms all := by
    rw [filter_keySet, List.filter_map, Watch.forms, ← hrows]
    rfl
  rw [hforms, machineSnapshots, Watch.history, Watch.ordered]
  congr 1
  refine List.flatMap_congr fun form hform => ?_
  rw [rowsOfForm, rowsSince, List.filter_comm]
  refine List.filter_eq_self.mpr fun r hr => decide_eq_true (h r ?_)
  obtain ⟨hmem, heq⟩ := List.mem_filter.mp hr
  refine mem_watch_rows.mpr ⟨hmem, ?_⟩
  rw [of_decide_eq_true heq]
  exact normalize_of_mem_forms hform

/-- The detector does not leave the machine out. -/
def Watch.Reads (w : Watch) (env : DetectEnv) (all : List SlotSnapshotRow) : Prop :=
  notInService env w.serial = false ∧ ∀ first rest, w.history all = first :: rest → skipReasonOf first rest = none

/-- The run reads the machine as the watch does, and its window covers the history. -/
structure Watch.Covered (w : Watch) (env : DetectEnv) (days : Option ℤ) (all : List SlotSnapshotRow) : Prop where
  host : env.host = w.host
  nameOf : env.catalog.resolveProduct env.host = w.nameOf
  minUnits : env.minUnits = w.minUnits
  since : ∀ r ∈ w.rows all, windowStart env days ≤ r.capturedAt

variable {env : DetectEnv} {days : Option ℤ}

theorem scanMachine_covered (h : w.Covered env days all) {e : String × List String}
    (he : e ∈ canonForms env.host (windowStart env days) all) (hserial : e.1 = w.serial) :
    (∀ ev ∈ (scanMachine env (windowStart env days) all e.1 e.2).events, ev ∈ w.refills all) ∧
      (w.Reads env all → (scanMachine env (windowStart env days) all e.1 e.2).events = w.refills all) := by
  have hsnapshots : machineSnapshots (env.catalog.resolveProduct env.host) (windowStart env days) all e.1 e.2 =
      w.history all := by
    rw [h.nameOf]
    exact machineSnapshots_of_covered h.since (h.host ▸ he) hserial
  unfold scanMachine
  rw [hsnapshots, hserial]
  by_cases hservice : notInService env w.serial = true
  · rw [if_pos hservice]
    refine ⟨List.forall_mem_nil _, fun hreads => ?_⟩
    rw [hreads.1] at hservice
    cases hservice
  · rw [if_neg hservice]
    rcases hhistory : w.history all with _ | ⟨first, rest⟩
    · refine ⟨List.forall_mem_nil _, fun _ => ?_⟩
      rw [Watch.refills, hhistory]
      rfl
    · dsimp only
      rcases hskip : skipReasonOf first rest with _ | reason
      · have hevents : detectRefills (first :: rest) env.minUnits = w.refills all := by
          rw [Watch.refills, hhistory, h.minUnits]
        exact ⟨fun ev hev => hevents ▸ hev, fun _ => hevents⟩
      · refine ⟨List.forall_mem_nil _, fun hreads => ?_⟩
        rw [hreads.2 first rest hhistory] at hskip
        cases hskip

theorem mem_scan_events : ev ∈ (scan env since all).events ↔
    ∃ e ∈ canonForms env.host since all, ev ∈ (scanMachine env since all e.1 e.2).events := by
  unfold scan
  dsimp only
  rw [List.flatMap_map, List.mem_flatMap]

/-- The events of the machine are refills of its history, and all of them where it is read. -/
theorem scan_covered (hstable : CanonStable env.host) (h : w.Covered env days all) :
    (∀ ev ∈ (scan env (windowStart env days) all).events, normalizeMachineSerial env.host ev.serial = w.serial →
        ev ∈ w.refills all) ∧
      (w.Reads env all → ∀ ev ∈ w.refills all, ev ∈ (scan env (windowStart env days) all).events) := by
  constructor
  · intro ev hev hserial
    have hcanon := ((scan_events hstable).1 ev hev).1
    obtain ⟨e, he, hev⟩ := mem_scan_events.mp hev
    have hkey : e.1 = w.serial := (scanMachine_events.1 ev hev).1.symm.trans (hcanon.symm.trans hserial)
    exact (scanMachine_covered h he hkey).1 ev hev
  · intro hreads ev hev
    obtain ⟨ha, _⟩ := (mem_windows_iff (sortedMoments_pairwise _)).mp (window_of_refill hev)
    obtain ⟨r, hr, _⟩ := mem_sortedMoments_ordered.mp ha
    obtain ⟨hmem, hof⟩ := mem_watch_rows.mp hr
    have hin : w.serial ∈ OrderedMap.keys (canonForms env.host (windowStart env days) all) := by
      rw [keys_canonForms, mem_keySet, List.mem_map]
      refine ⟨r.machineSerial, mem_keySet.mpr (List.mem_map_of_mem ?_), by rw [h.host, hof]⟩
      exact List.mem_filter.mpr ⟨hmem, decide_eq_true (h.since r hr)⟩
    obtain ⟨e, he, hkey⟩ := List.mem_map.mp hin
    refine mem_scan_events.mpr ⟨e, he, ?_⟩
    rw [(scanMachine_covered h he hkey).2 hreads]
    exact hev

/-! What is written down. -/

/-- A row without its id, card, slots and match. -/
def written (r : RefillEventRow) : String × ℤ × ℤ × ℤ := (r.machineSerial, r.windowFrom, r.windowTo, r.units)

def toWrite (host : Js.Host) (ev : RefillEvent) : String × ℤ × ℤ × ℤ :=
  (normalizeMachineSerial host ev.serial, ev.windowFrom, ev.windowTo, ev.units)

section writing
variable {people : List HumanRefill} {old : List RefillEventRow} {wr : Writing} {events : List RefillEvent}

/-- An event writes itself down where its window is free, and its window is taken after it. -/
theorem writeEvent_written (people : List HumanRefill) (ev : RefillEvent) (hold : ∀ r ∈ old, written r ∈ wr.journal.map written)
    (hcanon : ∀ r ∈ old, normalizeMachineSerial env.host r.machineSerial = r.machineSerial) :
    ((writeEvent env people old wr ev).journal.map written = wr.journal.map written ∨
        (writeEvent env people old wr ev).journal.map written = wr.journal.map written ++ [toWrite env.host ev]) ∧
      ∃ e ∈ (writeEvent env people old wr ev).journal.map written,
        (e.1, e.2.2.1) = eventKey env.host ev.serial ev.windowTo := by
  unfold writeEvent
  rcases hfind : findWindow env.host old ev with _ | was
  · dsimp only
    have hrow : ∀ human, written (newRow env wr.journal ev human) = toWrite env.host ev := fun _ => rfl
    split_ifs with hconflict
    · obtain ⟨r, hr, heq⟩ := List.any_eq_true.mp hconflict
      simp only [Bool.and_eq_true, decide_eq_true_eq] at heq
      exact ⟨.inl rfl, written r, List.mem_map_of_mem hr, Prod.ext heq.1 heq.2⟩
    · rcases freeMatch env.host people wr.taken ev with _ | human
      · refine ⟨.inr ?_, toWrite env.host ev, ?_, rfl⟩
        · rw [List.map_append, List.map_singleton, hrow]
        · rw [List.map_append, List.map_singleton, hrow]
          exact List.mem_append_right _ (List.mem_singleton_self _)
      · refine ⟨.inr ?_, toWrite env.host ev, ?_, rfl⟩
        · rw [List.map_append, List.map_singleton, hrow]
        · rw [List.map_append, List.map_singleton, hrow]
          exact List.mem_append_right _ (List.mem_singleton_self _)
  · have hwas : was ∈ old := List.mem_reverse.mp (List.mem_of_find?_eq_some hfind)
    have hfound := List.find?_some hfind
    have hkey := of_decide_eq_true hfound
    have htaken : ((written was).1, (written was).2.2.1) = eventKey env.host ev.serial ev.windowTo := by
      rw [← hkey, eventKey, hcanon was hwas]
      rfl
    dsimp only
    split
    · have hsame : ∀ id, (setMatch wr.journal was.id id).map written = wr.journal.map written :=
        map_setMatch written (fun _ _ => rfl) was.id
      rw [hsame]
      exact ⟨.inl rfl, _, hold was hwas, htaken⟩
    · exact ⟨.inl rfl, _, hold was hwas, htaken⟩

/-- The journal after the events: what was there, then windows of the events, and a row for each of them. -/
theorem writeEvents_written (hold : ∀ r ∈ old, written r ∈ wr.journal.map written)
    (hcanon : ∀ r ∈ old, normalizeMachineSerial env.host r.machineSerial = r.machineSerial) :
    (∀ e ∈ wr.journal.map written, e ∈ (events.foldl (writeEvent env people old) wr).journal.map written) ∧
      (∀ e ∈ (events.foldl (writeEvent env people old) wr).journal.map written,
        e ∈ wr.journal.map written ∨ ∃ ev ∈ events, e = toWrite env.host ev) ∧
      ∀ ev ∈ events, ∃ e ∈ (events.foldl (writeEvent env people old) wr).journal.map written,
        (e.1, e.2.2.1) = eventKey env.host ev.serial ev.windowTo := by
  induction events generalizing wr with
  | nil => exact ⟨fun _ h => h, fun _ h => .inl h, List.forall_mem_nil _⟩
  | cons ev events ih =>
    obtain ⟨hstep, e, he, hkey⟩ := writeEvent_written people ev hold hcanon
    have hgrows : ∀ e ∈ wr.journal.map written, e ∈ (writeEvent env people old wr ev).journal.map written := by
      intro e he
      rcases hstep with heq | heq
      · rw [heq]
        exact he
      · rw [heq]
        exact List.mem_append_left _ he
    have hfrom : ∀ e ∈ (writeEvent env people old wr ev).journal.map written,
        e ∈ wr.journal.map written ∨ e = toWrite env.host ev := by
      intro e he
      rcases hstep with heq | heq
      · exact .inl (heq ▸ he)
      · rw [heq, List.mem_append, List.mem_singleton] at he
        exact he
    obtain ⟨hkept, hsource, htaken⟩ := ih fun r hr => hgrows _ (hold r hr)
    rw [List.foldl_cons]
    refine ⟨fun e he => hkept e (hgrows e he), fun e he => ?_, fun ev' hev' => ?_⟩
    · rcases hsource e he with he | ⟨ev', hev', rfl⟩
      · exact (hfrom e he).imp_right fun heq => ⟨ev, List.mem_cons_self, heq⟩
      · exact .inr ⟨ev', List.mem_cons_of_mem _ hev', rfl⟩
    · rcases List.mem_cons.mp hev' with rfl | hev'
      · exact ⟨e, hkept e he, hkey⟩
      · exact htaken ev' hev'

end writing

/-! Runs. -/

variable {db db' : FieldDb}

/-- The windows of the machine in the journal, with their units. -/
def Watch.journalled (w : Watch) (journal : List RefillEventRow) : List (ℤ × ℤ × ℤ) :=
  (journal.filter fun r => r.machineSerial = w.serial).map fun r => (r.windowFrom, r.windowTo, r.units)

def windowOf (ev : RefillEvent) : ℤ × ℤ × ℤ := (ev.windowFrom, ev.windowTo, ev.units)

/-- A snapshot of the machine has a moment of its own, and a run of the detector covers its history. -/
def FieldAction.Fits (w : Watch) (db : FieldDb) : FieldAction → Prop
  | .ingest env payload => ∀ r ∈ w.rows (payloadRows (env, payload)), ∀ r' ∈ w.rows db.mirror.snapshots,
      r'.capturedAt ≠ r.capturedAt
  | .refill _ => True
  | .detect env days => w.Covered env days db.mirror.snapshots

/-- No snapshot of the machine comes between the ends of a window in the journal. -/
def FieldAction.SplitsNone (w : Watch) (db : FieldDb) : FieldAction → Prop
  | .ingest env payload => ∀ r ∈ w.rows (payloadRows (env, payload)), ∀ e ∈ w.journalled db.journal,
      ¬ (e.1 < r.capturedAt ∧ r.capturedAt < e.2.1)
  | _ => True

def HistoryNext (w : Watch) (db : FieldDb) (a : FieldAction) (db' : FieldDb) : Prop := a.Fits w db ∧ db' = db.step a

/-- The journal of the machine is made of refills of its history. -/
structure OfHistory (w : Watch) (db : FieldDb) : Prop where
  sound : JournalSound w.host db.journal
  refills : ∀ e ∈ w.journalled db.journal, ∃ ev ∈ w.refills db.mirror.snapshots, windowOf ev = e

theorem mem_journalled {journal : List RefillEventRow} {e : ℤ × ℤ × ℤ} :
    e ∈ w.journalled journal ↔ (w.serial, e) ∈ journal.map written := by
  simp only [Watch.journalled, List.mem_map, List.mem_filter, decide_eq_true_eq, written, Prod.mk.injEq]
  exact exists_congr fun r => and_assoc

theorem journalled_nodup {journal : List RefillEventRow} (hs : JournalSound w.host journal) :
    ((w.journalled journal).map fun e => e.2.1).Nodup := by
  have hkeys : ((journal.filter fun r => r.machineSerial = w.serial).map rowKey).Nodup :=
    hs.keys.sublist (List.filter_sublist.map _)
  have hmap : (journal.filter fun r => r.machineSerial = w.serial).map rowKey =
      ((w.journalled journal).map fun e => e.2.1).map fun t => (w.serial, t) := by
    rw [Watch.journalled, List.map_map, List.map_map]
    refine List.map_congr_left fun r hr => ?_
    have hserial := of_decide_eq_true (List.mem_filter.mp hr).2
    exact Prod.ext hserial rfl
  rw [hmap] at hkeys
  exact hkeys.of_map _

theorem windows_disjoint_of_history (h : OfHistory w db) :
    (w.journalled db.journal).Pairwise fun e e' => Disjoint (Set.Ioc e.1 e.2.1) (Set.Ioc e'.1 e'.2.1) := by
  have hnd := journalled_nodup h.sound
  rw [List.Nodup, List.pairwise_map] at hnd
  refine hnd.imp_of_mem fun {e e'} he he' hne => ?_
  obtain ⟨ev, hev, rfl⟩ := h.refills e he
  obtain ⟨ev', hev', rfl⟩ := h.refills e' he'
  exact windows_disjoint (sortedMoments_pairwise _) (window_of_refill hev) (window_of_refill hev') hne

/-- What a covering run writes of the machine: refills of its history, and each of them where it is read. -/
theorem detect_ofHistory (hstable : CanonStable w.host) (h : OfHistory w db)
    (hcovered : w.Covered env days db.mirror.snapshots) :
    OfHistory w (detect env db days).2 ∧ (w.Reads env db.mirror.snapshots →
      (w.journalled (detect env db days).2.journal).Perm ((w.refills db.mirror.snapshots).map windowOf)) := by
  rw [← hcovered.host] at hstable
  have hsound : JournalSound env.host db.journal := hcovered.host ▸ h.sound
  obtain ⟨hscan, hread⟩ := scan_covered hstable hcovered
  have hold : ∀ r ∈ journalSince (windowStart env days) db.journal, r ∈ db.journal := fun r hr => List.mem_of_mem_filter hr
  obtain ⟨_, hsource, htaken⟩ := @writeEvents_written env (peopleSince env.host (windowStart env days) db.refills)
    (journalSince (windowStart env days) db.journal)
    ⟨db.journal, (journalSince (windowStart env days) db.journal).filterMap (·.matchedRefillId), 0, 0⟩
    (detected env db days) (fun r hr => List.mem_map_of_mem (hold r hr)) fun r hr => hsound.canonical r (hold r hr)
  have hafter : OfHistory w (detect env db days).2 := by
    refine ⟨hcovered.host ▸ (record_spec hstable hsound days).1, fun e he => ?_⟩
    rcases hsource _ (mem_journalled.mp he) with he | ⟨ev, hev, heq⟩
    · exact h.refills e (mem_journalled.mpr he)
    · obtain ⟨hserial, rfl⟩ := Prod.mk.inj heq
      exact ⟨ev, hscan ev hev hserial.symm, rfl⟩
  refine ⟨hafter, fun hreads => ?_⟩
  have hnd : ((w.refills db.mirror.snapshots).map windowOf).Nodup := by
    refine List.Nodup.of_map (fun e => e.2.1) ?_
    rw [List.map_map]
    exact refills_nodup
  refine (List.perm_ext_iff_of_nodup ((journalled_nodup hafter.sound).of_map _) hnd).mpr fun e => ?_
  constructor
  · intro he
    obtain ⟨ev, hev, rfl⟩ := hafter.refills e he
    exact List.mem_map_of_mem hev
  · intro he
    obtain ⟨ev, hev, rfl⟩ := List.mem_map.mp he
    have hdetected := hread hreads ev hev
    obtain ⟨⟨serial, e⟩, he, hkey⟩ := htaken ev hdetected
    have hcanon := ((scan_events hstable).1 ev hdetected).1
    have hof : ev.serial = w.serial := by
      obtain ⟨_, _, _, hwindow⟩ := mem_refills_iff.mp hev
      exact (windowEvent_fields hwindow).1
    obtain ⟨hserial, hto⟩ := Prod.mk.inj hkey
    rw [hcanon, hof] at hserial
    subst hserial
    have hrow := mem_journalled.mpr he
    obtain ⟨ev', hev', heq⟩ := hafter.refills e hrow
    have hsame : ev' = ev := eq_of_windowTo hev' hev ((congrArg (fun e => e.2.1) heq).trans hto)
    rw [← hsame, heq]
    exact hrow

theorem historyNext_ofHistory (hstable : CanonStable w.host) (h : OfHistory w db) {a : FieldAction}
    (hnext : HistoryNext w db a db') (hsplit : a.SplitsNone w db) : OfHistory w db' := by
  obtain ⟨hfits, rfl⟩ := hnext
  rcases a with ⟨env, payload⟩ | row | ⟨env, days⟩
  · refine ⟨h.sound, fun e he => ?_⟩
    obtain ⟨ev, hev, rfl⟩ := h.refills e he
    refine ⟨ev, ?_, rfl⟩
    have hrows : (db.step (.ingest env payload)).mirror.snapshots = db.mirror.snapshots ++ payloadRows (env, payload) :=
      snapshots_ingestSlots db.mirror (env, payload)
    rw [hrows]
    exact refill_append hev hfits fun r hr => hsplit r hr _ he
  · exact ⟨h.sound, h.refills⟩
  · exact (detect_ofHistory hstable h hfits).1

/-- No two windows of the machine in the journal meet. -/
def Watch.Apart (w : Watch) (journal : List RefillEventRow) : Prop :=
  (w.journalled journal).Pairwise fun e e' => Disjoint (Set.Ioc e.1 e.2.1) (Set.Ioc e'.1 e'.2.1)

/-- The journal of the machine holds the refills of its history, with their units. -/
def Watch.Complete (w : Watch) (journal : List RefillEventRow) (all : List SlotSnapshotRow) : Prop :=
  (w.journalled journal).Perm ((w.refills all).map windowOf)

/-- From an empty journal, while no snapshot splits a window in the journal: the windows of the machine do not
meet, and a covering run that reads the machine leaves the refills of the whole history in the journal. -/
theorem journal_of_history {steps : List (Step FieldDb FieldAction)} (hstable : CanonStable w.host)
    (hjournal : db.journal = []) (hrun : Run (HistoryNext w) db steps db')
    (hsplit : ∀ e ∈ steps, e.action.SplitsNone w e.before) :
    w.Apart db'.journal ∧ ∀ env days, w.Covered env days db'.mirror.snapshots → w.Reads env db'.mirror.snapshots →
      w.Complete (detect env db' days).2.journal db'.mirror.snapshots := by
  have hstart : OfHistory w db := by
    refine ⟨?_, ?_⟩
    · rw [hjournal]
      exact ⟨rfl, List.forall_mem_nil _, List.nodup_nil⟩
    · rw [hjournal]
      exact List.forall_mem_nil _
  have hend : OfHistory w db' :=
    Run.invariant_of (fun _ _ _ h hnext hsplit => historyNext_ofHistory hstable h hnext hsplit) hrun hstart hsplit
  exact ⟨windows_disjoint_of_history hend, fun env days hcovered => (detect_ofHistory hstable hend hcovered).2⟩

/-! The machine `m` again. -/

def fieldWatch : Watch := ⟨fieldHost, "m", (Catalog.mk [] []).resolveProduct fieldHost, 1⟩

theorem run_history (db : FieldDb) (actions : List FieldAction)
    (hfits : ∀ e ∈ (runActions FieldDb.step db actions).1, e.action.Fits fieldWatch e.before) :
    Run (HistoryNext fieldWatch) db (runActions FieldDb.step db actions).1 (runActions FieldDb.step db actions).2 :=
  (run_runActions FieldDb.step db actions).strengthen fun e he hstep => ⟨hfits e he, hstep⟩

theorem fits_coilAt {db : FieldDb} {at_ quantity : ℤ}
    (h : ∀ r ∈ fieldWatch.rows db.mirror.snapshots, r.capturedAt ≠ at_) : (coilAt at_ quantity).Fits fieldWatch db := by
  intro r hr r' hr'
  have hat : r.capturedAt = at_ := by
    have hrows : payloadRows (⟨fieldHost, ⟨[], []⟩, [], at_⟩, ⟨some at_, [⟨"m", [⟨"A", "m", 10, quantity⟩]⟩]⟩) =
        [⟨"m", "A", productOf ⟨"A", "m", 10, quantity⟩, 10, quantity, at_⟩] := rfl
    rw [mem_watch_rows, hrows, List.mem_singleton] at hr
    rw [hr.1]
  rw [hat]
  exact h r' hr'

/-- The later snapshot comes first, and the run reads both. -/
def outOfOrder : List FieldAction := [coilAt (6 * hour) 9, coilAt 0 1, detectAt (6 * hour), coilAt (9 * hour) 9]

/-- A snapshot of three o'clock comes after the window from midnight to six was written down. -/
def splitWindow : List FieldAction :=
  [coilAt 0 1, coilAt (6 * hour) 9, detectAt (6 * hour), coilAt (3 * hour) 5, detectAt (6 * hour)]

theorem covered_detectAt {db : FieldDb} {now : ℤ}
    (h : ∀ r ∈ fieldWatch.rows db.mirror.snapshots, now - 24 * hour ≤ r.capturedAt) :
    (detectAt now).Fits fieldWatch db := ⟨rfl, by simp only [fieldWatch], rfl, h⟩

theorem fits_outOfOrder : ∀ e ∈ (runActions FieldDb.step emptyField outOfOrder).1, e.action.Fits fieldWatch e.before := by
  simp only [outOfOrder, runActions, List.forall_mem_cons]
  refine ⟨fits_coilAt ?_, fits_coilAt ?_, covered_detectAt ?_, fits_coilAt ?_, List.forall_mem_nil _⟩ <;>
    decide +kernel

theorem fits_splitWindow :
    ∀ e ∈ (runActions FieldDb.step emptyField splitWindow).1, e.action.Fits fieldWatch e.before := by
  simp only [splitWindow, runActions, List.forall_mem_cons]
  refine ⟨fits_coilAt ?_, fits_coilAt ?_, covered_detectAt ?_, fits_coilAt ?_, covered_detectAt ?_,
    List.forall_mem_nil _⟩ <;> decide +kernel

theorem journal_of_history_outOfOrder :
    fieldWatch.Apart (runActions FieldDb.step emptyField outOfOrder).2.journal ∧
      ∀ env days, fieldWatch.Covered env days (runActions FieldDb.step emptyField outOfOrder).2.mirror.snapshots →
        fieldWatch.Reads env (runActions FieldDb.step emptyField outOfOrder).2.mirror.snapshots →
        fieldWatch.Complete (detect env (runActions FieldDb.step emptyField outOfOrder).2 days).2.journal
          (runActions FieldDb.step emptyField outOfOrder).2.mirror.snapshots := by
  refine journal_of_history canonStable_fieldHost rfl (run_history emptyField outOfOrder fits_outOfOrder) ?_
  simp only [outOfOrder, runActions, List.forall_mem_cons, detectAt, coilAt, FieldAction.SplitsNone, true_and]
  refine ⟨?_, ?_, ?_, List.forall_mem_nil _⟩ <;> decide +kernel

/-- The window that was written down stays over the one that ends at three; and a machine that stands in the
store has its refill in the history and not in the journal. -/
theorem journal_not_of_history :
    (∃ steps db', Run (HistoryNext fieldWatch) emptyField steps db' ∧ ¬ fieldWatch.Apart db'.journal) ∧
      ∃ steps db' env days, Run (HistoryNext fieldWatch) emptyField steps db' ∧
        fieldWatch.Covered env days db'.mirror.snapshots ∧
        ¬ fieldWatch.Complete (detect env db' days).2.journal db'.mirror.snapshots := by
  constructor
  · refine ⟨_, _, run_history emptyField splitWindow fits_splitWindow, fun hapart => ?_⟩
    have hjournal : fieldWatch.journalled (runActions FieldDb.step emptyField splitWindow).2.journal =
        [(0, 6 * hour, 8), (0, 3 * hour, 4)] := by decide +kernel
    rw [Watch.Apart, hjournal, List.pairwise_pair, Set.disjoint_left] at hapart
    exact hapart (show 3 * hour ∈ Set.Ioc 0 (6 * hour) by decide) (by decide)
  · refine ⟨_, _, ⟨fieldHost, ⟨[], []⟩, [⟨"id", "m", some "m"⟩], [("id", "storage")], 1, 6 * hour, 6 * hour⟩, some 1,
      run_history emptyField [coilAt 0 1, coilAt (6 * hour) 9] ?_, ⟨rfl, rfl, rfl, ?_⟩, fun hcomplete => ?_⟩
    · simp only [runActions, List.forall_mem_cons]
      refine ⟨fits_coilAt ?_, fits_coilAt ?_, List.forall_mem_nil _⟩ <;> decide +kernel
    · decide +kernel
    · have hlength := hcomplete.length_eq
      revert hlength
      decide +kernel

end Mydon.Vending
