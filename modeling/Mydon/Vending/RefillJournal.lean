import Mydon.Vending.RefillEvents

/-! What holds of the journal and of the feed over runs of the detector. -/

namespace Mydon.Vending

open Mydon.Lib

/-- A canonical serial is its own canon. -/
def CanonStable (host : Js.Host) : Prop :=
  ∀ s, normalizeMachineSerial host (normalizeMachineSerial host s) = normalizeMachineSerial host s

variable {host : Js.Host} {env : DetectEnv} {since : ℤ} {rows : List SlotSnapshotRow} {ev : RefillEvent}
  {db db' : FieldDb}

/-! The events of a scan. -/

/-- The events of one machine are windows of its moments, none of them ended twice. -/
theorem detectRefills_windows {nameOf : String → String} {canon : String} {forms : List String} {minUnits : ℤ}
    {events : List RefillEvent}
    (h : events = detectRefills (machineSnapshots nameOf since rows canon forms) minUnits) :
    (∀ ev ∈ events, ev.serial = canon ∧ since ≤ ev.windowFrom ∧ ev.windowFrom ≤ ev.windowTo) ∧
      (events.map (·.windowTo)).Nodup := by
  rw [machineSnapshots, detectRefills_byMoment] at h
  have hsorted := sortedMoments_pairwise (forms.flatMap (rowsOfForm since rows))
  subst h
  constructor
  · intro ev hev
    obtain ⟨w, hw, hwindow⟩ := List.mem_filterMap.mp hev
    obtain ⟨hserial, hfrom, hto⟩ := windowEvent_fields hwindow
    refine ⟨hserial, ?_, ?_⟩
    · rw [hfrom]
      have hmoment : w.1 ∈ sortedMoments (forms.flatMap (rowsOfForm since rows)) := (List.of_mem_zip hw).1
      unfold sortedMoments moments at hmoment
      rw [List.mem_insertionSort, mem_keySet] at hmoment
      obtain ⟨r, hr, hat⟩ := List.mem_map.mp hmoment
      obtain ⟨form, _, hform⟩ := List.mem_flatMap.mp hr
      have hsince := (List.mem_filter.mp (List.mem_filter.mp hform).1).2
      rw [snapshotAt, ← hat]
      exact of_decide_eq_true hsince
    · rw [hfrom, hto]
      exact (lt_of_window hsorted hw).le
  · have hends : ((windows (sortedMoments (forms.flatMap (rowsOfForm since rows)))).map Prod.snd).Nodup := by
      rw [windows, List.map_snd_zip (by simp)]
      exact (hsorted.imp ne_of_lt).sublist (List.tail_sublist _)
    refine hends.sublist (map_filterMap_sublist (fun w ev hev => ?_) _)
    exact (windowEvent_fields hev).2.2

theorem scanMachine_events {canon : String} {forms : List String} :
    (∀ ev ∈ (scanMachine env since rows canon forms).events,
        ev.serial = canon ∧ since ≤ ev.windowFrom ∧ ev.windowFrom ≤ ev.windowTo) ∧
      ((scanMachine env since rows canon forms).events.map (·.windowTo)).Nodup := by
  unfold scanMachine
  split_ifs
  · exact ⟨List.forall_mem_nil _, List.nodup_nil⟩
  · split
    · exact ⟨List.forall_mem_nil _, List.nodup_nil⟩
    · next first rest hsnapshots =>
      split
      · exact ⟨List.forall_mem_nil _, List.nodup_nil⟩
      · rw [← hsnapshots]
        exact detectRefills_windows rfl

theorem keys_canonForms : OrderedMap.keys (canonForms host since rows) =
    OrderedMap.keySet ((OrderedMap.keySet ((rowsSince since rows).map SlotSnapshotRow.machineSerial)).map
      (normalizeMachineSerial host)) := by
  unfold canonForms group
  exact keys_tally _

/-- The detected windows start in the scanned time, under canonical serials, and no two are one window. -/
theorem scan_events (hstable : CanonStable env.host) :
    (∀ ev ∈ (scan env since rows).events,
        normalizeMachineSerial env.host ev.serial = ev.serial ∧ since ≤ ev.windowFrom ∧
          ev.windowFrom ≤ ev.windowTo) ∧
      ((scan env since rows).events.map fun ev => eventKey env.host ev.serial ev.windowTo).Nodup := by
  have hevents : (scan env since rows).events =
      (canonForms env.host since rows).flatMap fun e => (scanMachine env since rows e.1 e.2).events := by
    unfold scan
    dsimp only
    rw [List.flatMap_map]
  have hcanon : ∀ e ∈ canonForms env.host since rows, normalizeMachineSerial env.host e.1 = e.1 := by
    intro e he
    have hkey : e.1 ∈ OrderedMap.keys (canonForms env.host since rows) := List.mem_map_of_mem he
    rw [keys_canonForms, mem_keySet] at hkey
    obtain ⟨form, _, hform⟩ := List.mem_map.mp hkey
    rw [← hform]
    exact hstable form
  rw [hevents]
  constructor
  · intro ev hev
    obtain ⟨e, he, hev⟩ := List.mem_flatMap.mp hev
    obtain ⟨hserial, hfrom, hto⟩ := scanMachine_events.1 ev hev
    exact ⟨by rw [hserial, hcanon e he], hfrom, hto⟩
  · rw [List.map_flatMap, List.nodup_flatMap]
    constructor
    · intro e he
      refine List.Nodup.of_map Prod.snd ?_
      rw [List.map_map]
      exact scanMachine_events.2
    · have hnd : (OrderedMap.keys (canonForms env.host since rows)).Nodup := by
        rw [keys_canonForms]
        exact nodup_keySet _
      rw [OrderedMap.keys, List.Nodup, List.pairwise_map] at hnd
      refine hnd.imp_of_mem fun {e e'} he he' hne => ?_
      intro key hkey hkey'
      obtain ⟨ev, hev, rfl⟩ := List.mem_map.mp hkey
      obtain ⟨ev', hev', heq⟩ := List.mem_map.mp hkey'
      refine hne ?_
      have hserials := congrArg Prod.fst heq
      simp only [eventKey, (scanMachine_events.1 ev hev).1, (scanMachine_events.1 ev' hev').1, hcanon e he,
        hcanon e' he'] at hserials
      exact hserials.symm

/-! One event. -/

section journal
variable {people : List HumanRefill} {old journal : List RefillEventRow} {w : Writing} {r : RefillEventRow}

def rowKey (r : RefillEventRow) : String × ℤ := (r.machineSerial, r.windowTo)

/-- The rows are numbered, under canonical serials, and no two are of one window. -/
structure JournalSound (host : Js.Host) (journal : List RefillEventRow) : Prop where
  ids : journal.map (·.id) = List.range journal.length
  canonical : ∀ r ∈ journal, normalizeMachineSerial host r.machineSerial = r.machineSerial
  keys : (journal.map rowKey).Nodup

/-- The row of a window. -/
def rowOf (journal : List RefillEventRow) (ev : RefillEvent) : Option RefillEventRow :=
  Table.lookup rowKey journal (ev.serial, ev.windowTo)

theorem JournalSound.ids_nodup (h : JournalSound host journal) : (journal.map (·.id)).Nodup := by
  rw [h.ids]
  exact List.nodup_range

theorem JournalSound.eq_of_id (h : JournalSound host journal) {r r' : RefillEventRow} (hr : r ∈ journal)
    (hr' : r' ∈ journal) (hid : r.id = r'.id) : r = r' := List.inj_on_of_nodup_map h.ids_nodup hr hr' hid

theorem JournalSound.rowOf_eq_some_iff (h : JournalSound host journal) :
    rowOf journal ev = some r ↔ r ∈ journal ∧ rowKey r = (ev.serial, ev.windowTo) := Table.lookup_eq_some_iff h.keys

theorem rowOf_eq_none_iff : rowOf journal ev = none ↔ ∀ r ∈ journal, rowKey r ≠ (ev.serial, ev.windowTo) :=
  Table.lookup_eq_none_iff

/-- Among the rows that a run reads, a window of the scanned time is found as in the whole journal. -/
theorem JournalSound.findWindow_eq (h : JournalSound host journal)
    (hcanon : normalizeMachineSerial host ev.serial = ev.serial) (hto : since ≤ ev.windowTo) :
    findWindow host (journalSince since journal) ev = rowOf journal ev := by
  have hkey : ∀ r ∈ journal, (eventKey host r.machineSerial r.windowTo = eventKey host ev.serial ev.windowTo ↔
      rowKey r = (ev.serial, ev.windowTo)) := by
    intro r hr
    rw [eventKey, eventKey, rowKey, h.canonical r hr, hcanon]
  have hsub : ∀ r, r ∈ (journalSince since journal).reverse → r ∈ journal := fun r hr =>
    (List.mem_filter.mp (List.mem_reverse.mp hr)).1
  rcases hrow : rowOf journal ev with _ | r
  · refine List.find?_eq_none.mpr fun r hr heq => ?_
    exact rowOf_eq_none_iff.mp hrow r (hsub r hr) ((hkey r (hsub r hr)).mp (of_decide_eq_true heq))
  · obtain ⟨hr, hk⟩ := h.rowOf_eq_some_iff.mp hrow
    have hin : r ∈ (journalSince since journal).reverse := by
      refine List.mem_reverse.mpr (List.mem_filter.mpr ⟨hr, decide_eq_true ?_⟩)
      have hwindow : r.windowTo = ev.windowTo := congrArg Prod.snd hk
      have hpad : 0 ≤ MATCH_PAD_MS := by decide
      omega
    rcases hfound : findWindow host (journalSince since journal) ev with _ | r'
    · exact absurd (decide_eq_true ((hkey r hr).mpr hk)) (List.find?_eq_none.mp hfound r hin)
    · have hr' := hsub r' (List.mem_of_find?_eq_some hfound)
      have hat := List.find?_some hfound
      have hk' := (hkey r' hr').mp (of_decide_eq_true hat)
      rw [← hrow, h.rowOf_eq_some_iff.mpr ⟨hr', hk'⟩]

theorem of_freeMatch {taken : List String} {h : HumanRefill} (hm : freeMatch host people taken ev = some h) :
    h ∈ people ∧ h.id ∉ taken ∧ h.serial = normalizeMachineSerial host ev.serial ∧
      ev.windowFrom - MATCH_PAD_MS ≤ h.performedAt ∧ h.performedAt ≤ ev.windowTo + MATCH_PAD_MS := by
  unfold freeMatch matchRefill at hm
  have hmem := List.mem_of_mem_head? hm
  rw [List.mem_insertionSort, List.mem_filter, List.mem_filter] at hmem
  simp only [Bool.and_eq_true, decide_eq_true_eq] at hmem
  exact ⟨hmem.1.1, hmem.1.2, hmem.2.1.1, hmem.2.1.2, hmem.2.2⟩

/-- What the writing of one event does to the journal, where the rows read show its window as it is. -/
inductive Wrote (env : DetectEnv) (people : List HumanRefill) (w : Writing) (ev : RefillEvent) : Writing → Prop
  | same : Wrote env people w ev w
  | matched (was : RefillEventRow) (h : HumanRefill) (n m : ℕ) (hwas : rowOf w.journal ev = some was)
    (hnone : was.matchedRefillId = none) (hfree : freeMatch env.host people w.taken ev = some h) :
    Wrote env people w ev ⟨setMatch w.journal was.id h.id, w.taken ++ [h.id], n, m⟩
  | added (human : Option HumanRefill) (n m : ℕ) (hnew : rowOf w.journal ev = none)
    (hfree : freeMatch env.host people w.taken ev = human) :
    Wrote env people w ev ⟨w.journal ++ [newRow env w.journal ev human], w.taken ++ (human.map (·.id)).toList, n, m⟩

theorem writeEvent_wrote (hcurrent : findWindow env.host old ev = rowOf w.journal ev) :
    Wrote env people w ev (writeEvent env people old w ev) := by
  unfold writeEvent
  rw [hcurrent]
  rcases hrow : rowOf w.journal ev with _ | was
  · dsimp only
    split_ifs
    · exact .same
    · rcases hfree : freeMatch env.host people w.taken ev with _ | h
      · have hadded : Wrote env people w ev ⟨w.journal ++ [newRow env w.journal ev none], w.taken ++ [],
            w.written + 1, w.matched⟩ := .added none _ _ hrow hfree
        rwa [List.append_nil] at hadded
      · exact .added (some h) _ _ hrow hfree
  · dsimp only
    rcases hmatched : was.matchedRefillId with _ | id
    · rcases hfree : freeMatch env.host people w.taken ev with _ | h
      · exact .same
      · exact .matched was h _ _ hrow hmatched hfree
    · exact .same

/-! What an event keeps. -/

variable {w' : Writing}

/-- Rows stay, with their windows, and with their matches. -/
def Kept (journal journal' : List RefillEventRow) : Prop :=
  ∀ r ∈ journal, ∃ r' ∈ journal', r'.id = r.id ∧ r'.windowTo = r.windowTo ∧
    ∀ id, r.matchedRefillId = some id → r'.matchedRefillId = some id

theorem Kept.refl (journal : List RefillEventRow) : Kept journal journal := fun r hr => ⟨r, hr, rfl, rfl, fun _ h => h⟩

theorem Kept.trans {journal' journal'' : List RefillEventRow} (h : Kept journal journal') (h' : Kept journal' journal'') :
    Kept journal journal'' := by
  intro r hr
  obtain ⟨r', hr', hid, hto, hmatch⟩ := h r hr
  obtain ⟨r'', hr'', hid', hto', hmatch'⟩ := h' r' hr'
  exact ⟨r'', hr'', hid'.trans hid, hto'.trans hto, fun id h => hmatch' id (hmatch id h)⟩

theorem map_setMatch {β : Type*} (f : RefillEventRow → β)
    (hf : ∀ r refillId, f { r with matchedRefillId := refillId } = f r) (id : ℕ) (refillId : String) :
    (setMatch journal id refillId).map f = journal.map f := by
  unfold setMatch
  rw [List.map_map]
  refine List.map_congr_left fun r _ => ?_
  simp only [Function.comp_apply]
  split_ifs
  · exact hf r _
  · rfl

/-- A row that got a match is the row of that id; the others stay. -/
theorem mem_setMatch {id : ℕ} {refillId : String} (h : r ∈ setMatch journal id refillId) :
    ∃ r₀ ∈ journal, r₀.id = r.id ∧ rowKey r₀ = rowKey r ∧
      ((r₀.id = id ∧ r.matchedRefillId = some refillId) ∨ (r₀.id ≠ id ∧ r = r₀)) := by
  obtain ⟨r₀, hr₀, rfl⟩ := List.mem_map.mp h
  refine ⟨r₀, hr₀, ?_⟩
  split_ifs with hid
  · exact ⟨rfl, rfl, .inl ⟨hid, rfl⟩⟩
  · exact ⟨rfl, rfl, .inr ⟨hid, rfl⟩⟩

theorem rowKey_newRow (human : Option HumanRefill) (hcanon : normalizeMachineSerial env.host ev.serial = ev.serial) :
    rowKey (newRow env journal ev human) = (ev.serial, ev.windowTo) := by
  simp only [rowKey, newRow, hcanon]

theorem Wrote.sound (h : Wrote env people w ev w') (hs : JournalSound env.host w.journal)
    (hcanon : normalizeMachineSerial env.host ev.serial = ev.serial) : JournalSound env.host w'.journal := by
  rcases h with _ | ⟨was, human, _, _, hwas, _, _⟩ | ⟨human, _, _, hnew, _⟩
  · exact hs
  · refine ⟨?_, fun r hr => ?_, ?_⟩
    · rw [map_setMatch _ fun _ _ => rfl, hs.ids, setMatch, List.length_map]
    · obtain ⟨r₀, hr₀, _, hkey, _⟩ := mem_setMatch hr
      have hserial : r₀.machineSerial = r.machineSerial := congrArg Prod.fst hkey
      rw [← hserial]
      exact hs.canonical r₀ hr₀
    · rw [map_setMatch _ fun _ _ => rfl]
      exact hs.keys
  · refine ⟨?_, fun r hr => ?_, ?_⟩
    · rw [List.map_append, hs.ids, List.length_append, List.length_singleton, List.range_succ]
      rfl
    · rcases List.mem_append.mp hr with hr | hr
      · exact hs.canonical r hr
      · rw [List.mem_singleton.mp hr]
        simp only [newRow, hcanon]
    · rw [List.map_append, List.map_singleton, rowKey_newRow human hcanon]
      refine hs.keys.append (List.nodup_singleton _) ?_
      rw [List.disjoint_singleton]
      intro hmem
      obtain ⟨r, hr, hkey⟩ := List.mem_map.mp hmem
      exact rowOf_eq_none_iff.mp hnew r hr hkey

theorem Wrote.kept (h : Wrote env people w ev w') (hs : JournalSound env.host w.journal) :
    Kept w.journal w'.journal := by
  rcases h with _ | ⟨was, human, _, _, hwas, hnone, _⟩ | ⟨human, _, _, _, _⟩
  · exact .refl _
  · intro r hr
    refine ⟨_, List.mem_map_of_mem hr, ?_⟩
    split_ifs with hid
    · refine ⟨rfl, rfl, fun id hmatch => ?_⟩
      rw [hs.eq_of_id hr (hs.rowOf_eq_some_iff.mp hwas).1 hid, hnone] at hmatch
      cases hmatch
    · exact ⟨rfl, rfl, fun _ h => h⟩
  · exact fun r hr => ⟨r, List.mem_append_left _ hr, rfl, rfl, fun _ h => h⟩

/-- Rows of other windows are as they were. -/
theorem Wrote.mem_of_ne (h : Wrote env people w ev w') (hs : JournalSound env.host w.journal)
    (hcanon : normalizeMachineSerial env.host ev.serial = ev.serial) (hne : rowKey r ≠ (ev.serial, ev.windowTo)) :
    r ∈ w'.journal ↔ r ∈ w.journal := by
  rcases h with _ | ⟨was, human, _, _, hwas, _, _⟩ | ⟨human, _, _, _, _⟩
  · exact Iff.rfl
  · obtain ⟨hmem, hkey⟩ := hs.rowOf_eq_some_iff.mp hwas
    constructor
    · intro hr
      obtain ⟨r₀, hr₀, _, hkey₀, ⟨hid, _⟩ | ⟨_, rfl⟩⟩ := mem_setMatch hr
      · rw [hs.eq_of_id hr₀ hmem hid, hkey] at hkey₀
        exact absurd hkey₀.symm hne
      · exact hr₀
    · intro hr
      refine List.mem_map.mpr ⟨r, hr, if_neg fun hid => hne ?_⟩
      rw [hs.eq_of_id hr hmem hid, hkey]
  · rw [List.mem_append, List.mem_singleton]
    refine ⟨fun hr => hr.elim id fun heq => ?_, .inl⟩
    rw [heq, rowKey_newRow human hcanon] at hne
    exact absurd rfl hne

theorem Wrote.rowOf_of_ne {ev' : RefillEvent} (h : Wrote env people w ev w') (hs : JournalSound env.host w.journal)
    (hcanon : normalizeMachineSerial env.host ev.serial = ev.serial)
    (hne : (ev'.serial, ev'.windowTo) ≠ (ev.serial, ev.windowTo)) : rowOf w'.journal ev' = rowOf w.journal ev' := by
  have hs' := h.sound hs hcanon
  have hiff : ∀ r, rowOf w'.journal ev' = some r ↔ rowOf w.journal ev' = some r := by
    intro r
    rw [hs.rowOf_eq_some_iff, hs'.rowOf_eq_some_iff]
    exact and_congr_left fun hkey => h.mem_of_ne hs hcanon (hkey ▸ hne)
  exact Option.ext hiff

/-- The records of the rows in reach count as taken. -/
def Covers (since : ℤ) (w : Writing) : Prop :=
  ∀ r ∈ w.journal, since - MATCH_PAD_MS ≤ r.windowTo → ∀ id, r.matchedRefillId = some id → id ∈ w.taken

theorem Wrote.covers (h : Wrote env people w ev w') (hc : Covers since w) : Covers since w' := by
  rcases h with _ | ⟨was, human, _, _, _, _, _⟩ | ⟨human, _, _, _, _⟩
  · exact hc
  · intro r hr hto id hmatch
    obtain ⟨r₀, hr₀, _, hkey, ⟨_, hset⟩ | ⟨_, rfl⟩⟩ := mem_setMatch hr
    · rw [hset] at hmatch
      obtain rfl := Option.some.inj hmatch
      exact List.mem_append_right _ (List.mem_singleton_self _)
    · exact List.mem_append_left _ (hc r hr₀ hto id hmatch)
  · intro r hr hto id hmatch
    rcases List.mem_append.mp hr with hr | hr
    · exact List.mem_append_left _ (hc r hr hto id hmatch)
    · rw [List.mem_singleton.mp hr] at hmatch
      refine List.mem_append_right _ (Option.mem_toList.mpr ?_)
      exact hmatch

/-- No record confirms two rows. -/
def SingleMatches (journal : List RefillEventRow) : Prop :=
  ∀ r ∈ journal, ∀ r' ∈ journal, ∀ id, r.matchedRefillId = some id → r'.matchedRefillId = some id → r = r'

theorem Wrote.singleMatches (h : Wrote env people w ev w') (hs : JournalSound env.host w.journal)
    (hsingle : SingleMatches w.journal)
    (hfresh : (∀ was, rowOf w.journal ev = some was → was.matchedRefillId = none) →
      ∀ human, freeMatch env.host people w.taken ev = some human → ∀ r ∈ w.journal, r.matchedRefillId ≠ some human.id) :
    SingleMatches w'.journal := by
  rcases h with _ | ⟨was, human, _, _, hwas, hnone, hfree⟩ | ⟨human, _, _, hnew, hfree⟩
  · exact hsingle
  · have hunused := hfresh (fun was' h => by rw [← Option.some.inj (hwas.symm.trans h)]; exact hnone) human hfree
    have hset : ∀ r ∈ setMatch w.journal was.id human.id, ∃ r₀ ∈ w.journal,
        (r₀.id = was.id ∧ r = { was with matchedRefillId := some human.id }) ∨ (r₀.id ≠ was.id ∧ r = r₀) := by
      intro r hr
      obtain ⟨r₀, hr₀, rfl⟩ := List.mem_map.mp hr
      refine ⟨r₀, hr₀, ?_⟩
      split_ifs with hid
      · rw [hs.eq_of_id hr₀ (hs.rowOf_eq_some_iff.mp hwas).1 hid]
        exact .inl ⟨rfl, rfl⟩
      · exact .inr ⟨hid, rfl⟩
    intro r hr r' hr' id hm hm'
    obtain ⟨r₀, hr₀, ⟨_, rfl⟩ | ⟨_, rfl⟩⟩ := hset r hr <;> obtain ⟨r₁, hr₁, ⟨_, rfl⟩ | ⟨_, rfl⟩⟩ := hset r' hr'
    · rfl
    · exact absurd (hm'.trans hm.symm) (hunused r' hr₁)
    · exact absurd (hm.trans hm'.symm) (hunused r hr₀)
    · exact hsingle r hr₀ r' hr₁ id hm hm'
  · have hunused := fun h hh => hfresh (fun was h => by rw [hnew] at h; cases h) h (hfree.trans hh)
    intro r hr r' hr' id hm hm'
    rcases List.mem_append.mp hr with hr | hr <;> rcases List.mem_append.mp hr' with hr' | hr'
    · exact hsingle r hr r' hr' id hm hm'
    · rw [List.mem_singleton.mp hr'] at hm'
      obtain ⟨h, hh, rfl⟩ := Option.map_eq_some_iff.mp hm'
      exact absurd hm (hunused h hh r hr)
    · rw [List.mem_singleton.mp hr] at hm
      obtain ⟨h, hh, rfl⟩ := Option.map_eq_some_iff.mp hm
      exact absurd hm' (hunused h hh r' hr')
    · rw [List.mem_singleton.mp hr, List.mem_singleton.mp hr']

/-! All events of a run. -/

/-- No detected window that has no match yet is within three hours of an operator's record that confirms
a row which ended too early to be read. -/
def NoReuse (since : ℤ) (journal : List RefillEventRow) (people : List HumanRefill) (events : List RefillEvent) : Prop :=
  ∀ ev ∈ events, (∀ was, rowOf journal ev = some was → was.matchedRefillId = none) →
    ∀ h ∈ people, h.serial = ev.serial → ev.windowFrom - MATCH_PAD_MS ≤ h.performedAt →
      h.performedAt ≤ ev.windowTo + MATCH_PAD_MS →
        ∀ r ∈ journal, r.windowTo < since - MATCH_PAD_MS → r.matchedRefillId ≠ some h.id

theorem writeEvents_spec {events : List RefillEvent} (hs : JournalSound env.host journal)
    (hevents : ∀ ev ∈ events, normalizeMachineSerial env.host ev.serial = ev.serial ∧ since ≤ ev.windowTo)
    (hnd : (events.map fun ev => (ev.serial, ev.windowTo)).Nodup) (hw : JournalSound env.host w.journal)
    (hcover : Covers since w) (hcurrent : ∀ ev ∈ events, rowOf w.journal ev = rowOf journal ev)
    (hold : ∀ r ∈ w.journal, r.windowTo < since → r ∈ journal)
    (hfinal : w' = events.foldl (writeEvent env people (journalSince since journal)) w) :
    JournalSound env.host w'.journal ∧ Kept w.journal w'.journal ∧
      (NoReuse since journal people events → SingleMatches w.journal → SingleMatches w'.journal) := by
  induction events generalizing w with
  | nil =>
    subst hfinal
    exact ⟨hw, .refl _, fun _ h => h⟩
  | cons ev events ih =>
    obtain ⟨hcanon, hto⟩ := hevents ev List.mem_cons_self
    rw [List.map_cons, List.nodup_cons] at hnd
    have hfind : findWindow env.host (journalSince since journal) ev = rowOf w.journal ev :=
      (hs.findWindow_eq hcanon hto).trans (hcurrent ev List.mem_cons_self).symm
    have hstep : Wrote env people w ev (writeEvent env people (journalSince since journal) w ev) :=
      writeEvent_wrote hfind
    have hother : ∀ ev' ∈ events, (ev'.serial, ev'.windowTo) ≠ (ev.serial, ev.windowTo) := by
      intro ev' hev' heq
      exact hnd.1 (heq ▸ List.mem_map_of_mem hev')
    obtain ⟨hsound, hkept, hsingle⟩ := ih (fun ev' hev' => hevents ev' (List.mem_cons_of_mem _ hev')) hnd.2
      (hstep.sound hw hcanon) (hstep.covers hcover)
      (fun ev' hev' => (hstep.rowOf_of_ne hw hcanon (hother ev' hev')).trans
        (hcurrent ev' (List.mem_cons_of_mem _ hev')))
      (fun r hr hlt => hold r ((hstep.mem_of_ne hw hcanon fun hkey => by
        have hwindow : r.windowTo = ev.windowTo := congrArg Prod.snd hkey
        omega).mp hr) hlt) hfinal
    refine ⟨hsound, (hstep.kept hw).trans hkept, fun hreuse hone => ?_⟩
    refine hsingle (fun ev' hev' => hreuse ev' (List.mem_cons_of_mem _ hev')) (hstep.singleMatches hw hone ?_)
    intro hunmatched human hfree r hr hmatch
    obtain ⟨hperson, hnot, hserial, hfrom, huntil⟩ := of_freeMatch hfree
    by_cases hread : since - MATCH_PAD_MS ≤ r.windowTo
    · exact hnot (hcover r hr hread human.id hmatch)
    · have hpad : 0 ≤ MATCH_PAD_MS := by decide
      rw [hcurrent ev List.mem_cons_self] at hunmatched
      exact hreuse ev List.mem_cons_self hunmatched human hperson (hserial.trans hcanon) hfrom huntil r
        (hold r hr (by omega)) (by omega) hmatch

theorem covers_start (since : ℤ) (journal : List RefillEventRow) (n m : ℕ) :
    Covers since ⟨journal, (journalSince since journal).filterMap (·.matchedRefillId), n, m⟩ := by
  intro r hr hto id hmatch
  exact List.mem_filterMap.mpr ⟨r, List.mem_filter.mpr ⟨hr, decide_eq_true hto⟩, hmatch⟩

end journal

/-! A run of the detector. -/

/-- The detected windows of a run. -/
def detected (env : DetectEnv) (db : FieldDb) (days : Option ℤ) : List RefillEvent :=
  (scan env (windowStart env days) db.mirror.snapshots).events

theorem record_spec (hstable : CanonStable env.host) (hs : JournalSound env.host db.journal) (days : Option ℤ) :
    JournalSound env.host (record env (windowStart env days) db (detected env db days)).journal ∧
      Kept db.journal (record env (windowStart env days) db (detected env db days)).journal ∧
      (NoReuse (windowStart env days) db.journal (peopleSince env.host (windowStart env days) db.refills)
          (detected env db days) → SingleMatches db.journal →
        SingleMatches (record env (windowStart env days) db (detected env db days)).journal) := by
  have hscan : (∀ ev ∈ detected env db days, normalizeMachineSerial env.host ev.serial = ev.serial ∧
        windowStart env days ≤ ev.windowFrom ∧ ev.windowFrom ≤ ev.windowTo) ∧
      ((detected env db days).map fun ev => eventKey env.host ev.serial ev.windowTo).Nodup := scan_events hstable
  obtain ⟨hevents, hnd⟩ := hscan
  refine writeEvents_spec hs (fun ev hev => ?_) ?_ hs (covers_start _ _ 0 0) (fun _ _ => rfl) (fun _ hr _ => hr) rfl
  · obtain ⟨hcanon, hfrom, hto⟩ := hevents ev hev
    exact ⟨hcanon, hfrom.trans hto⟩
  · have hkeys : (detected env db days).map (fun ev => (ev.serial, ev.windowTo)) =
        (detected env db days).map fun ev => eventKey env.host ev.serial ev.windowTo := by
      refine List.map_congr_left fun ev hev => ?_
      rw [eventKey, (hevents ev hev).1]
    rw [hkeys]
    exact hnd

/-- The journal is sound, and every event of the feed is of a row of its own, written after its window. -/
structure FieldSound (host : Js.Host) (db : FieldDb) : Prop where
  journal : JournalSound host db.journal
  announced : (db.feed.map (·.eventId)).Nodup
  ofRow : ∀ e ∈ db.feed, ∃ r ∈ db.journal, r.id = e.eventId ∧ r.windowTo ≤ e.occurredAt

theorem of_freshRows (hs : FieldSound env.host db) {r : RefillEventRow} (hr : r ∈ freshRows env since db) :
    r ∈ db.journal ∧ r.matchedRefillId = none ∧ r.windowTo ≤ env.now ∧ ∀ e ∈ db.feed, e.eventId ≠ r.id := by
  simp only [freshRows, unmatchedSince, isAnnounced, List.mem_filter, Bool.and_eq_true, decide_eq_true_eq,
    Option.isNone_iff_eq_none, Bool.not_eq_true', Bool.or_eq_false_iff] at hr
  obtain ⟨⟨hmem, ⟨hsince, hpast⟩, hnone⟩, hnew, _⟩ := hr
  have hpad : 0 ≤ MATCH_PAD_MS := by decide
  refine ⟨hmem, hnone, by omega, fun e he heq => ?_⟩
  obtain ⟨r₀, hr₀, hid, hto⟩ := hs.ofRow e he
  rw [hs.journal.eq_of_id hr₀ hmem (hid.trans heq)] at hto
  have hseen : e ∈ db.feed.filter fun e => since ≤ e.occurredAt :=
    List.mem_filter.mpr ⟨he, decide_eq_true (hsince.trans hto)⟩
  exact List.any_eq_false.mp hnew e hseen (decide_eq_true heq)

theorem publishUnmatched_spec (hs : FieldSound env.host db) (hclock : env.now ≤ env.dbNow) :
    FieldSound env.host (publishUnmatched env since db) ∧
      ∀ e ∈ (publishUnmatched env since db).feed, e ∈ db.feed ∨
        ∃ r ∈ db.journal, r.id = e.eventId ∧ r.matchedRefillId = none := by
  refine ⟨⟨hs.journal, ?_, fun e he => ?_⟩, fun e he => ?_⟩
  · have hids : ((freshRows env since db).map (announcement env)).map (·.eventId) =
        (freshRows env since db).map (·.id) := by
      rw [List.map_map]
      rfl
    have hsub : (freshRows env since db).Sublist db.journal := List.filter_sublist.trans List.filter_sublist
    unfold publishUnmatched
    rw [List.map_append, hids]
    refine hs.announced.append (hs.journal.ids_nodup.sublist (hsub.map _)) ?_
    intro id hid hid'
    obtain ⟨e, he, rfl⟩ := List.mem_map.mp hid
    obtain ⟨r, hr, heq⟩ := List.mem_map.mp hid'
    exact (of_freshRows hs hr).2.2.2 e he heq.symm
  · rcases List.mem_append.mp he with he | he
    · exact hs.ofRow e he
    · obtain ⟨r, hr, rfl⟩ := List.mem_map.mp he
      obtain ⟨hmem, _, hpast, _⟩ := of_freshRows hs hr
      exact ⟨r, hmem, rfl, hpast.trans hclock⟩
  · rcases List.mem_append.mp he with he | he
    · exact .inl he
    · obtain ⟨r, hr, rfl⟩ := List.mem_map.mp he
      obtain ⟨hmem, hnone, _, _⟩ := of_freshRows hs hr
      exact .inr ⟨r, hmem, rfl, hnone⟩

/-- What a run of the detector keeps, and what it announces. -/
theorem detect_spec (hstable : CanonStable env.host) (hs : FieldSound env.host db) (hclock : env.now ≤ env.dbNow)
    (days : Option ℤ) :
    FieldSound env.host (detect env db days).2 ∧ Kept db.journal (detect env db days).2.journal ∧
      (∀ e ∈ (detect env db days).2.feed, e ∈ db.feed ∨
        ∃ r ∈ (detect env db days).2.journal, r.id = e.eventId ∧ r.matchedRefillId = none) ∧
      (NoReuse (windowStart env days) db.journal (peopleSince env.host (windowStart env days) db.refills)
          (detected env db days) → SingleMatches db.journal → SingleMatches (detect env db days).2.journal) := by
  obtain ⟨hsound, hkept, hsingle⟩ := record_spec hstable hs.journal days
  have hwritten : FieldSound env.host
      { db with journal := (record env (windowStart env days) db (detected env db days)).journal } := by
    refine ⟨hsound, hs.announced, fun e he => ?_⟩
    obtain ⟨r, hr, hid, hto⟩ := hs.ofRow e he
    obtain ⟨r', hr', hid', hto', _⟩ := hkept r hr
    exact ⟨r', hr', hid'.trans hid, hto'.trans_le hto⟩
  obtain ⟨hpublished, hfeed⟩ := publishUnmatched_spec hwritten hclock
  exact ⟨hpublished, hkept, hfeed, hsingle⟩

/-! Runs. -/

/-- A step reuses no record, or is no run of the detector. -/
def FieldAction.NoReuse (db : FieldDb) : FieldAction → Prop
  | .detect env days => Vending.NoReuse (windowStart env days) db.journal
      (peopleSince env.host (windowStart env days) db.refills) (detected env db days)
  | _ => True

theorem fieldSound_start (hjournal : db.journal = []) (hfeed : db.feed = []) : FieldSound host db := by
  refine ⟨⟨?_, ?_, ?_⟩, ?_, ?_⟩
  · rw [hjournal]
    rfl
  · rw [hjournal]
    exact List.forall_mem_nil _
  · rw [hjournal]
    exact List.nodup_nil
  · rw [hfeed]
    exact List.nodup_nil
  · rw [hfeed]
    exact List.forall_mem_nil _

theorem fieldNext_spec (hstable : CanonStable host) (hs : FieldSound host db) {a : FieldAction}
    (h : FieldNext host db a db') :
    FieldSound host db' ∧ Kept db.journal db'.journal ∧
      (∀ e ∈ db'.feed, e ∈ db.feed ∨ ∃ r ∈ db'.journal, r.id = e.eventId ∧ r.matchedRefillId = none) ∧
      (a.NoReuse db → SingleMatches db.journal → SingleMatches db'.journal) := by
  obtain ⟨hon, rfl⟩ := h
  rcases a with ⟨env, payload⟩ | row | ⟨env, days⟩
  · exact ⟨⟨hs.journal, hs.announced, hs.ofRow⟩, .refl _, fun e he => .inl he, fun _ h => h⟩
  · exact ⟨⟨hs.journal, hs.announced, hs.ofRow⟩, .refl _, fun e he => .inl he, fun _ h => h⟩
  · obtain ⟨rfl, hclock⟩ := hon
    exact detect_spec hstable hs hclock days

theorem nodup_matches {journal : List RefillEventRow} (hs : JournalSound host journal) (h : SingleMatches journal) :
    (journal.filterMap (·.matchedRefillId)).Nodup := by
  unfold List.Nodup
  rw [List.pairwise_filterMap]
  have hrows : journal.Nodup := List.Nodup.of_map _ hs.ids_nodup
  refine hrows.imp_of_mem fun {r r'} hr hr' hne id hid id' hid' heq => hne ?_
  subst heq
  exact h r hr r' hr' _ hid hid'

/-- The field is sound, and no record confirms two of its rows. -/
def Confirmed (host : Js.Host) (db : FieldDb) : Prop := FieldSound host db ∧ SingleMatches db.journal

/-- From an empty journal: one row for a window, one row for a record while no run reuses one, matches that
stay, and one event of the feed for a row, written while the row had no match. -/
theorem refill_confirmed_once {steps : List (Step FieldDb FieldAction)} (hstable : CanonStable host)
    (hjournal : db.journal = []) (hfeed : db.feed = []) (hrun : Run (FieldNext host) db steps db')
    (hreuse : ∀ e ∈ steps, e.action.NoReuse e.before) :
    (db'.journal.map fun r => eventKey host r.machineSerial r.windowTo).Nodup ∧
      (db'.journal.filterMap (·.matchedRefillId)).Nodup ∧
      (∀ e ∈ steps, Kept e.before.journal e.after.journal) ∧
      (db'.feed.map (·.eventId)).Nodup ∧
      ∀ e ∈ steps, ∀ f ∈ e.after.feed, f ∈ e.before.feed ∨
        ∃ r ∈ e.after.journal, r.id = f.eventId ∧ r.matchedRefillId = none := by
  have hsound : ∀ {steps : List (Step FieldDb FieldAction)} {db' : FieldDb}, Run (FieldNext host) db steps db' →
      FieldSound host db' := fun hrun =>
    hrun.invariant (fun _ _ _ hs hnext => (fieldNext_spec hstable hs hnext).1) (fieldSound_start hjournal hfeed)
  have hstep : ∀ e ∈ steps, Kept e.before.journal e.after.journal ∧
      ∀ f ∈ e.after.feed, f ∈ e.before.feed ∨
        ∃ r ∈ e.after.journal, r.id = f.eventId ∧ r.matchedRefillId = none := by
    intro e he
    obtain ⟨_, _, _, hbefore, hnext, _⟩ := hrun.split he
    obtain ⟨_, hkept, hannounced, _⟩ := fieldNext_spec hstable (hsound hbefore) hnext
    exact ⟨hkept, hannounced⟩
  have hsingle : Confirmed host db' := by
    refine Run.invariant_of (fun db a db' h hnext hcond => ?_) hrun ⟨fieldSound_start hjournal hfeed, ?_⟩ hreuse
    · obtain ⟨hs, _, _, hsingle⟩ := fieldNext_spec hstable h.1 hnext
      exact ⟨hs, hsingle hcond h.2⟩
    · rw [hjournal]
      exact List.forall_mem_nil _
  obtain ⟨hs, hmatches⟩ := hsingle
  refine ⟨?_, nodup_matches hs.journal hmatches, fun e he => (hstep e he).1, hs.announced, fun e he => (hstep e he).2⟩
  have hkeys : (db'.journal.map fun r => eventKey host r.machineSerial r.windowTo) = db'.journal.map rowKey := by
    refine List.map_congr_left fun r hr => ?_
    rw [eventKey, hs.journal.canonical r hr, rowKey]
  rw [hkeys]
  exact hs.journal.keys

/-! A machine `m` with one coil of `m`. -/

def fieldHost : Js.Host := { mirrorHost with toLowerCase := fun _ => "m" }

theorem canonStable_fieldHost : CanonStable fieldHost := fun _ => rfl

def hour : ℤ := 3600000

def coilAt (at_ quantity : ℤ) : FieldAction :=
  .ingest ⟨fieldHost, ⟨[], []⟩, [], at_⟩ ⟨some at_, [⟨"m", [⟨"A", "m", 10, quantity⟩]⟩]⟩

/-- An operator's record at six o'clock. -/
def recordAtSix : RefillRow :=
  ⟨"record", none, "m", none, none, "m", 4, none, none, 6 * hour, "key", "bot", none, "operator", none, 6 * hour⟩

def detectAt (now : ℤ) : FieldAction := .detect ⟨fieldHost, ⟨[], []⟩, [], [], 1, now, now⟩ (some 1)

def emptyField : FieldDb := ⟨⟨[], [], []⟩, [], [], []⟩

theorem run_field (db : FieldDb) (actions : List FieldAction) (hon : ∀ a ∈ actions, a.On fieldHost) :
    Run (FieldNext fieldHost) db (runActions FieldDb.step db actions).1 (runActions FieldDb.step db actions).2 := by
  induction actions generalizing db with
  | nil => exact .start
  | cons a as ih =>
    refine Run.append (Run.step .start ⟨hon a List.mem_cons_self, rfl⟩) ?_
    exact ih _ fun b hb => hon b (List.mem_cons_of_mem _ hb)

/-- The record confirms the refill before it. -/
def oneRefill : List FieldAction := [coilAt 0 1, coilAt (3 * hour) 5, .refill recordAtSix, detectAt (6 * hour)]

theorem on_oneRefill : ∀ a ∈ oneRefill, a.On fieldHost := by
  unfold oneRefill
  simp only [List.forall_mem_cons, List.not_mem_nil, false_implies, implies_true, and_true]
  exact ⟨trivial, trivial, trivial, rfl, le_rfl⟩

theorem refill_confirmed_once_sample :
    ((runActions FieldDb.step emptyField oneRefill).2.journal.map fun r =>
        eventKey fieldHost r.machineSerial r.windowTo).Nodup ∧
      ((runActions FieldDb.step emptyField oneRefill).2.journal.filterMap (·.matchedRefillId)).Nodup ∧
      (∀ e ∈ (runActions FieldDb.step emptyField oneRefill).1, Kept e.before.journal e.after.journal) ∧
      ((runActions FieldDb.step emptyField oneRefill).2.feed.map (·.eventId)).Nodup ∧
      ∀ e ∈ (runActions FieldDb.step emptyField oneRefill).1, ∀ f ∈ e.after.feed, f ∈ e.before.feed ∨
        ∃ r ∈ e.after.journal, r.id = f.eventId ∧ r.matchedRefillId = none := by
  refine refill_confirmed_once canonStable_fieldHost rfl rfl (run_field emptyField oneRefill on_oneRefill) ?_
  simp only [oneRefill, runActions, List.forall_mem_cons]
  refine ⟨trivial, trivial, trivial, ?_, List.forall_mem_nil _⟩
  intro ev _ _ h _ _ _ _ r hr
  cases hr

/-- At seven o'clock of the next day the run no longer reads the row that ended at three, but still the
record of six, which it gives to the window from nine to twelve. -/
def twoRefills : List FieldAction :=
  oneRefill ++ [coilAt (9 * hour) 5, coilAt (12 * hour) 9, detectAt (31 * hour)]

theorem record_confirms_two :
    ∃ steps db', Run (FieldNext fieldHost) emptyField steps db' ∧
      ¬ (db'.journal.filterMap (·.matchedRefillId)).Nodup := by
  refine ⟨_, _, run_field emptyField twoRefills ?_, ?_⟩
  · refine List.forall_mem_append.mpr ⟨on_oneRefill, ?_⟩
    simp only [List.forall_mem_cons, List.not_mem_nil, false_implies, implies_true, and_true]
    exact ⟨trivial, trivial, rfl, le_rfl⟩
  · decide +kernel

end Mydon.Vending
