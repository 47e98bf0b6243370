import Mydon.Lib.Run
import Mydon.Notify.Notifier

/-! No urgent notification is skipped: over pages, failed calls, lost answers and events that appear late. -/

namespace Mydon.Notify

open Mydon.Js Mydon.Lib

/-- The event is on a page still to be asked for: of the scan under way, or of the one after it. -/
def Ahead (rules : List Rule) (n : Notifier) (e : EventRow) : Prop :=
  match n.scan with
  | none => (sinceFilter rules n.since).selects e = true
  | some scan =>
    (pageFilter rules n.since ⟨scan.upTo, scan.after⟩).selects e = true ∨
      (sinceFilter rules (scan.upTo - 5000)).selects e = true

/-- The last event of a full page that goes on from a cursor is in a later millisecond, or has a greater id. -/
def Moves (rules : List Rule) (s : System) : Action → Prop
  | .collect true =>
    ∀ scan ∈ s.notifier.scan, ∀ c ∈ scan.after,
      let found := candidates rules s.event s.notifier.since (some ⟨scan.upTo, scan.after⟩)
      PENDING_EVENTS_LIMIT < found.length → ∀ e ∈ found[PENDING_EVENTS_LIMIT - 1]?,
        c.occurredAt < toMs e.occurredAt ∨ c.eventId < e.id
  | _ => True

instance decidableMoves (rules : List Rule) (s : System) (a : Action) : Decidable (Moves rules s a) := by
  unfold Moves
  split <;> infer_instance

/-- The bot has just started, over any events and any deliveries noted before. -/
structure Started (startFrom : ℤ) (s : System) : Prop where
  notifier : ∃ memoryLimit, s.notifier = Notifier.new startFrom memoryLimit
  returned : s.returned = []
  ids : (s.event.map EventRow.id).Nodup

/-- Every urgent notification since the start is noted in Core, or in the buffer, or still ahead; and Core has
noted nothing that was not returned before. -/
structure NoneSkipped (rules : List Rule) (startFrom : ℤ) (delivered : List String) (s : System) : Prop where
  accounted : ∀ e ∈ s.event, startFrom * 1000 ≤ e.occurredAt → ∀ note ∈ notificationsOf rules true e,
    note.key ∈ s.notificationDelivery ∨ note.key ∈ OrderedMap.keys s.notifier.pending ∨ Ahead rules s.notifier e
  returnedBefore : ∀ k ∈ s.notificationDelivery, k ∈ delivered ∨ k ∈ s.returned

abbrev sqlCursor (c : NotificationCursor) : ℤ × ℕ := (c.occurredAt * 1000, c.eventId)

def roundMs (micros : ℤ) : ℤ := toMs micros * 1000

abbrev cursorOf (e : EventRow) : ℤ × ℕ := Paging.cursor EventRow.occurredAt EventRow.id roundMs e

/-- How many events the cursor of the scan has not passed. -/
def unread (s : System) : ℕ :=
  match s.notifier.scan.bind (·.after) with
  | none => s.event.length
  | some c => s.event.countP fun e => Paging.Advances (sqlCursor c) (cursorOf e)

/-- Asking for a page fails only with Core; and the page that it gets ends the scan, or leaves less unread. -/
structure PageLaw (rules : List Rule) (s s' : System) (answered : Bool) : Prop where
  error : ∀ message, (s.collects rules answered).2 = .error message → answered = false
  progress : answered = true → s.notifier.pending.length < s.notifier.memoryLimit →
    s'.notifier.scan = none ∨ unread s' < unread s

/-! Events and what they give rise to. -/

section
variable {rules : List Rule} {e : EventRow} {note : PendingNotification}

theorem roundMs_le (t : ℤ) : roundMs t ≤ t := by
  unfold roundMs toMs
  omega

theorem type_of_notification {immediate : Bool} (h : note ∈ notificationsOf rules immediate e) :
    e.type ∈ RULE_EVENT_TYPES rules := by
  obtain ⟨n, hn, rfl⟩ := List.mem_map.mp h
  have happly : n ∈ applyRules rules e.context := by
    cases immediate with
    | true => exact List.mem_of_mem_filter hn
    | false => exact hn
  obtain ⟨rule, hrule, happlied⟩ := List.mem_filterMap.mp happly
  rw [RULE_EVENT_TYPES, OrderedMap.mem_keySet]
  refine List.mem_map.mpr ⟨rule, hrule, ?_⟩
  by_contra hne
  have hne' : rule.eventType ≠ e.context.type := hne
  rw [applyRule, if_pos hne'] at happlied
  cases happlied

theorem selects_page (htype : e.type ∈ RULE_EVENT_TYPES rules) {since : ℤ} {page : PendingNotificationsPage} :
    (pageFilter rules since page).selects e = true ↔
      since * 1000 ≤ e.occurredAt ∧ e.occurredAt ≤ page.upTo * 1000 ∧ ∀ c ∈ page.after, Behind c e := by
  simp [EventFilter.selects, pageFilter, htype, and_assoc, Option.all_eq_true]

theorem selects_since (htype : e.type ∈ RULE_EVENT_TYPES rules) {since : ℤ} :
    (sinceFilter rules since).selects e = true ↔ since * 1000 ≤ e.occurredAt := by
  simp [EventFilter.selects, sinceFilter, htype]

/-! Pages. -/

variable {event : List EventRow} {delivered : List String} {now since : ℤ} {page : PendingNotificationsPage}

theorem candidates_eq : candidates rules event since (some page) =
    (Paging.sorted EventRow.occurredAt EventRow.id (event.filter (pageFilter rules since page).selects)).take
      (PENDING_EVENTS_LIMIT + 1) := by
  have hlimit : min (PENDING_EVENTS_LIMIT + 1) 1000 = PENDING_EVENTS_LIMIT + 1 := by decide
  show List.take (min (PENDING_EVENTS_LIMIT + 1) 1000) _ = _
  rw [hlimit]
  rfl

/-- Which event a full page ends with, and where the next one goes on. -/
theorem pending_truncated (h : (pending rules event delivered now since true (some page)).truncated = true) :
    PENDING_EVENTS_LIMIT < (candidates rules event since (some page)).length ∧
    ∃ last ∈ (candidates rules event since (some page))[PENDING_EVENTS_LIMIT - 1]?,
      last ∈ event ∧ (pageFilter rules since page).selects last = true ∧
      ((Paging.sorted EventRow.occurredAt EventRow.id (event.filter (pageFilter rules since page).selects)).take
        PENDING_EVENTS_LIMIT).getLast? = some last ∧
      (pending rules event delivered now since true (some page)).nextCursor = some ⟨toMs last.occurredAt, last.id⟩ := by
  have hlen : PENDING_EVENTS_LIMIT < (candidates rules event since (some page)).length := of_decide_eq_true h
  refine ⟨hlen, ?_⟩
  have hlast : PENDING_EVENTS_LIMIT - 1 < (candidates rules event since (some page)).length := by omega
  refine ⟨_, List.getElem?_eq_getElem hlast, ?_⟩
  set last := (candidates rules event since (some page))[PENDING_EVENTS_LIMIT - 1] with hdef
  have hmem : last ∈ candidates rules event since (some page) := List.getElem_mem hlast
  have hsorted := Paging.mem_sorted.mp (List.mem_of_mem_take (candidates_eq ▸ hmem))
  obtain ⟨hevent, hselects⟩ := List.mem_filter.mp hsorted
  have hgetLast : ((candidates rules event since (some page)).take PENDING_EVENTS_LIMIT).getLast? = some last := by
    rw [List.getLast?_eq_getElem?, List.length_take, Nat.min_eq_left hlen.le, List.getElem?_take_of_lt (by decide),
      List.getElem?_eq_getElem hlast]
  refine ⟨hevent, hselects, ?_, ?_⟩
  · rw [← hgetLast, candidates_eq, List.take_take]
    rfl
  · have htrunc : (pending rules event delivered now since true (some page)).truncated =
      decide (PENDING_EVENTS_LIMIT < (candidates rules event since (some page)).length) := rfl
    have hnext : (pending rules event delivered now since true (some page)).nextCursor =
        if decide (PENDING_EVENTS_LIMIT < (candidates rules event since (some page)).length) = true then
          ((candidates rules event since (some page)).take PENDING_EVENTS_LIMIT).getLast?.map fun last =>
            ⟨toMs last.occurredAt, last.id⟩
        else none := rfl
    rw [hnext, if_pos (decide_eq_true hlen), hgetLast]
    rfl

theorem ids_inj (hids : (event.map EventRow.id).Nodup) {a b : EventRow} (ha : a ∈ event) (hb : b ∈ event)
    (h : a.id = b.id) : a = b := List.inj_on_of_nodup_map hids ha hb h

/-- What is selected is on the page, with all it gives rise to, or comes behind the cursor of the next one. -/
theorem pending_covers (hids : (event.map EventRow.id).Nodup) (hevent : e ∈ event)
    (hselects : (pageFilter rules since page).selects e = true) :
    (∀ note ∈ notificationsOf rules true e, note.key ∈ delivered ∨
      note ∈ (pending rules event delivered now since true (some page)).notifications) ∨
    (pending rules event delivered now since true (some page)).truncated = true ∧
      ∀ c ∈ (pending rules event delivered now since true (some page)).nextCursor, Behind c e := by
  set sorted := Paging.sorted EventRow.occurredAt EventRow.id (event.filter (pageFilter rules since page).selects)
    with hsorted
  have hmem : e ∈ event.filter (pageFilter rules since page).selects := List.mem_filter.mpr ⟨hevent, hselects⟩
  by_cases hon : e ∈ sorted.take PENDING_EVENTS_LIMIT
  · left
    intro note hnote
    by_cases hdone : note.key ∈ delivered
    · exact .inl hdone
    · right
      have hout : (pending rules event delivered now since true (some page)).notifications =
          (((candidates rules event since (some page)).take PENDING_EVENTS_LIMIT).flatMap
            (notificationsOf rules true)).filter fun n => !delivered.contains n.key := rfl
      rw [hout, candidates_eq, List.take_take, List.mem_filter]
      exact ⟨List.mem_flatMap.mpr ⟨e, hon, hnote⟩, by simpa using hdone⟩
  · right
    have hlong : PENDING_EVENTS_LIMIT < sorted.length := by
      by_contra hshort
      rw [List.take_of_length_le (not_lt.mp hshort)] at hon
      exact hon (Paging.mem_sorted.mpr hmem)
    have htruncated : (pending rules event delivered now since true (some page)).truncated = true := by
      have htrunc : (pending rules event delivered now since true (some page)).truncated =
        decide (PENDING_EVENTS_LIMIT < (candidates rules event since (some page)).length) := rfl
      rw [htrunc, candidates_eq, ← hsorted, List.length_take, decide_eq_true_eq]
      omega
    refine ⟨htruncated, ?_⟩
    obtain ⟨-, last, -, -, -, hlast, hnext⟩ := pending_truncated htruncated
    intro c hc
    rw [hnext] at hc
    obtain rfl := Option.some.inj hc
    refine @Paging.beyond_of_not_mem_take _ _ _ _ _ _ _ roundMs _ _ roundMs_le ?_ _ _ hlast hmem hon
    intro a ha b hb
    exact ids_inj hids (List.mem_of_mem_filter ha) (List.mem_of_mem_filter hb)

/-! The bot. -/

variable {n : Notifier} {notes : List PendingNotification}

theorem mem_keys_remember {k : String} : k ∈ OrderedMap.keys (n.remember notes) ↔
    k ∈ OrderedMap.keys n.pending ∨ k ∉ n.acked ∧ ∃ note ∈ notes, note.key = k := by
  unfold Notifier.remember
  generalize n.pending = pending
  induction notes generalizing pending with
  | nil => simp
  | cons note notes ih =>
    rw [List.foldl_cons, ih, List.exists_mem_cons_iff]
    by_cases hkey : note.key = k
    · split_ifs with hacked
      · simp [hkey ▸ hacked]
      · simp [OrderedMap.mem_keys_iff, OrderedMap.get_set, hkey, hkey ▸ hacked]
    · split_ifs
      · simp [hkey]
      · simp [OrderedMap.mem_keys_iff, OrderedMap.get_set, hkey]

theorem mem_ack {delivered keys : List String} {k : String} :
    k ∈ ack delivered keys ↔ k ∈ delivered ∨ k ∈ keys ∧ 0 < k.length := by
  rw [ack, OrderedMap.mem_foldl_addKey, OrderedMap.mem_keySet, List.mem_filter, decide_eq_true_eq]

/-- The keys that have been noted are no longer in the buffer. -/
theorem mem_keys_noted {keys : List String} {k : String} :
    k ∈ OrderedMap.keys (n.noted keys).pending ↔ k ∈ OrderedMap.keys n.pending ∧ k ∉ keys := by
  show k ∈ OrderedMap.keys (keys.foldl (fun pending k => OrderedMap.delete k pending) n.pending) ↔ _
  generalize n.pending = pending
  induction keys generalizing pending with
  | nil => simp
  | cons key keys ih =>
    rw [List.foldl_cons, ih, OrderedMap.mem_keys_iff, OrderedMap.mem_keys_iff, OrderedMap.get_delete]
    by_cases hkey : key = k
    · simp [hkey]
    · simp [hkey, Ne.symm hkey]

/-! The invariant. -/

structure Inv (rules : List Rule) (startFrom : ℤ) (delivered : List String) (s : System) : Prop where
  ids : (s.event.map EventRow.id).Nodup
  acked : ∀ k ∈ s.notifier.acked, 0 < k.length → k ∈ s.notificationDelivery
  /-- An event that may still appear is not behind the scan. -/
  punctual : match s.notifier.scan with
    | none => s.notifier.since ≤ startFrom ∨ (s.notifier.since + 5000) * 1000 ≤ s.clock
    | some scan => scan.upTo * 1000 ≤ s.clock
  skipped : NoneSkipped rules startFrom delivered s

/-- The outcomes of asking: no room, no answer, a page that is not the last, one on which the scan sticks,
and the last one. -/
inductive Collected (rules : List Rule) (s : System) (answered : Bool) : Notifier × Except String (List PendingNote) → Prop
  | full (h : ¬ s.notifier.pending.length < s.notifier.memoryLimit) :
    Collected rules s answered (s.notifier, .ok s.notifier.batch)
  | unanswered (scan : CatchupScan) (hscan : scan = s.notifier.scan.getD ⟨toMs s.clock, none⟩) (h : answered = false) :
    Collected rules s answered ({ s.notifier with scan := some scan }, .error "Core недоступен")
  | page (scan : CatchupScan) (hscan : scan = s.notifier.scan.getD ⟨toMs s.clock, none⟩) (h : answered = true)
    (result : PendingNotifications) (hresult : result = pending rules s.event s.notificationDelivery (toMs s.clock)
      s.notifier.since true (some ⟨scan.upTo, scan.after⟩)) (htruncated : result.truncated = true)
    (next : NotificationCursor) (hnext : result.nextCursor = some next) (n' : Notifier)
    (hn' : n' = { s.notifier with
      pending := s.notifier.remember result.notifications, scan := some { scan with after := some next } })
    (hmoves : scan.after ≠ some next) : Collected rules s answered (n', .ok n'.batch)
  | stuck (scan : CatchupScan) (hscan : scan = s.notifier.scan.getD ⟨toMs s.clock, none⟩) (h : answered = true)
    (result : PendingNotifications) (hresult : result = pending rules s.event s.notificationDelivery (toMs s.clock)
      s.notifier.since true (some ⟨scan.upTo, scan.after⟩)) (htruncated : result.truncated = true)
    (hstuck : result.nextCursor = scan.after ∨ result.nextCursor = none) (n' : Notifier) (message : String) :
    Collected rules s answered (n', .error message)
  | last (scan : CatchupScan) (hscan : scan = s.notifier.scan.getD ⟨toMs s.clock, none⟩) (h : answered = true)
    (result : PendingNotifications) (hresult : result = pending rules s.event s.notificationDelivery (toMs s.clock)
      s.notifier.since true (some ⟨scan.upTo, scan.after⟩)) (htruncated : result.truncated = false) (n' : Notifier)
    (hn' : n' = { s.notifier with
      pending := s.notifier.remember result.notifications, since := scan.upTo - 5000, scan := none }) :
    Collected rules s answered (n', .ok n'.batch)

theorem collects_spec (rules : List Rule) (s : System) (answered : Bool) :
    Collected rules s answered (s.collects rules answered) := by
  unfold System.collects Notifier.collect
  split
  · cases answered with
    | false => exact .unanswered _ rfl rfl
    | true =>
      simp only [System.core, if_true]
      split
      · rename_i htruncated
        split
        · rename_i hnone
          exact .stuck _ rfl rfl _ rfl htruncated (.inr hnone) _ _
        · rename_i next hnext
          split
          · rename_i hstuck
            exact .stuck _ rfl rfl _ rfl htruncated (.inl (hnext.trans hstuck.symm)) _ _
          · rename_i hmoves
            exact .page _ rfl rfl _ rfl htruncated next hnext _ rfl hmoves
      · rename_i htruncated
        exact .last _ rfl rfl _ rfl (Bool.eq_false_iff.mpr htruncated) _ rfl
  · rename_i hfull
    exact .full hfull

/-! Steps. -/

variable {startFrom : ℤ} {s s' : System}

theorem key_pos (note : PendingNotification) : 0 < note.key.length := by
  unfold PendingNotification.key key
  rw [String.length_append, String.length_append]
  have hcolon : ":".length = 1 := by decide
  omega

/-- A scan that has begun goes over what was ahead of it. -/
theorem ahead_begun (htype : e.type ∈ RULE_EVENT_TYPES rules) (h : Ahead rules n e) (now : ℤ) :
    (pageFilter rules n.since ⟨(n.scan.getD ⟨now, none⟩).upTo, (n.scan.getD ⟨now, none⟩).after⟩).selects e = true ∨
      (sinceFilter rules ((n.scan.getD ⟨now, none⟩).upTo - 5000)).selects e = true := by
  unfold Ahead at h
  split at h
  · rename_i hnone
    rw [hnone, Option.getD_none, selects_page htype, selects_since htype]
    rw [selects_since htype] at h
    by_cases hupTo : e.occurredAt ≤ now * 1000
    · exact .inl ⟨h, hupTo, nofun⟩
    · right
      show (now - 5000) * 1000 ≤ e.occurredAt
      omega
  · rename_i scan hsome
    rw [hsome, Option.getD_some]
    exact h

theorem upTo_le_clock (h : Inv rules startFrom delivered s) :
    (s.notifier.scan.getD ⟨toMs s.clock, none⟩).upTo * 1000 ≤ s.clock := by
  have hpunctual := h.punctual
  split at hpunctual
  · rename_i hnone
    rw [hnone]
    exact roundMs_le s.clock
  · rename_i scan hsome
    rw [hsome]
    exact hpunctual

/-- After a page an event is noted or in the buffer, or behind the cursor of a page that goes on, or left to the
scan after this one. -/
theorem accounted_of_page (h : Inv rules startFrom delivered s) {scan : CatchupScan}
    (hscan : scan = s.notifier.scan.getD ⟨toMs s.clock, none⟩) {result : PendingNotifications}
    (hresult : result = pending rules s.event s.notificationDelivery (toMs s.clock) s.notifier.since true
      (some ⟨scan.upTo, scan.after⟩)) (he : e ∈ s.event) (hstart : startFrom * 1000 ≤ e.occurredAt)
    (hnote : note ∈ notificationsOf rules true e) :
    note.key ∈ s.notificationDelivery ∨ note.key ∈ OrderedMap.keys (s.notifier.remember result.notifications) ∨
      ((pageFilter rules s.notifier.since ⟨scan.upTo, scan.after⟩).selects e = true ∧ result.truncated = true ∧
        ∀ c ∈ result.nextCursor, Behind c e) ∨ (sinceFilter rules (scan.upTo - 5000)).selects e = true := by
  rcases h.skipped.accounted e he hstart note hnote with hdone | hbuffered | hahead
  · exact .inl hdone
  · exact .inr (.inl (mem_keys_remember.mpr (.inl hbuffered)))
  · have hbegun := ahead_begun (type_of_notification hnote) hahead (toMs s.clock)
    rw [← hscan] at hbegun
    subst hresult
    rcases hbegun with hselects | hlater
    · rcases @pending_covers rules e s.event s.notificationDelivery (toMs s.clock) s.notifier.since _ h.ids he hselects
        with hon | hbehind
      · rcases hon note hnote with hdone | hon
        · exact .inl hdone
        · by_cases hacked : note.key ∈ s.notifier.acked
          · exact .inl (h.acked _ hacked (key_pos note))
          · exact .inr (.inl (mem_keys_remember.mpr (.inr ⟨hacked, note, hon, rfl⟩)))
      · exact .inr (.inr (.inl ⟨hselects, hbehind⟩))
    · exact .inr (.inr (.inr hlater))

theorem Inv.appear (h : Inv rules startFrom delivered s) (hfresh : ∀ e' ∈ s.event, e'.id ≠ e.id)
    (hlate : s.clock ≤ e.occurredAt + 5000000) : Inv rules startFrom delivered { s with event := s.event ++ [e] } where
  ids := by
    rw [List.map_append, List.nodup_append]
    refine ⟨h.ids, List.nodup_singleton _, ?_⟩
    intro a ha b hb hab
    obtain ⟨e', he', rfl⟩ := List.mem_map.mp ha
    exact hfresh e' he' (hab.trans (List.mem_singleton.mp hb))
  acked := h.acked
  punctual := h.punctual
  skipped := by
    refine ⟨?_, h.skipped.returnedBefore⟩
    intro e' he' hstart note hnote
    rcases List.mem_append.mp he' with hold | hnew
    · exact h.skipped.accounted e' hold hstart note hnote
    · rw [List.mem_singleton] at hnew
      subst hnew
      refine .inr (.inr ?_)
      have htype := type_of_notification hnote
      have hpunctual := h.punctual
      unfold Ahead
      split
      · rename_i hnone
        rw [selects_since htype]
        have hnone' : s.notifier.scan = none := hnone
        rw [hnone'] at hpunctual
        have hpunctual' : s.notifier.since ≤ startFrom ∨ (s.notifier.since + 5000) * 1000 ≤ s.clock := hpunctual
        show s.notifier.since * 1000 ≤ e'.occurredAt
        omega
      · rename_i scan hsome
        right
        rw [selects_since htype]
        have hsome' : s.notifier.scan = some scan := hsome
        rw [hsome'] at hpunctual
        have hpunctual' : scan.upTo * 1000 ≤ s.clock := hpunctual
        omega

theorem Inv.tick (h : Inv rules startFrom delivered s) (d : ℕ) :
    Inv rules startFrom delivered { s with clock := s.clock + d } where
  ids := h.ids
  acked := h.acked
  punctual := by
    have hpunctual := h.punctual
    dsimp only
    split at hpunctual
    · exact hpunctual.imp_right fun hle => by omega
    · omega
  skipped := ⟨h.skipped.accounted, h.skipped.returnedBefore⟩

theorem Inv.noted (h : Inv rules startFrom delivered s) {keys : List String} (hkeys : ∀ k ∈ keys, k ∈ s.returned)
    {notifier : Notifier} (hscan : notifier.scan = s.notifier.scan) (hsince : notifier.since = s.notifier.since)
    (hacked : ∀ k ∈ notifier.acked, k ∈ s.notifier.acked ∨ k ∈ keys)
    (hpending : ∀ k ∈ OrderedMap.keys s.notifier.pending, k ∈ keys ∨ k ∈ OrderedMap.keys notifier.pending) :
    Inv rules startFrom delivered
      { s with notificationDelivery := ack s.notificationDelivery keys, notifier := notifier } where
  ids := h.ids
  acked k hk hpos := by
    rcases hacked k hk with hold | hnew
    · exact mem_ack.mpr (.inl (h.acked k hold hpos))
    · exact mem_ack.mpr (.inr ⟨hnew, hpos⟩)
  punctual := by
    rw [hscan, hsince]
    exact h.punctual
  skipped := by
    constructor
    · intro e he hstart note hnote
      rcases h.skipped.accounted e he hstart note hnote with hdone | hbuffered | hahead
      · exact .inl (mem_ack.mpr (.inl hdone))
      · rcases hpending _ hbuffered with hnoted | hkept
        · exact .inl (mem_ack.mpr (.inr ⟨hnoted, key_pos note⟩))
        · exact .inr (.inl hkept)
      · refine .inr (.inr ?_)
        unfold Ahead at hahead ⊢
        rwa [hscan, hsince]
    · intro k hk
      rcases mem_ack.mp hk with hold | ⟨hnew, -⟩
      · exact h.skipped.returnedBefore k hold
      · exact .inr (hkeys k hnew)

/-- A full page that goes on from a cursor ends behind it. -/
theorem advances_of_moves {scan : CatchupScan} {c : NotificationCursor} {last : EventRow} (hscan : s.notifier.scan = some scan)
    (hafter : scan.after = some c) (hmoves : Moves rules s (.collect true))
    (hlong : PENDING_EVENTS_LIMIT < (candidates rules s.event s.notifier.since (some ⟨scan.upTo, scan.after⟩)).length)
    (hlast : last ∈ (candidates rules s.event s.notifier.since (some ⟨scan.upTo, scan.after⟩))[PENDING_EVENTS_LIMIT - 1]?)
    (hselects : (pageFilter rules s.notifier.since ⟨scan.upTo, scan.after⟩).selects last = true) :
    Paging.Advances (sqlCursor c) (cursorOf last) := by
  have hmoves' := hmoves scan hscan c hafter hlong last hlast
  have hbehind : Behind c last := by
    simp only [EventFilter.selects, pageFilter, hafter, Bool.and_eq_true, Option.all_some, decide_eq_true_eq] at hselects
    exact hselects.2
  have hfloor : c.occurredAt ≤ toMs last.occurredAt := by
    unfold toMs
    rcases hbehind with hlt | ⟨heq, -⟩
    · have hlt' : c.occurredAt * 1000 < last.occurredAt := hlt
      omega
    · have heq' : last.occurredAt = c.occurredAt * 1000 := heq
      omega
  unfold Paging.Advances
  show c.occurredAt * 1000 < toMs last.occurredAt * 1000 ∨ c.occurredAt * 1000 = toMs last.occurredAt * 1000 ∧ c.eventId < last.id
  omega

/-- The scan does not stick. -/
theorem not_stuck {scan : CatchupScan} (hscan : scan = s.notifier.scan.getD ⟨toMs s.clock, none⟩)
    (hmoves : Moves rules s (.collect true))
    (htruncated : (pending rules s.event s.notificationDelivery (toMs s.clock) s.notifier.since true
      (some ⟨scan.upTo, scan.after⟩)).truncated = true) :
    ∃ last ∈ s.event, (pending rules s.event s.notificationDelivery (toMs s.clock) s.notifier.since true
        (some ⟨scan.upTo, scan.after⟩)).nextCursor = some ⟨toMs last.occurredAt, last.id⟩ ∧
      ∀ c, scan.after = some c → s.notifier.scan = some scan ∧ Paging.Advances (sqlCursor c) (cursorOf last) := by
  obtain ⟨hlong, last, hlast, hevent, hselects, -, hnext⟩ := pending_truncated htruncated
  refine ⟨last, hevent, hnext, fun c hafter => ?_⟩
  rcases hsome : s.notifier.scan with _ | scan'
  · rw [hsome] at hscan
    rw [hscan] at hafter
    cases hafter
  · rw [hsome, Option.getD_some] at hscan
    subst hscan
    exact ⟨rfl, advances_of_moves hsome hafter hmoves hlong hlast hselects⟩

theorem stuck_absurd {scan : CatchupScan} (hscan : scan = s.notifier.scan.getD ⟨toMs s.clock, none⟩)
    (hmoves : Moves rules s (.collect true)) {result : PendingNotifications}
    (hresult : result = pending rules s.event s.notificationDelivery (toMs s.clock) s.notifier.since true
      (some ⟨scan.upTo, scan.after⟩)) (htruncated : result.truncated = true)
    (hstuck : result.nextCursor = scan.after ∨ result.nextCursor = none) : False := by
  subst hresult
  obtain ⟨last, -, hnext, hadvances⟩ := not_stuck hscan hmoves htruncated
  rcases hstuck with hsame | hnone
  · obtain ⟨-, hadvance⟩ := hadvances _ (hsame.symm.trans hnext)
    exact Paging.not_advances_self _ hadvance
  · rw [hnext] at hnone
    cases hnone

theorem countP_lt_length {event : List EventRow} {p : EventRow → Bool} {e : EventRow} (he : e ∈ event) (hp : p e = false) :
    event.countP p < event.length := by
  refine lt_of_le_of_ne List.countP_le_length fun heq => ?_
  rw [List.countP_eq_length.mp heq e he] at hp
  cases hp

theorem pageLaw {answered : Bool} (hmoves : Moves rules s (.collect answered))
    (hs' : s'.notifier = (s.collects rules answered).1) (hevent : s'.event = s.event) : PageLaw rules s s' answered := by
  have hspec := collects_spec rules s answered
  constructor
  · intro message hmessage
    generalize s.collects rules answered = r at hspec hs' hmessage
    cases hspec with
    | full => cases hmessage
    | unanswered scan hscan h => exact h
    | page => cases hmessage
    | last => cases hmessage
    | stuck scan hscan h result hresult htruncated hstuck =>
      subst h
      exact (stuck_absurd hscan hmoves hresult htruncated hstuck).elim
  · intro hanswered hroom
    generalize s.collects rules answered = r at hspec hs'
    cases hspec with
    | full h => exact absurd hroom h
    | unanswered _ _ h =>
      rw [h] at hanswered
      cases hanswered
    | stuck scan hscan h result hresult htruncated hstuck =>
      subst h
      exact (stuck_absurd hscan hmoves hresult htruncated hstuck).elim
    | last scan hscan h result hresult htruncated n' hn' =>
      left
      rw [hs', hn']
    | page scan hscan h result hresult htruncated next hnext n' hn' hmoves' =>
      right
      subst h hresult
      obtain ⟨last, hlast, hnext', hadvances⟩ := not_stuck hscan hmoves htruncated
      obtain rfl := Option.some.inj (hnext.symm.trans hnext')
      have hscan' : s'.notifier.scan.bind (·.after) = some ⟨toMs last.occurredAt, last.id⟩ := by
        rw [hs', hn']
        rfl
      unfold unread
      rw [hscan', hevent]
      have hself : ¬ Paging.Advances (sqlCursor ⟨toMs last.occurredAt, last.id⟩) (cursorOf last) :=
        Paging.not_advances_self _
      rcases hafter : scan.after with _ | c
      · have hbefore : s.notifier.scan.bind (·.after) = none := by
          rcases hsome : s.notifier.scan with _ | scan'
          · rfl
          · rw [hsome, Option.getD_some] at hscan
            rw [← hscan, Option.bind_some, hafter]
        rw [hbefore]
        exact countP_lt_length hlast (decide_eq_false hself)
      · obtain ⟨hsome, hadvance⟩ := hadvances c hafter
        have hbefore : s.notifier.scan.bind (·.after) = some c := by rw [hsome, Option.bind_some, hafter]
        rw [hbefore]
        exact Paging.countP_advances hadvance hlast rfl

theorem Inv.collect (h : Inv rules startFrom delivered s) {answered : Bool} (hmoves : Moves rules s (.collect answered))
    {notifier : Notifier} (hn : notifier = (s.collects rules answered).1) (returned : List String) :
    Inv rules startFrom delivered { s with notifier := notifier, returned := s.returned ++ returned } := by
  have hspec := collects_spec rules s answered
  have hreturned : ∀ k ∈ s.notificationDelivery, k ∈ delivered ∨ k ∈ s.returned ++ returned := fun k hk =>
    (h.skipped.returnedBefore k hk).imp_right fun hk => List.mem_append_left _ hk
  generalize s.collects rules answered = r at hspec hn
  cases hspec with
  | full =>
    subst hn
    exact ⟨h.ids, h.acked, h.punctual, h.skipped.accounted, hreturned⟩
  | unanswered scan hscan _ =>
    subst hn
    refine ⟨h.ids, h.acked, ?_, ?_, hreturned⟩
    · show scan.upTo * 1000 ≤ s.clock
      rw [hscan]
      exact upTo_le_clock h
    · intro e he hstart note hnote
      refine (h.skipped.accounted e he hstart note hnote).imp_right (Or.imp_right fun hahead => ?_)
      subst hscan
      exact ahead_begun (type_of_notification hnote) hahead _
  | stuck scan hscan hanswered result hresult htruncated hstuck =>
    subst hanswered
    exact (stuck_absurd hscan hmoves hresult htruncated hstuck).elim
  | page scan hscan hanswered result hresult htruncated next hnext n' hn' _ =>
    subst hn hn'
    refine ⟨h.ids, h.acked, ?_, ?_, hreturned⟩
    · show scan.upTo * 1000 ≤ s.clock
      rw [hscan]
      exact upTo_le_clock h
    · intro e he hstart note hnote
      rcases accounted_of_page h hscan hresult he hstart hnote with hdone | hkept | ⟨hselects, -, hbehind⟩ | hlater
      · exact .inl hdone
      · exact .inr (.inl hkept)
      · refine .inr (.inr (.inl ?_))
        rw [selects_page (type_of_notification hnote)] at hselects ⊢
        exact ⟨hselects.1, hselects.2.1, hnext ▸ hbehind⟩
      · exact .inr (.inr (.inr hlater))
  | last scan hscan hanswered result hresult htruncated n' hn' =>
    subst hn hn'
    refine ⟨h.ids, h.acked, ?_, ?_, hreturned⟩
    · have hle := upTo_le_clock h
      rw [← hscan] at hle
      right
      show (scan.upTo - 5000 + 5000) * 1000 ≤ s.clock
      omega
    · intro e he hstart note hnote
      rcases accounted_of_page h hscan hresult he hstart hnote with hdone | hkept | ⟨-, hmore, -⟩ | hlater
      · exact .inl hdone
      · exact .inr (.inl hkept)
      · rw [htruncated] at hmore
        cases hmore
      · exact .inr (.inr hlater)

theorem Inv.ack (h : Inv rules startFrom delivered s) {keys : List String} {fate : AckFate}
    (hnext : Next rules s (.ack keys fate) s') : Inv rules startFrom delivered s' := by
  obtain ⟨hreturned, hnext⟩ := Option.ite_none_right_eq_some.mp hnext
  have hkeys : ∀ k ∈ keys, k ∈ s.returned := by simpa using hreturned
  cases fate with
  | failed =>
    obtain rfl := Option.some.inj hnext
    exact h
  | lost =>
    obtain rfl := Option.some.inj hnext
    exact h.noted hkeys rfl rfl (fun _ hk => .inl hk) (fun _ hk => .inr hk)
  | stored =>
    obtain rfl := Option.some.inj hnext
    rcases keys with _ | ⟨key, keys⟩
    · exact h.noted hkeys rfl rfl (fun _ hk => .inl hk) (fun _ hk => .inr hk)
    · refine h.noted hkeys rfl rfl ?_ ?_
      · intro k hk
        have hk' : k ∈ if s.notifier.memoryLimit < ((key :: keys).foldl OrderedMap.addKey s.notifier.acked).length then []
            else (key :: keys).foldl OrderedMap.addKey s.notifier.acked := hk
        split_ifs at hk'
        · cases hk'
        · exact OrderedMap.mem_foldl_addKey.mp hk'
      · intro k hk
        by_cases hin : k ∈ key :: keys
        · exact .inl hin
        · exact .inr (mem_keys_noted.mpr ⟨hk, hin⟩)

theorem Inv.next {a : Action} (h : Inv rules startFrom delivered s) (hnext : Next rules s a s')
    (hmoves : Moves rules s a) : Inv rules startFrom delivered s' := by
  cases a with
  | appear e =>
    unfold Next act at hnext
    dsimp only at hnext
    split_ifs at hnext with hguard
    obtain rfl := Option.some.inj hnext
    exact h.appear hguard.1 hguard.2
  | tick d =>
    obtain rfl := Option.some.inj hnext
    exact h.tick d
  | collect answered =>
    obtain rfl := Option.some.inj hnext
    exact h.collect hmoves rfl _
  | ack keys fate => exact h.ack hnext

theorem Started.inv (h : Started startFrom s) : Inv rules startFrom s.notificationDelivery s := by
  obtain ⟨memoryLimit, hnotifier⟩ := h.notifier
  refine ⟨h.ids, ?_, ?_, ?_, fun k hk => .inl hk⟩
  · rw [hnotifier]
    exact List.forall_mem_nil _
  · rw [hnotifier]
    exact .inl (le_refl _)
  · intro e _ hstart note hnote
    refine .inr (.inr ?_)
    rw [hnotifier]
    exact (selects_since (type_of_notification hnote)).mpr hstart

end

/-- Over any run in which no full page ends where it started: nothing urgent is skipped, and no page is asked
for again and again. -/
theorem no_skip (rules : List Rule) (startFrom : ℤ) {s₀ s : System} {steps : List (Step System Action)}
    (hstarted : Started startFrom s₀) (hrun : Run (Next rules) s₀ steps s)
    (hmoves : ∀ e ∈ steps, Moves rules e.before e.action) :
    NoneSkipped rules startFrom s₀.notificationDelivery s ∧
      ∀ e ∈ steps, ∀ answered, e.action = .collect answered → PageLaw rules e.before e.after answered := by
  have hinv : Inv rules startFrom s₀.notificationDelivery s :=
    hrun.invariant_of (fun _ _ _ h hnext hcond => h.next hnext hcond) hstarted.inv hmoves
  refine ⟨hinv.skipped, fun e he answered hcollect => ?_⟩
  obtain ⟨_, _, -, -, hnext, -⟩ := hrun.split he
  have hmove := hmoves e he
  rw [hcollect] at hnext hmove
  have hafter : { e.before with
      notifier := (e.before.collects rules answered).1
      returned := e.before.returned ++ keysOf (e.before.collects rules answered).2 } = e.after := Option.some.inj hnext
  exact pageLaw hmove (by rw [← hafter]) (by rw [← hafter])

/-! What Core has confirmed is over. -/

/-- The key is noted, and the buffer does not hold it. -/
def Settled (k : String) (s : System) : Prop :=
  (0 < k.length → k ∈ s.notificationDelivery) ∧ k ∉ OrderedMap.keys s.notifier.pending

section
variable {rules : List Rule} {s s' : System} {k : String}

/-- A page has nothing of what is noted, and the buffer grows by pages only. -/
theorem settled_collects (h : Settled k s) (answered : Bool) :
    k ∉ OrderedMap.keys (s.collects rules answered).1.pending ∧ k ∉ keysOf (s.collects rules answered).2 := by
  have hpage : ∀ since page, k ∉ OrderedMap.keys (s.notifier.remember
      (pending rules s.event s.notificationDelivery (toMs s.clock) since true (some page)).notifications) := by
    intro since page hk
    rcases mem_keys_remember.mp hk with hold | ⟨-, note, hnote, rfl⟩
    · exact h.2 hold
    · have hfresh := (List.mem_filter.mp hnote).2
      simp [h.1 (key_pos note)] at hfresh
  have hbatch : ∀ n : Notifier, k ∉ OrderedMap.keys n.pending → k ∉ keysOf (.ok n.batch) := by
    intro n hn hk
    simp only [keysOf, Notifier.batch, List.map_map] at hk
    obtain ⟨e, he, rfl⟩ := List.mem_map.mp hk
    exact hn (List.mem_map_of_mem (List.mem_of_mem_take he))
  unfold System.collects Notifier.collect
  dsimp only
  split
  · cases answered with
    | false => exact ⟨h.2, List.not_mem_nil⟩
    | true =>
      simp only [System.core, if_true]
      split
      · split
        · exact ⟨hpage _ _, List.not_mem_nil⟩
        · split
          · exact ⟨hpage _ _, List.not_mem_nil⟩
          · exact ⟨hpage _ _, hbatch _ (hpage _ _)⟩
      · exact ⟨hpage _ _, hbatch _ (hpage _ _)⟩
  · exact ⟨h.2, hbatch _ h.2⟩

theorem Settled.next {a : Action} (h : Settled k s) (hnext : Next rules s a s') : Settled k s' := by
  cases a with
  | appear e =>
    unfold Next act at hnext
    dsimp only at hnext
    split_ifs at hnext
    obtain rfl := Option.some.inj hnext
    exact h
  | tick d =>
    obtain rfl := Option.some.inj hnext
    exact h
  | collect answered =>
    obtain rfl := Option.some.inj hnext
    exact ⟨h.1, (settled_collects h answered).1⟩
  | ack keys fate =>
    obtain ⟨-, hnext⟩ := Option.ite_none_right_eq_some.mp hnext
    have hnoted : 0 < k.length → k ∈ ack s.notificationDelivery keys := fun hpos => mem_ack.mpr (.inl (h.1 hpos))
    cases fate <;> obtain rfl := Option.some.inj hnext
    · refine ⟨hnoted, ?_⟩
      dsimp only
      split
      · exact h.2
      · exact fun hk => h.2 (mem_keys_noted.mp hk).1
    · exact ⟨hnoted, h.2⟩
    · exact h

end

/-- Once Core has confirmed that a key is delivered, no later call returns it. -/
theorem sent_once (rules : List Rule) {s₀ s₁ s : System} {keys : List String} {steps : List (Step System Action)}
    (hack : Next rules s₀ (.ack keys .stored) s₁) (hrun : Run (Next rules) s₁ steps s) :
    ∀ e ∈ steps, ∀ answered, e.action = .collect answered → ∀ k ∈ keys, k ∉ keysOf (e.before.collects rules answered).2 := by
  intro e he answered _ k hk
  have hsettled : Settled k s₁ := by
    obtain ⟨-, hack⟩ := Option.ite_none_right_eq_some.mp hack
    obtain rfl := Option.some.inj hack
    refine ⟨fun hpos => mem_ack.mpr (.inr ⟨hk, hpos⟩), ?_⟩
    dsimp only
    rw [if_neg (by simp [List.ne_nil_of_mem hk])]
    exact fun hkept => (mem_keys_noted.mp hkept).2 hk
  obtain ⟨_, _, -, hbefore, -, -⟩ := hrun.split he
  exact (settled_collects (hbefore.invariant (fun _ _ _ h hnext => h.next hnext) hsettled) answered).2

/-- A rule for every event of one type. -/
def everyEvent (urgency : NotifyUrgency) : Rule where
  id := "seen"
  eventType := "machine.down"
  urgency := urgency
  when := none
  format _ := some "Автомат не отвечает"

def eventAt (k : ℕ) (occurredAt : ℤ) : EventRow :=
  ⟨0x40008000000000000000 + k, "ourvend", "machine.down", .null, occurredAt⟩

def quietSystem (event : List EventRow) : System where
  clock := 60000000
  event := event
  notificationDelivery := []
  notifier := Notifier.new 0 5000
  returned := []

theorem started_quietSystem {event : List EventRow} (hids : (event.map EventRow.id).Nodup) : Started 0 (quietSystem event) :=
  ⟨⟨5000, rfl⟩, rfl, hids⟩

def firstKey : String := key 0x40008000000000000000 "seen"

/-- The first is sent, a second appears late, and the call after that fails. -/
def lateEvent : List Action :=
  [.collect true, .ack [firstKey] .stored, .tick 2000000, .appear (eventAt 1 58000000), .collect true, .collect false]

theorem no_skip_late : ∃ s steps, Run (Next [everyEvent .immediate]) (quietSystem [eventAt 0 59000000]) steps s ∧
    steps.map Step.action = lateEvent ∧ NoneSkipped [everyEvent .immediate] 0 [] s := by
  obtain ⟨r, hr⟩ : ∃ r, runEnabled (act [everyEvent .immediate]) (quietSystem [eventAt 0 59000000]) lateEvent = some r :=
    Option.isSome_iff_exists.mp (by decide +kernel)
  have hmoves : (runEnabled (act [everyEvent .immediate]) (quietSystem [eventAt 0 59000000]) lateEvent).all
      (fun r => r.1.all fun e => Moves [everyEvent .immediate] e.before e.action) = true := by decide +kernel
  rw [hr, Option.all_some, List.all_eq_true] at hmoves
  obtain ⟨hrun, hactions⟩ := run_runEnabled hr
  have hids : ([eventAt 0 59000000].map EventRow.id).Nodup := by decide
  have hlaw := no_skip [everyEvent .immediate] 0 (started_quietSystem hids) hrun fun e he => of_decide_eq_true (hmoves e he)
  exact ⟨r.2, r.1, hrun, hactions, hlaw.1⟩

def confirmedSystem : System := { quietSystem [eventAt 0 59000000] with
  notificationDelivery := ack [] [firstKey]
  notifier := (Notifier.new 0 5000).noted [firstKey]
  returned := [firstKey] }

/-- The event is still in the table, and is asked for again. -/
theorem sent_once_first : firstKey ∉ keysOf (confirmedSystem.collects [everyEvent .immediate] true).2 := by
  have hack : Next [everyEvent .immediate] { quietSystem [eventAt 0 59000000] with returned := [firstKey] }
      (.ack [firstKey] .stored) confirmedSystem := by
    unfold Next act
    refine if_pos ?_
    decide +kernel
  have hasked : Next [everyEvent .immediate] confirmedSystem (.collect true) _ := rfl
  exact sent_once _ hack (Run.start.step hasked) _ (List.mem_singleton_self _) true rfl firstKey (List.mem_singleton_self _)

/-- 501 events within one millisecond. -/
def burst : List EventRow := (List.range 501).map fun k => eventAt k 1500

def sticks : Except String (List PendingNote) → Bool
  | .error message => message == "Core не продвинул notification cursor"
  | .ok _ => false

/-- The second page begins with the first event of the millisecond again and ends where the first did. -/
theorem not_always_noSkip : ¬ ∀ rules startFrom s₀ s steps, Started startFrom s₀ → Run (Next rules) s₀ steps s →
    NoneSkipped rules startFrom s₀.notificationDelivery s ∧
      ∀ e ∈ steps, ∀ answered, e.action = .collect answered → PageLaw rules e.before e.after answered := by
  intro h
  obtain ⟨r, hr⟩ : ∃ r, runEnabled (act [everyEvent .briefing]) (quietSystem burst) [.collect true, .collect true] = some r :=
    Option.isSome_iff_exists.mp (by decide +kernel)
  have hids : (burst.map EventRow.id).Nodup := by
    unfold burst
    rw [List.map_map]
    refine List.nodup_range.map fun k k' hk => ?_
    exact Nat.add_left_cancel hk
  obtain ⟨hrun, hactions⟩ := run_runEnabled hr
  have hlaw := (h _ _ _ _ _ (started_quietSystem hids) hrun).2
  have hsticks : (runEnabled (act [everyEvent .briefing]) (quietSystem burst) [.collect true, .collect true]).all
      (fun r => r.1.any fun e => sticks (e.before.collects [everyEvent .briefing] true).2) = true := by decide +kernel
  rw [hr, Option.all_some, List.any_eq_true] at hsticks
  obtain ⟨e, he, hstuck⟩ := hsticks
  have hcollect : e.action = .collect true := by
    have hmem := List.mem_map_of_mem (f := Step.action) he
    rw [hactions] at hmem
    simpa using hmem
  have hpage := hlaw e he true hcollect
  unfold sticks at hstuck
  split at hstuck
  · rename_i message hmessage
    exact absurd (hpage.error message hmessage) (by decide)
  · cases hstuck

end Mydon.Notify
