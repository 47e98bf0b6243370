import Mydon.Issues.Lifecycle

/-! What one call of a projection does with each issue, and what the calls and the people who work
on the tasks keep. -/

namespace Mydon.Issues

open Mydon.Lib
open Js (Json HttpError)
open Lib.Matching (Plan Rules)
open Tasks (EventRow)

variable {K α ρ : Type} [DecidableEq K]

/-- The row of an issue after a call that was not late. -/
inductive Moved (R : Rules (K × String) (Observation K α) (ExistingIssue K) ρ) (relevant : IssueRow K → Bool)
    (observations : List (Observation K α)) (now : ℤ) (d : Desk K) (i : IssueRow K) : IssueRow K → Prop
  | unread (h : relevant i = false) : Moved R relevant observations now d i i
  | left (e : ExistingIssue K) (he : e ∈ d.existing relevant) (hread : ReadOf d i e) (hfree : ∀ o ∈ observations, R.keyOf o ≠ (i.kind, i.fingerprint))
      (hopen : i.status = .open → R.verdict e = none) : Moved R relevant observations now d i i
  | refreshed (e : ExistingIssue K) (o : Observation K α) (he : e ∈ d.existing relevant) (hread : ReadOf d i e) (ho : o ∈ R.current observations)
      (hkey : R.keyOf o = (i.kind, i.fingerprint)) (hover : e.isOver = false) :
      Moved R relevant observations now d i (refreshedIssue (R.merge o e) now i)
  | reopened (e : ExistingIssue K) (o : Observation K α) (he : e ∈ d.existing relevant) (hread : ReadOf d i e) (ho : o ∈ R.current observations)
      (hkey : R.keyOf o = (i.kind, i.fingerprint)) (hover : e.isOver = true) :
      Moved R relevant observations now d i (reopenedIssue (R.merge o e) (i.episode + 1) now i)
  | resolved (e : ExistingIssue K) (r : ρ) (he : e ∈ d.existing relevant) (hread : ReadOf d i e)
      (hfree : ∀ o ∈ observations, R.keyOf o ≠ (i.kind, i.fingerprint)) (hopen : i.status = .open)
      (hverdict : R.verdict e = some r) : Moved R relevant observations now d i (resolvedIssue now i)

section
variable {d d' : Desk K} {w : Wording K α ρ} {ids : NewIds K} {now at_ : ℤ} {host : Js.Host} {r : ReconcileResult}
  {R : Rules (K × String) (Observation K α) (ExistingIssue K) ρ} {relevant : IssueRow K → Bool}
  {observations : List (Observation K α)} {i i' : IssueRow K}

theorem Moved.id (h : Moved R relevant observations now d i i') : i'.id = i.id := by
  rcases h with _ | _ | _ | _ | _ <;> rfl

theorem Moved.taskId (h : Moved R relevant observations now d i i') : i'.taskId = i.taskId := by
  rcases h with _ | _ | _ | _ | _ <;> rfl

theorem Moved.key (h : Moved R relevant observations now d i i') : i'.kind = i.kind ∧ i'.fingerprint = i.fingerprint := by
  rcases h with _ | _ | _ | _ | _ <;> exact ⟨rfl, rfl⟩

omit [DecidableEq K] in
theorem ReadOf.isOpen {e : ExistingIssue K} (h : ReadOf d i e) : e.isOpen = true ↔ i.status = .open := by
  unfold ExistingIssue.isOpen
  rw [h.status, decide_eq_true_iff]

omit [DecidableEq K] in
/-- The record that has the id of an issue was read from it. -/
theorem readOf_of_id (hk : Keyed d) {e : ExistingIssue K} (he : e ∈ d.existing relevant) (hi : i ∈ d.issues)
    (hid : e.id = i.id) : ReadOf d i e := by
  obtain ⟨i', hi', _, hread⟩ := mem_existing he
  rwa [Table.eq_of_key_eq hk.issueIds hi hi' (hid.symm.trans hread.id)]

omit [DecidableEq K] in
theorem ReadOf.key (hR : Matches R) {e : ExistingIssue K} (h : ReadOf d i e) : R.recordKey e = (i.kind, i.fingerprint) := by
  rw [hR.record, h.kind, h.fingerprint]

/-- A record that is observed is refreshed or reopened. -/
theorem taken_of_observed (hR : Matches R) (hk : Keyed d) {e : ExistingIssue K} (he : e ∈ d.existing relevant)
    {o : Observation K α} (ho : o ∈ observations) (hkey : R.keyOf o = R.recordKey e) :
    e ∈ taken (R.plan observations (d.existing relevant)) := by
  have hrecords := nodup_records relevant hR hk
  obtain ⟨o', ho', hko'⟩ := List.mem_map.mp (Rules.key_mem_current (R := R) ho)
  unfold taken
  rcases hover : R.isOver e with _ | _
  · have hmem : (e, R.merge o' e) ∈ (R.plan observations (d.existing relevant)).refresh :=
      (Rules.mem_refresh hrecords).mpr ⟨o', ho', he, (hko'.trans hkey).symm, hover, rfl⟩
    exact List.mem_append_left _ (List.mem_append_left _ (List.mem_map_of_mem hmem))
  · have hmem : (e, R.merge o' e) ∈ (R.plan observations (d.existing relevant)).reopen :=
      (Rules.mem_reopen hrecords).mpr ⟨o', ho', he, (hko'.trans hkey).symm, hover, rfl⟩
    exact List.mem_append_left _ (List.mem_append_right _ (List.mem_map_of_mem hmem))

/-- The change of an issue is the one of the list that took its record. -/
theorem moved_changed (hR : Matches R) (hk : Keyed d) (hi : i ∈ d.issues) : Moved R relevant observations now d i
    (Table.changed IssueRow.id (issueChanges (R.plan observations (d.existing relevant)) now) i) := by
  have hrecords := nodup_records relevant hR hk
  rcases Table.changed_cases IssueRow.id (issueChanges (R.plan observations (d.existing relevant)) now) i with
    ⟨hsame, hnot⟩ | ⟨c, hc, hid, hchange⟩
  · rw [hsame]
    rcases hrel : relevant i with _ | _
    · exact .unread hrel
    · obtain ⟨e, he, hread⟩ := exists_existing hk hi hrel
      have hfree : e ∉ taken (R.plan observations (d.existing relevant)) := by
        intro htaken
        rw [keys_issueChanges] at hnot
        exact hnot (List.mem_map.mpr ⟨e, htaken, hread.id⟩)
      have hunobserved : ∀ o ∈ observations, R.keyOf o ≠ R.recordKey e := fun o ho hkey =>
        hfree (taken_of_observed hR hk he ho hkey)
      refine .left e he hread (hread.key hR ▸ hunobserved) fun hopen => ?_
      rcases hv : R.verdict e with _ | r
      · rfl
      · refine absurd (List.mem_append_right _ (List.mem_map.mpr ⟨(e, r), ?_, rfl⟩)) hfree
        exact (Rules.mem_resolve hrecords).mpr ⟨he, hunobserved, by rw [hR.isOpen]; exact hread.isOpen.mpr hopen, hv⟩
  · rw [hchange]
    unfold issueChanges at hc
    simp only [List.mem_append, List.mem_map] at hc
    rcases hc with (⟨⟨e, o'⟩, ht, rfl⟩ | ⟨⟨e, o'⟩, ht, rfl⟩) | ⟨⟨e, r⟩, ht, rfl⟩
    · obtain ⟨o, ho, he, hkey, hover, rfl⟩ := (Rules.mem_refresh hrecords).mp ht
      have hread := readOf_of_id hk he hi hid
      exact .refreshed e o he hread ho (hkey.symm.trans (hread.key hR)) (by rw [← hR.isOver, hover])
    · obtain ⟨o, ho, he, hkey, hover, rfl⟩ := (Rules.mem_reopen hrecords).mp ht
      have hread := readOf_of_id hk he hi hid
      rw [hread.episode]
      exact .reopened e o he hread ho (hkey.symm.trans (hread.key hR)) (by rw [← hR.isOver, hover])
    · obtain ⟨he, hfree, hopen, hv⟩ := (Rules.mem_resolve hrecords).mp ht
      have hread := readOf_of_id hk he hi hid
      rw [hR.isOpen] at hopen
      exact .resolved e r he hread (hread.key hR ▸ hfree) (hread.isOpen.mp hopen) hv

/-! The lists of a plan. -/

/-- Where a plan puts the observations it counts and the open issues that it does not observe. -/
structure PlanLaw (merge : Observation K α → ExistingIssue K → Observation K α) (observations : List (Observation K α))
    (existing : List (ExistingIssue K)) (p : Plan (Observation K α) (ExistingIssue K) ρ) : Prop where
  /-- The identity of an observation is in one of three lists, once. -/
  placed : ∀ o ∈ observations, (p.create.map (fun o => (o.kind, o.fingerprint)) ++
    p.refresh.map (fun t => (t.1.kind, t.1.fingerprint)) ++
    p.reopen.map fun t => (t.1.kind, t.1.fingerprint)).count (o.kind, o.fingerprint) = 1
  /-- The observation itself is, where no other one has its identity. -/
  taken : ∀ o ∈ observations, (∀ o' ∈ observations, o'.kind = o.kind → o'.fingerprint = o.fingerprint → o' = o) →
    o ∈ p.create ∨ (∃ e ∈ existing, (e, merge o e) ∈ p.refresh) ∨ ∃ e ∈ existing, (e, merge o e) ∈ p.reopen
  left : ∀ e ∈ existing, e.status = .open →
    (∀ o ∈ observations, ¬ (o.kind = e.kind ∧ o.fingerprint = e.fingerprint)) →
    ((p.resolve.map Prod.fst ++ p.retained).map fun e => (e.kind, e.fingerprint)).count (e.kind, e.fingerprint) = 1 ∧
      ((∃ r, (e, r) ∈ p.resolve) ∨ e ∈ p.retained)

theorem planLaw {existing : List (ExistingIssue K)} (hR : Matches R)
    (hrecords : (existing.map fun e => (e.kind, e.fingerprint)).Nodup) :
    PlanLaw R.merge observations existing (R.plan observations existing) := by
  have hkeys : R.recordKey = fun e => (e.kind, e.fingerprint) := funext hR.record
  have hkeyOf : R.keyOf = fun o => (o.kind, o.fingerprint) := funext hR.observation
  rw [← hkeys] at hrecords
  refine ⟨fun o ho => ?_, fun o ho honly => ?_, fun e he hopen hfree => ?_⟩
  · have hcount : ((R.plan observations existing).create.map R.keyOf ++
        ((R.plan observations existing).refresh.map fun t => R.recordKey t.1) ++
        (R.plan observations existing).reopen.map fun t => R.recordKey t.1).count (R.keyOf o) = 1 := Rules.count_placed ho
    simp only [hkeys, hkeyOf] at hcount
    exact hcount
  · obtain ⟨o', ho', hko'⟩ := List.mem_map.mp (Rules.key_mem_current (R := R) ho)
    have hsame : o' = o := by
      rw [hkeyOf, Prod.mk.injEq] at hko'
      exact honly o' (Rules.mem_current ho') hko'.1 hko'.2
    subst hsame
    by_cases hknown : ∃ e ∈ existing, R.recordKey e = R.keyOf o'
    · obtain ⟨e, he, hke⟩ := hknown
      rcases hover : R.isOver e with _ | _
      · exact .inr (.inl ⟨e, he, (Rules.mem_refresh hrecords).mpr ⟨o', ho', he, hke, hover, rfl⟩⟩)
      · exact .inr (.inr ⟨e, he, (Rules.mem_reopen hrecords).mpr ⟨o', ho', he, hke, hover, rfl⟩⟩)
    · exact .inl ((Rules.mem_create hrecords).mpr ⟨ho', fun e he hke => hknown ⟨e, he, hke⟩⟩)
  · have hopen' : R.isOpen e = true := by
      rw [hR.isOpen]
      exact decide_eq_true hopen
    have hfree' : ∀ o ∈ observations, R.keyOf o ≠ R.recordKey e := by
      intro o ho hko
      rw [hkeys, hkeyOf, Prod.mk.injEq] at hko
      exact hfree o ho hko
    refine ⟨?_, ?_⟩
    · have hcount := Rules.count_left hrecords he hopen' hfree'
      simp only [hkeys] at hcount
      exact hcount
    · rcases hv : R.verdict e with _ | r
      · exact .inr ((Rules.mem_retained hrecords).mpr ⟨he, hfree', hopen', hv⟩)
      · exact .inl ⟨r, (Rules.mem_resolve hrecords).mpr ⟨he, hfree', hopen', hv⟩⟩

/-- The rows after an accepted call. -/
structure Accepted (host : Js.Host) (w : Wording K α ρ) (R : Rules (K × String) (Observation K α) (ExistingIssue K) ρ)
    (relevant : IssueRow K → Bool) (observations : List (Observation K α)) (ids : NewIds K) (now at_ : ℤ)
    (d d' : Desk K) : Prop where
  issues : d'.issues = d.issues.map (Table.changed IssueRow.id (issueChanges (R.plan observations (d.existing relevant)) now)) ++
    (R.plan observations (d.existing relevant)).create.map (newIssue ids now)
  tasks : d'.tasks = d.tasks.map
      (Table.changed (fun t : TaskRow => t.id) (taskChanges w (R.plan observations (d.existing relevant)) now)) ++
    (R.plan observations (d.existing relevant)).create.map (newTask w ids now)
  events : d'.events = insertEvent (insertEvent d.events (openedEventRow host w
      (openedItems w ids (R.plan observations (d.existing relevant)))
      (R.plan observations (d.existing relevant)).reopen.length at_))
    (resolvedEventRow host w (resolvedItems (R.plan observations (d.existing relevant))) at_)
  watermark : d'.watermark = some now
  keyed : Keyed d'

theorem reconcile_eq_ok {observed : ℕ} (hR : Matches R) (hk : Keyed d)
    (h : d.reconcile host w observed (R.plan observations) relevant ids now at_ = .ok (r, d')) :
    (d.watermark.any (now ≤ ·) = true ∧ r.staleSkipped = true ∧ d' = d) ∨
      d.watermark.any (now ≤ ·) = false ∧ r.staleSkipped = false ∧
        Accepted host w R relevant observations ids now at_ d d' := by
  unfold Desk.reconcile at h
  split_ifs at h with hlate
  · cases h
    exact .inl ⟨hlate, rfl, rfl⟩
  · obtain ⟨carried, hcarried, h⟩ := Js.bind_eq_ok.mp h
    cases h
    have hc := carryOut_eq_ok hR hk hcarried
    refine .inr ⟨by simpa using hlate, rfl, hc.issues, hc.tasks, ?_, rfl, ?_⟩
    · dsimp only
      rw [hc.events]
    · exact ⟨hc.keyed.issueIds, hc.keyed.keys, hc.keyed.taskIds, hc.keyed.tasks, hc.keyed.linked⟩

/-! The rows of an accepted call. -/

variable (h : Accepted host w R relevant observations ids now at_ d d') (hR : Matches R) (hk : Keyed d)

include h hR hk in
theorem Accepted.issue_of_mem (hi' : i' ∈ d'.issues) : (∃ i ∈ d.issues, Moved R relevant observations now d i i') ∨
      ∃ o ∈ R.current observations, o ∈ (R.plan observations (d.existing relevant)).create ∧ i' = newIssue ids now o := by
  rw [h.issues] at hi'
  rcases List.mem_append.mp hi' with hi' | hi'
  · obtain ⟨i, hi, rfl⟩ := List.mem_map.mp hi'
    exact .inl ⟨i, hi, moved_changed hR hk hi⟩
  · obtain ⟨o, ho, rfl⟩ := List.mem_map.mp hi'
    exact .inr ⟨o, ((Rules.mem_create (nodup_records relevant hR hk)).mp ho).1, ho, rfl⟩

include h hR hk in
/-- Every issue is still there, moved. -/
theorem Accepted.exists_moved (hi : i ∈ d.issues) : ∃ i' ∈ d'.issues, Moved R relevant observations now d i i' := by
  refine ⟨_, ?_, moved_changed hR hk hi⟩
  rw [h.issues]
  exact List.mem_append_left _ (List.mem_map_of_mem hi)

include h hR hk in
theorem Accepted.moved (hi : i ∈ d.issues) (hi' : i' ∈ d'.issues) (hid : i'.id = i.id) : Moved R relevant observations now d i i' := by
  obtain ⟨i'', hi'', hmoved⟩ := h.exists_moved hR hk hi
  rwa [Table.eq_of_key_eq h.keyed.issueIds hi' hi'' (hid.trans hmoved.id.symm)]

include h hR hk in
/-- A task after the call: as it was, the one of an issue, or the one of an observation. -/
theorem Accepted.task_of_mem {t' : TaskRow} (ht' : t' ∈ d'.tasks) : t' ∈ d.tasks ∨ ∃ i ∈ d'.issues, i.taskId = t'.id := by
  rw [h.tasks] at ht'
  rcases List.mem_append.mp ht' with ht' | ht'
  · obtain ⟨t, ht, rfl⟩ := List.mem_map.mp ht'
    rcases Table.changed_cases (fun t : TaskRow => t.id) (taskChanges w (R.plan observations (d.existing relevant)) now) t
      with ⟨hsame, _⟩ | ⟨c, hc, hid, hchange⟩
    · rw [hsame]
      exact .inl ht
    · have hmem : t.id ∈ (taken (R.plan observations (d.existing relevant))).map ExistingIssue.taskId := by
        rw [← keys_taskChanges, ← hid]
        exact List.mem_map_of_mem hc
      obtain ⟨e, he, het⟩ := List.mem_map.mp hmem
      obtain ⟨i, hi, _, hread⟩ := mem_existing (taken_existing hR hk he)
      obtain ⟨i', hi', hmoved⟩ := h.exists_moved hR hk hi
      refine .inr ⟨i', hi', ?_⟩
      rw [hmoved.taskId, ← hread.taskId, het, hchange, taskChanges_key hc]
  · obtain ⟨o, ho, rfl⟩ := List.mem_map.mp ht'
    refine .inr ⟨newIssue ids now o, ?_, rfl⟩
    rw [h.issues]
    exact List.mem_append_right _ (List.mem_map_of_mem ho)

/-! The rows that the lists of the plan stand for. -/

theorem nodup_issueChanges (hR : Matches R) (hk : Keyed d) :
    ((issueChanges (R.plan observations (d.existing relevant)) now).map Prod.fst).Nodup := by
  rw [keys_issueChanges]
  exact taken_map_nodup hR hk (nodup_existing ExistingIssue.id IssueRow.id (fun _ _ h => h.id) hk.issueIds)

include h hR hk in
/-- What a change makes of its issue is there after the call. -/
theorem Accepted.change_mem {f : IssueRow K → IssueRow K} (hi : i ∈ d.issues)
    (hc : (i.id, f) ∈ issueChanges (R.plan observations (d.existing relevant)) now) : f i ∈ d'.issues := by
  rw [h.issues]
  refine List.mem_append_left _ (List.mem_map.mpr ⟨i, hi, ?_⟩)
  exact Table.changed_of_mem (nodup_issueChanges hR hk) hc rfl

include h in
theorem Accepted.created {o : Observation K α}
    (ho : o ∈ (R.plan observations (d.existing relevant)).create) :
    newIssue ids now o ∈ d'.issues ∧ ∀ i ∈ d.issues, ¬ (i.kind = o.kind ∧ i.fingerprint = o.fingerprint) := by
  have hmem : newIssue ids now o ∈ (R.plan observations (d.existing relevant)).create.map (newIssue ids now) :=
    List.mem_map_of_mem ho
  refine ⟨h.issues ▸ List.mem_append_right _ hmem, fun i hi hkey => ?_⟩
  have hkeys := h.keyed.keys
  rw [h.issues, List.map_append, List.nodup_append] at hkeys
  refine hkeys.2.2 (i.kind, i.fingerprint) ?_ (o.kind, o.fingerprint) (List.mem_map.mpr ⟨_, hmem, rfl⟩) ?_
  · refine List.mem_map.mpr ⟨_, List.mem_map_of_mem hi, ?_⟩
    exact changed_key (fun i : IssueRow K => (i.kind, i.fingerprint))
      (fun c hc i => by rw [(issueChanges_key hc i).2.2.1, (issueChanges_key hc i).2.2.2]) i
  · rw [hkey.1, hkey.2]

include h hR hk in
theorem Accepted.reopened {e : ExistingIssue K} {o' : Observation K α} (ht : (e, o') ∈ (R.plan observations (d.existing relevant)).reopen) :
    ∃ i ∈ d.issues, ReadOf d i e ∧ reopenedIssue o' (i.episode + 1) now i ∈ d'.issues ∧
      ∃ o, o.kind = i.kind ∧ o' = R.merge o e := by
  obtain ⟨o, _, he, hkey, _, rfl⟩ := (Rules.mem_reopen (nodup_records relevant hR hk)).mp ht
  obtain ⟨i, hi, _, hread⟩ := mem_existing he
  have hkind := hkey.symm.trans (hread.key hR)
  rw [hR.observation, Prod.mk.injEq] at hkind
  refine ⟨i, hi, hread, h.change_mem hR hk hi ?_, o, hkind.1, rfl⟩
  unfold issueChanges
  refine List.mem_append_left _ (List.mem_append_right _ (List.mem_map.mpr ⟨_, ht, ?_⟩))
  rw [hread.id, hread.episode]

include h hR hk in
theorem Accepted.resolved {e : ExistingIssue K} {r : ρ} (ht : (e, r) ∈ (R.plan observations (d.existing relevant)).resolve) :
    ∃ i ∈ d.issues, ReadOf d i e ∧ i.status = .open ∧ resolvedIssue now i ∈ d'.issues := by
  obtain ⟨he, _, hopen, _⟩ := (Rules.mem_resolve (nodup_records relevant hR hk)).mp ht
  obtain ⟨i, hi, _, hread⟩ := mem_existing he
  rw [hR.isOpen] at hopen
  refine ⟨i, hi, hread, hread.isOpen.mp hopen, h.change_mem hR hk hi ?_⟩
  unfold issueChanges
  refine List.mem_append_right _ (List.mem_map.mpr ⟨_, ht, ?_⟩)
  rw [hread.id]

/-! Their tasks. -/

theorem nodup_taskChanges (hR : Matches R) (hk : Keyed d) :
    ((taskChanges w (R.plan observations (d.existing relevant)) now).map Prod.fst).Nodup := by
  rw [keys_taskChanges]
  exact taken_map_nodup hR hk (nodup_existing ExistingIssue.taskId IssueRow.taskId (fun _ _ h => h.taskId) hk.taskIds)

include h hR hk in
theorem Accepted.task_mem {t : TaskRow} {f : TaskRow → TaskRow} (ht : t ∈ d.tasks)
    (hc : (t.id, f) ∈ taskChanges w (R.plan observations (d.existing relevant)) now) : f t ∈ d'.tasks := by
  rw [h.tasks]
  refine List.mem_append_left _ (List.mem_map.mpr ⟨t, ht, ?_⟩)
  exact Table.changed_of_mem (nodup_taskChanges hR hk) hc rfl

include h in
/-- A task keeps its status, is done, or is taken up again with the issue that is reopened. -/
theorem Accepted.task_status {t t' : TaskRow}
    (ht : t ∈ d.tasks) (ht' : t' ∈ d'.tasks) (hid : t'.id = t.id) :
    t'.status = t.status ∨ t'.status = .done ∨
      ∃ e o', (e, o') ∈ (R.plan observations (d.existing relevant)).reopen ∧ e.taskId = t.id := by
  have hrow : t' = Table.changed (fun t : TaskRow => t.id) (taskChanges w (R.plan observations (d.existing relevant)) now)
      t := by
    refine Table.eq_of_key_eq h.keyed.tasks ht' (h.tasks ▸ List.mem_append_left _ (List.mem_map_of_mem ht)) ?_
    exact hid.trans (changed_key (fun t : TaskRow => t.id) (fun c hc t => taskChanges_key hc t) t).symm
  rw [hrow]
  rcases Table.changed_cases (fun t : TaskRow => t.id) (taskChanges w (R.plan observations (d.existing relevant)) now) t
    with ⟨hsame, _⟩ | ⟨c, hc, hct, hchange⟩
  · exact .inl (by rw [hsame])
  · rw [hchange]
    unfold taskChanges at hc
    simp only [List.mem_append, List.mem_map] at hc
    rcases hc with (⟨x, _, rfl⟩ | ⟨⟨e, o'⟩, hx, rfl⟩) | ⟨x, _, rfl⟩
    · exact .inl rfl
    · exact .inr (.inr ⟨e, o', hx, hct⟩)
    · exact .inr (.inl rfl)

end

end Mydon.Issues
