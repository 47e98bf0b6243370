import Mydon.Issues.Projection

/-! What a call of a projection leaves of every issue and of every task. -/

namespace Mydon.Issues

open Mydon.Lib
open Js (Json HttpError)
open Lib.Matching (Plan Rules)
open Tasks (EventRow)

variable {K α ρ : Type}

/-- The unique keys of the tables, and the task of every issue. -/
structure Keyed (d : Desk K) : Prop where
  issueIds : (d.issues.map IssueRow.id).Nodup
  keys : (d.issues.map fun i => (i.kind, i.fingerprint)).Nodup
  taskIds : (d.issues.map IssueRow.taskId).Nodup
  tasks : (d.tasks.map fun t => t.id).Nodup
  linked : ∀ i ∈ d.issues, ∃ t ∈ d.tasks, t.id = i.taskId

/-- The rules match kinds with fingerprints. -/
structure Matches (R : Rules (K × String) (Observation K α) (ExistingIssue K) ρ) : Prop where
  observation : ∀ o, R.keyOf o = (o.kind, o.fingerprint)
  record : ∀ i, R.recordKey i = (i.kind, i.fingerprint)
  isOpen : R.isOpen = ExistingIssue.isOpen
  isOver : R.isOver = ExistingIssue.isOver

section
variable {d d' : Desk K} {w : Wording K α ρ} {ids : NewIds K} {now : ℤ}
  {R : Rules (K × String) (Observation K α) (ExistingIssue K) ρ} {relevant : IssueRow K → Bool}
  {observations : List (Observation K α)} {p : Plan (Observation K α) (ExistingIssue K) ρ}

/-! Reading. -/

/-- The issue as it was read with its task. -/
structure ReadOf (d : Desk K) (i : IssueRow K) (e : ExistingIssue K) : Prop where
  id : e.id = i.id
  taskId : e.taskId = i.taskId
  kind : e.kind = i.kind
  fingerprint : e.fingerprint = i.fingerprint
  scopeKey : e.scopeKey = i.scopeKey
  status : e.status = i.status
  episode : e.episode = i.episode
  payload : e.payload = i.payload
  task : ∃ t ∈ d.tasks, t.id = i.taskId ∧ e.taskStatus = t.status

theorem mem_existing {e : ExistingIssue K} (h : e ∈ d.existing relevant) :
    ∃ i ∈ d.issues, relevant i = true ∧ ReadOf d i e := by
  obtain ⟨i, hi, he⟩ := List.mem_filterMap.mp h
  obtain ⟨hi, hrel⟩ := List.mem_filter.mp hi
  obtain ⟨t, ht, rfl⟩ := Option.map_eq_some_iff.mp he
  exact ⟨i, hi, hrel, rfl, rfl, rfl, rfl, rfl, rfl, rfl, rfl, t, List.mem_of_find?_eq_some ht,
    by simpa using List.find?_some ht, rfl⟩

theorem exists_existing (hk : Keyed d) {i : IssueRow K} (hi : i ∈ d.issues) (hrel : relevant i = true) :
    ∃ e ∈ d.existing relevant, ReadOf d i e := by
  obtain ⟨t, ht, htask⟩ := hk.linked i hi
  have hfind : Table.lookup (fun t : TaskRow => t.id) d.tasks i.taskId = some t :=
    (Table.lookup_eq_some_iff hk.tasks).mpr ⟨ht, htask⟩
  refine ⟨_, List.mem_filterMap.mpr ⟨i, List.mem_filter.mpr ⟨hi, hrel⟩, Option.map_eq_some_iff.mpr ⟨t, hfind, rfl⟩⟩,
    rfl, rfl, rfl, rfl, rfl, rfl, rfl, rfl, t, ht, htask, rfl⟩

/-- What is read of each issue once is read of the table once. -/
theorem nodup_existing {β : Type} (f : ExistingIssue K → β) (g : IssueRow K → β)
    (hsame : ∀ i e, ReadOf d i e → f e = g i) (hnd : (d.issues.map g).Nodup) : ((d.existing relevant).map f).Nodup := by
  refine List.Nodup.sublist ?_ hnd
  refine List.Sublist.trans ?_ ((List.filter_sublist (p := relevant)).map g)
  unfold Desk.existing
  generalize d.issues.filter relevant = rows
  induction rows with
  | nil => exact .slnil
  | cons i rows ih =>
    rcases hf : d.tasks.find? (·.id = i.taskId) with _ | t
    · rw [List.filterMap_cons_none (by simp only [hf, Option.map_none])]
      exact ih.trans (List.sublist_cons_self _ _)
    · rw [List.filterMap_cons_some (by simp only [hf, Option.map_some]; rfl), List.map_cons, List.map_cons]
      rw [hsame i _ ⟨rfl, rfl, rfl, rfl, rfl, rfl, rfl, rfl, t, List.mem_of_find?_eq_some hf,
        by simpa using List.find?_some hf, rfl⟩]
      exact ih.cons_cons _

variable (relevant) in
theorem nodup_records (hR : Matches R) (hk : Keyed d) : ((d.existing relevant).map R.recordKey).Nodup := by
  refine nodup_existing _ (fun i => (i.kind, i.fingerprint)) (fun i e h => ?_) hk.keys
  rw [hR.record, h.kind, h.fingerprint]

/-! Carrying out. -/

def issueChanges (p : Plan (Observation K α) (ExistingIssue K) ρ) (now : ℤ) :
    List (String × (IssueRow K → IssueRow K)) :=
  p.refresh.map (fun t => (t.1.id, refreshedIssue t.2 now)) ++
    p.reopen.map (fun t => (t.1.id, reopenedIssue t.2 (t.1.episode + 1) now)) ++
    p.resolve.map fun t => (t.1.id, resolvedIssue now)

def taskChanges (w : Wording K α ρ) (p : Plan (Observation K α) (ExistingIssue K) ρ) (now : ℤ) :
    List (String × (TaskRow → TaskRow)) :=
  p.refresh.map (fun t => (t.1.taskId, refreshedTask w t.2)) ++
    p.reopen.map (fun t => (t.1.taskId, reopenedTask w t.2 (w.reopenOwner t.1) (issueDue now))) ++
    p.resolve.map fun t => (t.1.taskId, resolvedTask w t.2 now)

def newIssue (ids : NewIds K) (now : ℤ) (o : Observation K α) : IssueRow K :=
  createdIssue o (ids.issueId o.kind o.fingerprint) (ids.taskId o.kind o.fingerprint) now

def newTask (w : Wording K α ρ) (ids : NewIds K) (now : ℤ) (o : Observation K α) : TaskRow :=
  createdTask w o (ids.taskId o.kind o.fingerprint) (issueDue now)

theorem map_append_singleton_nodup {ρ' β : Type} {f : ρ' → β} {rows : List ρ'} {row : ρ'}
    (hnd : (rows.map f).Nodup) (hnew : ∀ r ∈ rows, f r ≠ f row) : ((rows ++ [row]).map f).Nodup := by
  rw [List.map_append, List.map_singleton, ← List.concat_eq_append]
  refine hnd.concat fun hmem => ?_
  obtain ⟨r, hr, hf⟩ := List.mem_map.mp hmem
  exact hnew r hr hf

theorem create_eq_ok [DecidableEq K] {o : Observation K α} (hk : Keyed d) (h : d.create w ids now o = .ok d') :
    Keyed d' ∧ d' = { d with
      tasks := d.tasks ++ [newTask w ids now o]
      issues := d.issues ++ [newIssue ids now o] } ∧
      (∀ i ∈ d.issues, i.id ≠ (newIssue ids now o).id) ∧ ∀ t ∈ d.tasks, t.id ≠ (newTask w ids now o).id := by
  unfold Desk.create at h
  simp only [Js.bind_eq_ok, Js.require_eq_ok] at h
  obtain ⟨_, htasks, _, hissues, h⟩ := h
  cases h
  refine ⟨⟨map_append_singleton_nodup hk.issueIds fun i hi => (hissues i hi).1,
    map_append_singleton_nodup hk.keys fun i hi hsame => (hissues i hi).2.1 (Prod.mk.inj hsame),
    map_append_singleton_nodup hk.taskIds fun i hi => (hissues i hi).2.2,
    map_append_singleton_nodup hk.tasks fun t ht => (htasks t ht).1, fun i hi => ?_⟩, rfl,
    fun i hi => (hissues i hi).1, fun t ht => (htasks t ht).1⟩
  rcases List.mem_append.mp hi with hi | hi
  · obtain ⟨t, ht, hid⟩ := hk.linked i hi
    exact ⟨t, List.mem_append_left _ ht, hid⟩
  · rw [List.mem_singleton.mp hi]
    exact ⟨_, List.mem_append_right _ (List.mem_singleton_self _), rfl⟩

theorem foldlM_create_eq_ok [DecidableEq K] (os : List (Observation K α)) (hk : Keyed d)
    (h : os.foldlM (fun d o => d.create w ids now o) d = .ok d') :
    Keyed d' ∧ d' = { d with
      tasks := d.tasks ++ os.map (newTask w ids now)
      issues := d.issues ++ os.map (newIssue ids now) } ∧
      (∀ i ∈ d.issues, ∀ o ∈ os, i.id ≠ (newIssue ids now o).id) ∧
      ∀ t ∈ d.tasks, ∀ o ∈ os, t.id ≠ (newTask w ids now o).id := by
  induction os generalizing d with
  | nil =>
    cases h
    simpa using hk
  | cons o os ih =>
    rw [List.foldlM_cons] at h
    obtain ⟨d₁, hcreate, h⟩ := Js.bind_eq_ok.mp h
    obtain ⟨hk₁, rfl, hissue, htask⟩ := create_eq_ok hk hcreate
    obtain ⟨hk', rfl, hissues, htasks⟩ := ih hk₁ h
    refine ⟨hk', by simp, fun i hi o' ho' => ?_, fun t ht o' ho' => ?_⟩
    · rcases List.mem_cons.mp ho' with rfl | ho'
      · exact hissue i hi
      · exact hissues i (List.mem_append_left _ hi) o' ho'
    · rcases List.mem_cons.mp ho' with rfl | ho'
      · exact htask t ht
      · exact htasks t (List.mem_append_left _ ht) o' ho'

theorem foldl_updateBoth {τ : Type} (items : List τ) (id tid : τ → String) (f : τ → IssueRow K → IssueRow K)
    (g : τ → TaskRow → TaskRow) :
    items.foldl (fun d t => d.updateBoth (id t) (tid t) (f t) (g t)) d = { d with
      issues := (items.map fun t => (id t, f t)).foldl (fun rows c => Table.update IssueRow.id rows c.1 c.2) d.issues
      tasks := (items.map fun t => (tid t, g t)).foldl
        (fun rows c => Table.update (fun t : TaskRow => t.id) rows c.1 c.2) d.tasks } := by
  induction items generalizing d with
  | nil => rfl
  | cons t items ih =>
    rw [List.foldl_cons, ih]
    rfl

/-- The calls of a plan, as two lists of updates. -/
theorem foldl_calls (p : Plan (Observation K α) (ExistingIssue K) ρ) :
    p.resolve.foldl (fun d t => d.resolve w now t) (p.reopen.foldl (fun d t => d.reopen w now t)
      (p.refresh.foldl (fun d t => d.refresh w now t) d)) = { d with
        issues := (issueChanges p now).foldl (fun rows c => Table.update IssueRow.id rows c.1 c.2) d.issues
        tasks := (taskChanges w p now).foldl
          (fun rows c => Table.update (fun t : TaskRow => t.id) rows c.1 c.2) d.tasks } := by
  unfold issueChanges taskChanges
  simp only [List.foldl_append]
  unfold Desk.refresh Desk.reopen Desk.resolve
  rw [foldl_updateBoth, foldl_updateBoth, foldl_updateBoth]

theorem issueChanges_key {c : String × (IssueRow K → IssueRow K)} (hc : c ∈ issueChanges p now) (i : IssueRow K) :
    (c.2 i).id = i.id ∧ (c.2 i).taskId = i.taskId ∧ (c.2 i).kind = i.kind ∧ (c.2 i).fingerprint = i.fingerprint := by
  unfold issueChanges at hc
  simp only [List.mem_append, List.mem_map] at hc
  rcases hc with (⟨t, _, rfl⟩ | ⟨t, _, rfl⟩) | ⟨t, _, rfl⟩ <;> exact ⟨rfl, rfl, rfl, rfl⟩

theorem taskChanges_key {c : String × (TaskRow → TaskRow)} (hc : c ∈ taskChanges w p now) (t : TaskRow) :
    (c.2 t).id = t.id := by
  unfold taskChanges at hc
  simp only [List.mem_append, List.mem_map] at hc
  rcases hc with (⟨t, _, rfl⟩ | ⟨t, _, rfl⟩) | ⟨t, _, rfl⟩ <;> rfl

/-- The records that a plan takes. -/
def taken (p : Plan (Observation K α) (ExistingIssue K) ρ) : List (ExistingIssue K) :=
  p.refresh.map Prod.fst ++ p.reopen.map Prod.fst ++ p.resolve.map Prod.fst

theorem keys_issueChanges : (issueChanges p now).map Prod.fst = (taken p).map ExistingIssue.id := by
  unfold issueChanges taken
  simp only [List.map_append, List.map_map]
  rfl

theorem keys_taskChanges : (taskChanges w p now).map Prod.fst = (taken p).map ExistingIssue.taskId := by
  unfold taskChanges taken
  simp only [List.map_append, List.map_map]
  rfl

theorem taken_existing [DecidableEq K] (hR : Matches R) (hk : Keyed d) {e : ExistingIssue K}
    (he : e ∈ taken (R.plan observations (d.existing relevant))) : e ∈ d.existing relevant := by
  have hrecords := nodup_records relevant hR hk
  unfold taken at he
  simp only [List.mem_append, List.mem_map] at he
  rcases he with (⟨t, ht, rfl⟩ | ⟨t, ht, rfl⟩) | ⟨t, ht, rfl⟩
  · obtain ⟨_, _, hrecord, _⟩ := (Rules.mem_refresh hrecords).mp ht
    exact hrecord
  · obtain ⟨_, _, hrecord, _⟩ := (Rules.mem_reopen hrecords).mp ht
    exact hrecord
  · exact ((Rules.mem_resolve hrecords).mp ht).1

/-- What is unique of the issues is unique of the records that the plan takes. -/
theorem taken_map_nodup [DecidableEq K] (hR : Matches R) (hk : Keyed d) {f : ExistingIssue K → String}
    (hf : ((d.existing relevant).map f).Nodup) :
    ((taken (R.plan observations (d.existing relevant))).map f).Nodup := by
  have hkeys : ((taken (R.plan observations (d.existing relevant))).map R.recordKey).Nodup :=
    Rules.taken_nodup (nodup_records relevant hR hk)
  refine List.Nodup.map_on (fun x hx y hy h => ?_) hkeys.of_map
  exact List.inj_on_of_nodup_map hf (taken_existing hR hk hx) (taken_existing hR hk hy) h

/-- The rows after a plan is carried out. -/
structure CarriedOut (w : Wording K α ρ) (ids : NewIds K) (now : ℤ)
    (p : Plan (Observation K α) (ExistingIssue K) ρ) (d d' : Desk K) : Prop where
  issues : d'.issues = d.issues.map (Table.changed IssueRow.id (issueChanges p now)) ++ p.create.map (newIssue ids now)
  tasks : d'.tasks = d.tasks.map (Table.changed (fun t : TaskRow => t.id) (taskChanges w p now)) ++
    p.create.map (newTask w ids now)
  events : d'.events = d.events
  watermark : d'.watermark = d.watermark
  keyed : Keyed d'

theorem map_changed_append {ρ' : Type} {key : ρ' → String} (changes : List (String × (ρ' → ρ'))) {rows : List ρ'}
    (new : List ρ') (hnd : (changes.map Prod.fst).Nodup) (hkey : ∀ c ∈ changes, ∀ r, key (c.2 r) = key r)
    (hold : ∀ k ∈ changes.map Prod.fst, ∃ r ∈ rows, key r = k) (hnew : ∀ r ∈ rows, ∀ n ∈ new, key r ≠ key n) :
    changes.foldl (fun rows c => Table.update key rows c.1 c.2) (rows ++ new) =
      rows.map (Table.changed key changes) ++ new := by
  rw [Table.foldl_update changes hnd hkey, List.map_append]
  congr 1
  refine (List.map_congr_left fun n hn => ?_).trans new.map_id
  refine Table.changed_of_not_mem fun hmem => ?_
  obtain ⟨r, hr, hrk⟩ := hold _ hmem
  exact hnew r hr n hn hrk

theorem changed_key {ρ' β : Type} {key : ρ' → String} {changes : List (String × (ρ' → ρ'))} (f : ρ' → β)
    (h : ∀ c ∈ changes, ∀ r, f (c.2 r) = f r) (r : ρ') : f (Table.changed key changes r) = f r := by
  rcases Table.changed_cases key changes r with ⟨hsame, _⟩ | ⟨c, hc, _, hchange⟩
  · rw [hsame]
  · rw [hchange, h c hc]

/-- The updates keep every key. -/
theorem keyed_changed {issues : List (IssueRow K)} {tasks : List TaskRow}
    (hk : Keyed { d with tasks := d.tasks ++ tasks, issues := d.issues ++ issues }) :
    Keyed { d with
      tasks := d.tasks.map (Table.changed (fun t : TaskRow => t.id) (taskChanges w p now)) ++ tasks
      issues := d.issues.map (Table.changed IssueRow.id (issueChanges p now)) ++ issues } := by
  have hcolumn : ∀ {β : Type} (f : IssueRow K → β), (∀ c ∈ issueChanges p now, ∀ i, f (c.2 i) = f i) →
      (d.issues.map (Table.changed IssueRow.id (issueChanges p now)) ++ issues).map f = (d.issues ++ issues).map f := by
    intro β f hf
    rw [List.map_append, List.map_append, List.map_map]
    exact congrArg (· ++ _) (List.map_congr_left fun i _ => changed_key f hf i)
  have htask : (d.tasks.map (Table.changed (fun t : TaskRow => t.id) (taskChanges w p now)) ++ tasks).map (fun t => t.id) =
      (d.tasks ++ tasks).map fun t => t.id := by
    rw [List.map_append, List.map_append, List.map_map]
    exact congrArg (· ++ _) (List.map_congr_left fun t _ => changed_key (fun t : TaskRow => t.id)
      (fun c hc t => taskChanges_key hc t) t)
  have htaskId := hcolumn IssueRow.taskId fun c hc i => (issueChanges_key hc i).2.1
  refine ⟨?_, ?_, ?_, htask ▸ hk.tasks, fun i hi => ?_⟩
  · exact (hcolumn IssueRow.id fun c hc i => (issueChanges_key hc i).1) ▸ hk.issueIds
  · refine (hcolumn (fun i => (i.kind, i.fingerprint)) fun c hc i => ?_) ▸ hk.keys
    rw [(issueChanges_key hc i).2.2.1, (issueChanges_key hc i).2.2.2]
  · exact htaskId ▸ hk.taskIds
  · -- the row had this task before the updates, and a task of this id is still there
    have hmem : i.taskId ∈ (d.issues ++ issues).map IssueRow.taskId := htaskId ▸ List.mem_map_of_mem hi
    obtain ⟨i₀, hi₀, hid⟩ := List.mem_map.mp hmem
    obtain ⟨t, ht, htid⟩ := hk.linked i₀ hi₀
    have hmem' : i.taskId ∈ (d.tasks ++ tasks).map (fun t => t.id) :=
      List.mem_map.mpr ⟨t, ht, htid.trans hid⟩
    rw [← htask] at hmem'
    exact List.mem_map.mp hmem'

theorem carryOut_eq_ok [DecidableEq K] (hR : Matches R) (hk : Keyed d)
    (h : d.carryOut w ids now (R.plan observations (d.existing relevant)) = .ok d') :
    CarriedOut w ids now (R.plan observations (d.existing relevant)) d d' := by
  unfold Desk.carryOut at h
  obtain ⟨created, hcreated, h⟩ := Js.bind_eq_ok.mp h
  cases h
  obtain ⟨hk', rfl, hissues, htasks⟩ := foldlM_create_eq_ok _ hk hcreated
  rw [foldl_calls]
  have hids : ((taken (R.plan observations (d.existing relevant))).map ExistingIssue.id).Nodup := taken_map_nodup hR hk
    (nodup_existing ExistingIssue.id IssueRow.id (fun _ _ h => h.id) hk.issueIds)
  have htaskIds : ((taken (R.plan observations (d.existing relevant))).map ExistingIssue.taskId).Nodup :=
    taken_map_nodup hR hk (nodup_existing ExistingIssue.taskId IssueRow.taskId (fun _ _ h => h.taskId) hk.taskIds)
  generalize hp : R.plan observations (d.existing relevant) = p at hcreated hk' hissues htasks hids htaskIds ⊢
  have htaken : ∀ e ∈ taken p, ∃ i ∈ d.issues, ReadOf d i e := by
    intro e he
    rw [← hp] at he
    obtain ⟨i, hi, _, hread⟩ := mem_existing (taken_existing hR hk he)
    exact ⟨i, hi, hread⟩
  have hissueRows := map_changed_append (issueChanges p now) (p.create.map (newIssue ids now)) (by rwa [keys_issueChanges])
    (fun c hc r => (issueChanges_key hc r).1) (fun k hmem => by
      rw [keys_issueChanges] at hmem
      obtain ⟨e, he, rfl⟩ := List.mem_map.mp hmem
      obtain ⟨i, hi, hread⟩ := htaken e he
      exact ⟨i, hi, hread.id.symm⟩)
    (fun i hi n hn => by
      obtain ⟨o, ho, rfl⟩ := List.mem_map.mp hn
      exact hissues i hi o ho)
  have htaskRows := map_changed_append (taskChanges w p now) (p.create.map (newTask w ids now)) (by rwa [keys_taskChanges])
    (fun c hc r => taskChanges_key hc r) (fun k hmem => by
      rw [keys_taskChanges] at hmem
      obtain ⟨e, he, rfl⟩ := List.mem_map.mp hmem
      obtain ⟨i, hi, hread⟩ := htaken e he
      obtain ⟨t, ht, hid, _⟩ := hread.task
      exact ⟨t, ht, hid.trans hread.taskId.symm⟩)
    (fun t ht n hn => by
      obtain ⟨o, ho, rfl⟩ := List.mem_map.mp hn
      exact htasks t ht o ho)
  refine ⟨hissueRows, htaskRows, rfl, rfl, ?_⟩
  rw [hissueRows, htaskRows]
  exact keyed_changed hk'

end

end Mydon.Issues
