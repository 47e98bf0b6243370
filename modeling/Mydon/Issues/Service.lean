import Mydon.Issues.Moves

/-! A service that projects its reports, run call after call beside everyone else who works on the
task board. -/

namespace Mydon.Issues

open Mydon.Lib
open Js (Json HttpError)
open Lib.Matching (Plan Rules)
open Tasks (EventRow)

/-- The calls of a service and what each makes of its report. -/
structure Service (K α ρ C : Type) where
  host : Js.Host
  source : String
  identity : TransitionEventItem K → String
  openedEvent : String
  resolvedEvent : String
  fingerprint : K → String → String
  /-- Sources that nobody else gives a task. -/
  reserved : String → Prop
  wording : C → Wording K α ρ
  rules : C → Rules (K × String) (Observation K α) (ExistingIssue K) ρ
  observe : C → Except HttpError (List (Observation K α))
  /-- The observations that the planner counts. -/
  active : C → Observation K α → Bool
  relevant : List (Observation K α) → IssueRow K → Bool
  ids : C → NewIds K
  now : C → ℤ
  occurredAt : C → ℤ
  reserved_source : reserved source
  wording_source : ∀ c, (wording c).source = source
  wording_identity : ∀ c, (wording c).identity = identity
  wording_opened : ∀ c, (wording c).openedEvent = openedEvent
  wording_resolved : ∀ c, (wording c).resolvedEvent = resolvedEvent
  matching : ∀ c, Matches (rules c)
  named : ∀ c observations, observe c = .ok observations → ∀ o ∈ observations, o.fingerprint = fingerprint o.kind o.scopeKey
  /-- A merge keeps the scope of what was observed. -/
  merged : ∀ c observations, observe c = .ok observations → ∀ o ∈ observations, ∀ e,
    ((rules c).merge o e).scopeKey = o.scopeKey
  merged_kind : ∀ c o e, ((rules c).merge o e).kind = o.kind
  events_ne : openedEvent ≠ resolvedEvent

/-- A call of the service, or whatever else happens on the board. -/
inductive Act (C : Type)
  | call (c : C)
  | others

namespace Service

variable {K α ρ C : Type} [DecidableEq K] (S : Service K α ρ C)

def plan (c : C) (observations : List (Observation K α)) (existing : List (ExistingIssue K)) :
    Plan (Observation K α) (ExistingIssue K) ρ :=
  (S.rules c).plan (observations.filter (S.active c)) existing

def reconcile (d : Desk K) (c : C) : Except HttpError (ReconcileResult × Desk K) := do
  let observations ← S.observe c
  d.reconcile S.host (S.wording c) observations.length (S.plan c observations) (S.relevant observations) (S.ids c)
    (S.now c) (S.occurredAt c)

/-- The tables after a call; one that fails is rolled back. -/
def step (d : Desk K) (c : C) : Desk K :=
  match S.reconcile d c with
  | .ok (_, d') => d'
  | .error _ => d

/-- People and other services work on the tasks: they close, reassign and rename them, add their own
and announce their own events. A task that an issue refers to is not deleted. -/
structure Others (d d' : Desk K) : Prop where
  issues : d'.issues = d.issues
  watermark : d'.watermark = d.watermark
  tasks : (d'.tasks.map fun t => t.id).Nodup
  linked : ∀ i ∈ d.issues, ∃ t ∈ d'.tasks, t.id = i.taskId
  sources : ∀ t' ∈ d'.tasks, ∀ s, t'.source = some s → S.reserved s → ∃ t ∈ d.tasks, t.id = t'.id ∧ t.source = some s
  events : ∃ rows, d'.events = d.events ++ rows ∧
    ∀ row ∈ rows, ∀ type items, row.clientKey ≠ some (transitionEventKey S.host S.source S.identity type items)

def Next (d : Desk K) (a : Act C) (d' : Desk K) : Prop :=
  match a with
  | .call c => d' = S.step d c
  | .others => S.Others d d'

/-- The board before the first call: no issue, no task of a reserved source. -/
structure Fresh (d : Desk K) : Prop where
  issues : d.issues = []
  watermark : d.watermark = none
  tasks : (d.tasks.map fun t => t.id).Nodup
  sources : ∀ t ∈ d.tasks, ∀ s, t.source = some s → ¬ S.reserved s
  events : ∀ row ∈ d.events, ∀ type items,
    row.clientKey ≠ some (transitionEventKey S.host S.source S.identity type items)

/-- One issue for every fingerprint and one task for every issue. -/
structure Sound (d : Desk K) : Prop where
  keyed : Keyed d
  named : ∀ i ∈ d.issues, i.fingerprint = S.fingerprint i.kind i.scopeKey
  projected : ∀ t ∈ d.tasks, t.source = some S.source → ∃ i ∈ d.issues, i.taskId = t.id

variable {S} {d d' d₀ : Desk K} {c : C} {steps : List (Step (Desk K) (Act C))}

/-! One call. -/

/-- What a call that is not rolled back and not late leaves. -/
def AcceptedBy (S : Service K α ρ C) (c : C) (observations : List (Observation K α)) (d d' : Desk K) : Prop :=
  Accepted S.host (S.wording c) (S.rules c) (S.relevant observations) (observations.filter (S.active c)) (S.ids c)
    (S.now c) (S.occurredAt c) d d'

theorem reconcile_cases (hk : Keyed d) {r : ReconcileResult} (h : S.reconcile d c = .ok (r, d')) :
    ∃ observations, S.observe c = .ok observations ∧
      ((d.watermark.any (S.now c ≤ ·) = true ∧ r.staleSkipped = true ∧ d' = d) ∨
        d.watermark.any (S.now c ≤ ·) = false ∧ r.staleSkipped = false ∧ S.AcceptedBy c observations d d') := by
  unfold reconcile at h
  obtain ⟨observations, hobserve, h⟩ := Js.bind_eq_ok.mp h
  exact ⟨observations, hobserve, reconcile_eq_ok (S.matching c) hk h⟩

theorem step_cases (hk : Keyed d) : S.step d c = d ∨ ∃ observations, S.observe c = .ok observations ∧
    d.watermark.any (S.now c ≤ ·) = false ∧ S.AcceptedBy c observations d (S.step d c) := by
  unfold step
  rcases hr : S.reconcile d c with e | ⟨r, d'⟩
  · exact .inl rfl
  · obtain ⟨observations, hobserve, ⟨_, _, rfl⟩ | ⟨hlate, _, haccepted⟩⟩ := reconcile_cases hk hr
    · exact .inl rfl
    · exact .inr ⟨observations, hobserve, hlate, haccepted⟩

/-- A late call changes nothing. -/
theorem step_late (h : d.watermark.any (S.now c ≤ ·) = true) : S.step d c = d := by
  unfold step reconcile
  rcases S.observe c with e | observations
  · rfl
  · have hlate : Desk.reconcile d S.host (S.wording c) observations.length (S.plan c observations)
        (S.relevant observations) (S.ids c) (S.now c) (S.occurredAt c) =
          .ok (⟨observations.length, 0, 0, 0, 0, 0, true⟩, d) := by
      unfold Desk.reconcile
      rw [if_pos h]
    change (match Desk.reconcile d S.host (S.wording c) observations.length (S.plan c observations)
      (S.relevant observations) (S.ids c) (S.now c) (S.occurredAt c) with | .ok (_, d') => d' | .error _ => d) = d
    rw [hlate]

theorem AcceptedBy.sound {observations : List (Observation K α)} (h : S.AcceptedBy c observations d d')
    (hobserve : S.observe c = .ok observations) (hs : S.Sound d) : S.Sound d' := by
  have hobserved : ∀ o ∈ (S.rules c).current (observations.filter (S.active c)), o ∈ observations := fun o ho =>
    List.mem_of_mem_filter (Rules.mem_current ho)
  have hmerged : ∀ {i : IssueRow K} (e : ExistingIssue K), ∀ o ∈ (S.rules c).current (observations.filter (S.active c)),
      (S.rules c).keyOf o = (i.kind, i.fingerprint) →
        i.fingerprint = S.fingerprint i.kind ((S.rules c).merge o e).scopeKey := by
    intro i e o ho hkey
    rw [(S.matching c).observation, Prod.mk.injEq] at hkey
    rw [S.merged c observations hobserve o (hobserved o ho), ← hkey.1, ← hkey.2]
    exact S.named c observations hobserve o (hobserved o ho)
  refine ⟨h.keyed, fun i' hi' => ?_, fun t' ht' hsource => ?_⟩
  · rcases h.issue_of_mem (S.matching c) hs.keyed hi' with ⟨i, hi, hmoved⟩ | ⟨o, ho, _, rfl⟩
    · rcases hmoved with _ | _ | ⟨e, o, _, _, ho, hkey, _⟩ | ⟨e, o, _, _, ho, hkey, _⟩ | _
      · exact hs.named _ hi
      · exact hs.named _ hi
      · exact hmerged e o ho hkey
      · exact hmerged e o ho hkey
      · exact hs.named i hi
    · exact S.named c observations hobserve o (hobserved o ho)
  · rcases h.task_of_mem (S.matching c) hs.keyed ht' with ht | hissue
    · obtain ⟨i, hi, hit⟩ := hs.projected t' ht hsource
      obtain ⟨i', hi', hmoved⟩ := h.exists_moved (S.matching c) hs.keyed hi
      exact ⟨i', hi', hmoved.taskId.trans hit⟩
    · exact hissue

omit [DecidableEq K] in
theorem Others.sound (h : S.Others d d') (hs : S.Sound d) : S.Sound d' := by
  refine ⟨⟨?_, ?_, ?_, h.tasks, ?_⟩, ?_, fun t' ht' hsource => ?_⟩
  · rw [h.issues]; exact hs.keyed.issueIds
  · rw [h.issues]; exact hs.keyed.keys
  · rw [h.issues]; exact hs.keyed.taskIds
  · rw [h.issues]; exact h.linked
  · rw [h.issues]; exact hs.named
  · obtain ⟨t, ht, hid, hst⟩ := h.sources t' ht' S.source hsource S.reserved_source
    obtain ⟨i, hi, hit⟩ := hs.projected t ht hst
    exact ⟨i, h.issues ▸ hi, hit.trans hid⟩

theorem Next.sound {a : Act C} (h : S.Next d a d') (hs : S.Sound d) : S.Sound d' := by
  rcases a with c | _
  · rcases step_cases (S := S) (c := c) hs.keyed with hsame | ⟨observations, hobserve, _, haccepted⟩
    · rwa [h, hsame]
    · rw [h]
      exact haccepted.sound hobserve hs
  · exact Others.sound h hs

omit [DecidableEq K] in
theorem Fresh.sound (h : S.Fresh d) : S.Sound d := by
  refine ⟨⟨?_, ?_, ?_, h.tasks, ?_⟩, ?_, fun t ht hs => absurd S.reserved_source (h.sources t ht _ hs)⟩
  all_goals simp [h.issues]

/-! Runs. -/

theorem sound_of_run (h : Run S.Next d₀ steps d) (hfresh : S.Fresh d₀) : S.Sound d :=
  h.invariant (fun _ _ _ hs hn => Next.sound hn hs) hfresh.sound

/-- When the call of a step was accepted. -/
def acceptedAt (S : Service K α ρ C) (e : Step (Desk K) (Act C)) : Option ℤ :=
  match e.action with
  | .others => none
  | .call c =>
    match S.reconcile e.before c with
    | .ok (r, _) => if r.staleSkipped then none else some (S.now c)
    | .error _ => none

/-- The watermark is the moment of the last accepted call. -/
theorem watermark_of_run (h : Run S.Next d₀ steps d) (hfresh : S.Fresh d₀) :
    d.watermark = (steps.filterMap S.acceptedAt).getLast? := by
  induction h with
  | start => exact hfresh.watermark
  | @step steps d₁ d₂ a hrun hnext ih =>
    have hs := sound_of_run hrun hfresh
    rw [List.filterMap_append]
    rcases a with c | _
    · have hafter : d₂ = S.step d₁ c := hnext
      subst hafter
      unfold step
      rcases hr : S.reconcile d₁ c with e | ⟨r, d'⟩
      · simp [acceptedAt, hr, ih]
      · obtain ⟨observations, _, ⟨_, hstale, rfl⟩ | ⟨_, hstale, haccepted⟩⟩ := reconcile_cases hs.keyed hr
        · simp [acceptedAt, hr, hstale, ih]
        · simp [acceptedAt, hr, hstale, haccepted.watermark]
    · have hothers : S.Others d₁ d₂ := hnext
      rw [hothers.watermark, ih]
      simp [acceptedAt]

/-- A call that is not after the last accepted one changes nothing. -/
theorem late_of_run (h : Run S.Next d₀ steps d) (hfresh : S.Fresh d₀)
    (hlate : ∃ t ∈ (steps.filterMap S.acceptedAt).getLast?, S.now c ≤ t) : S.step d c = d := by
  obtain ⟨t, ht, hle⟩ := hlate
  refine step_late ?_
  rw [watermark_of_run h hfresh, Option.mem_def.mp ht]
  exact decide_eq_true hle

/-! What holds of every issue. -/

/-- The task is the one of an issue of this scope. -/
def TaskOf (d : Desk K) (kind : K) (scopeKey : String) (t : TaskRow) : Prop :=
  t ∈ d.tasks ∧ ∃ i ∈ d.issues, i.taskId = t.id ∧ i.kind = kind ∧ i.scopeKey = scopeKey

/-- One issue and one task for every scope, and no other task of the service. -/
structure OneEach (S : Service K α ρ C) (d : Desk K) : Prop where
  issue : ∀ i ∈ d.issues, ∀ j ∈ d.issues, i.kind = j.kind → i.scopeKey = j.scopeKey → i = j
  task : ∀ kind scopeKey t t', TaskOf d kind scopeKey t → TaskOf d kind scopeKey t' → t = t'
  linked : ∀ i ∈ d.issues, ∃ t, TaskOf d i.kind i.scopeKey t
  projected : ∀ t ∈ d.tasks, t.source = some S.source → ∃ i ∈ d.issues, TaskOf d i.kind i.scopeKey t

omit [DecidableEq K] in
theorem Sound.oneEach (h : S.Sound d) : S.OneEach d := by
  have hissue : ∀ i ∈ d.issues, ∀ j ∈ d.issues, i.kind = j.kind → i.scopeKey = j.scopeKey → i = j := by
    intro i hi j hj hkind hscope
    refine Table.eq_of_key_eq h.keyed.keys hi hj ?_
    rw [h.named i hi, h.named j hj, hkind, hscope]
  refine ⟨hissue, ?_, fun i hi => ?_, fun t ht hsource => ?_⟩
  · rintro kind scopeKey t t' ⟨ht, i, hi, hit, rfl, rfl⟩ ⟨ht', j, hj, hjt, hkind, hscope⟩
    obtain rfl := hissue j hj i hi hkind hscope
    exact Table.eq_of_key_eq h.keyed.tasks ht ht' (hit.symm.trans hjt)
  · obtain ⟨t, ht, hid⟩ := h.keyed.linked i hi
    exact ⟨t, ht, i, hi, hid.symm, rfl, rfl⟩
  · obtain ⟨i, hi, hit⟩ := h.projected t ht hsource
    exact ⟨i, hi, ht, i, hi, hit, rfl, rfl⟩

variable {i i' : IssueRow K}

theorem moved_of_step (hs : S.Sound d) (hi : i ∈ d.issues) (hi' : i' ∈ (S.step d c).issues) (hid : i'.id = i.id) :
    i' = i ∨ ∃ observations, S.observe c = .ok observations ∧
      Moved (S.rules c) (S.relevant observations) (observations.filter (S.active c)) (S.now c) d i i' := by
  rcases step_cases (S := S) (c := c) hs.keyed with hsame | ⟨observations, hobserve, _, haccepted⟩
  · rw [hsame] at hi'
    exact .inl (Table.eq_of_key_eq hs.keyed.issueIds hi' hi hid)
  · exact .inr ⟨observations, hobserve, haccepted.moved (S.matching c) hs.keyed hi hi' hid⟩

/-- An issue is closed by a call that counts no observation of it and has a verdict on it. -/
theorem closed_of_step (hs : S.Sound d) (hi : i ∈ d.issues) (hi' : i' ∈ (S.step d c).issues) (hid : i'.id = i.id)
    (hopen : i.status = .open) (hclosed : i'.status = .resolved) :
    ∃ observations, S.observe c = .ok observations ∧
      (∀ o ∈ observations, S.active c o = true → ¬ (o.kind = i.kind ∧ o.fingerprint = i.fingerprint)) ∧
      ∃ e r, ReadOf d i e ∧ (S.rules c).verdict e = some r := by
  have hne : i' ≠ i := by
    rintro rfl
    rw [hopen] at hclosed
    cases hclosed
  rcases moved_of_step hs hi hi' hid with hsame | ⟨observations, hobserve, hmoved⟩
  · exact absurd hsame hne
  · rcases hmoved with _ | _ | _ | _ | ⟨e, r, _, hread, hfree, _, hverdict⟩
    · exact absurd rfl hne
    · exact absurd rfl hne
    · exact absurd (hopen.symm.trans hclosed) (by simp)
    · cases hclosed
    · refine ⟨observations, hobserve, fun o ho hactive hkey => ?_, e, r, hread, hverdict⟩
      refine hfree o (List.mem_filter.mpr ⟨ho, hactive⟩) ?_
      rw [(S.matching c).observation, hkey.1, hkey.2]

/-- While an issue stays open its payload changes only with an observation merged into what was read. -/
theorem payload_of_step (hs : S.Sound d) (hi : i ∈ d.issues) (hi' : i' ∈ (S.step d c).issues) (hid : i'.id = i.id) :
    i'.payload = i.payload ∨ ∃ observations, S.observe c = .ok observations ∧ ∃ o ∈ observations, ∃ e, ReadOf d i e ∧
      o.kind = i.kind ∧ i'.payload = ((S.rules c).merge o e).payload := by
  rcases moved_of_step hs hi hi' hid with rfl | ⟨observations, hobserve, hmoved⟩
  · exact .inl rfl
  · have hobserved : ∀ o ∈ (S.rules c).current (observations.filter (S.active c)), o ∈ observations := fun o ho =>
      List.mem_of_mem_filter (Rules.mem_current ho)
    have hkind : ∀ o, (S.rules c).keyOf o = (i.kind, i.fingerprint) → o.kind = i.kind := by
      intro o hkey
      rw [(S.matching c).observation, Prod.mk.injEq] at hkey
      exact hkey.1
    rcases hmoved with _ | _ | ⟨e, o, _, hread, ho, hkey, _⟩ | ⟨e, o, _, hread, ho, hkey, _⟩ | _
    · exact .inl rfl
    · exact .inl rfl
    · exact .inr ⟨observations, hobserve, o, hobserved o ho, e, hread, hkind o hkey, rfl⟩
    · exact .inr ⟨observations, hobserve, o, hobserved o ho, e, hread, hkind o hkey, rfl⟩
    · exact .inl rfl

/-! Episodes. -/

/-- The task was closed. -/
def TaskClosed (t : TaskRow) : Prop := t.status = .done ∨ t.status = .cancelled

/-- An issue that was resolved is open again, or its task that was closed is not closed any more. -/
def Reopened (d d' : Desk K) (i i' : IssueRow K) : Prop :=
  i'.status = .open ∧ (i.status = .resolved ∨
    ∃ t ∈ d.tasks, ∃ t' ∈ d'.tasks, t.id = i.taskId ∧ t'.id = i.taskId ∧ TaskClosed t ∧ ¬ TaskClosed t')

omit [DecidableEq K] in
theorem isOver_iff {e : ExistingIssue K} (hread : ReadOf d i e) (hk : Keyed d) : e.isOver = true ↔
    i.status = .resolved ∨ ∃ t ∈ d.tasks, t.id = i.taskId ∧ TaskClosed t := by
  obtain ⟨t, ht, htid, hstatus⟩ := hread.task
  unfold ExistingIssue.isOver TaskClosed
  rw [hread.status, hstatus, Bool.or_eq_true, Bool.or_eq_true, decide_eq_true_iff, decide_eq_true_iff,
    decide_eq_true_iff, or_assoc]
  refine or_congr_right ⟨fun hclosed => ⟨t, ht, htid, hclosed⟩, ?_⟩
  rintro ⟨t₂, ht₂, htid₂, hclosed⟩
  obtain rfl : t₂ = t := Table.eq_of_key_eq hk.tasks ht₂ ht (htid₂.trans htid.symm)
  exact hclosed

/-- The episode grows by one where the issue is reopened, and nowhere else. -/
theorem AcceptedBy.episode {observations : List (Observation K α)} (h : S.AcceptedBy c observations d d') (hk : Keyed d)
    (hi : i ∈ d.issues) (hi' : i' ∈ d'.issues) (hid : i'.id = i.id) :
    (Reopened d d' i i' → i'.episode = i.episode + 1) ∧ (¬ Reopened d d' i i' → i'.episode = i.episode) := by
  have hmoved := h.moved (S.matching c) hk hi hi' hid
  refine ⟨?_, fun hnot => ?_⟩
  · rintro ⟨hopen, hresolved | ⟨t, ht, t', ht', htid, htid', hclosed, hlive⟩⟩
    · have hne : i.status ≠ .open := by
        rw [hresolved]
        simp
      rcases hmoved with _ | _ | _ | _ | _
      · exact absurd hopen hne
      · exact absurd hopen hne
      · exact absurd hopen hne
      · rfl
      · cases hopen
    · -- the task was taken up again with a record of this issue
      rcases Accepted.task_status h ht ht' (htid'.trans htid.symm) with hsame | hdone | ⟨e, o', hx, hetask⟩
      · refine absurd ?_ hlive
        unfold TaskClosed
        rw [hsame]
        exact hclosed
      · exact absurd (.inl hdone) hlive
      · obtain ⟨j, hj, hread, hmem, _⟩ := Accepted.reopened h (S.matching c) hk hx
        obtain rfl : j = i := Table.eq_of_key_eq hk.taskIds hj hi (hread.taskId.symm.trans (hetask.trans htid))
        rw [Table.eq_of_key_eq h.keyed.issueIds hi' hmem hid]
        rfl
  · rcases hmoved with _ | _ | _ | ⟨e, o, he, hread, ho, hkey, hover⟩ | _
    · rfl
    · rfl
    · rfl
    · refine absurd ⟨rfl, ?_⟩ hnot
      refine ((isOver_iff hread hk).mp hover).imp id ?_
      rintro ⟨t, ht, htid, hclosed⟩
      have hx : (e, (S.rules c).merge o e) ∈ ((S.rules c).plan (observations.filter (S.active c))
          (d.existing (S.relevant observations))).reopen :=
        (Rules.mem_reopen (nodup_records _ (S.matching c) hk)).mpr ⟨o, ho, he, (hread.key (S.matching c)).trans hkey.symm,
          by rw [(S.matching c).isOver, hover], rfl⟩
      have hmem : reopenedTask (S.wording c) ((S.rules c).merge o e) ((S.wording c).reopenOwner e) (issueDue (S.now c)) t ∈
          d'.tasks := by
        refine Accepted.task_mem h (S.matching c) hk ht ?_
        rw [htid, ← hread.taskId]
        exact List.mem_append_left _ (List.mem_append_right _ (List.mem_map.mpr ⟨_, hx, rfl⟩))
      refine ⟨t, ht, _, hmem, htid, htid, hclosed, ?_⟩
      rintro (hdone | hcancelled)
      · cases hdone
      · cases hcancelled
    · rfl

theorem episode_of_step (hs : S.Sound d) (hi : i ∈ d.issues) (hi' : i' ∈ (S.step d c).issues) (hid : i'.id = i.id) :
    (Reopened d (S.step d c) i i' → i'.episode = i.episode + 1) ∧
      (¬ Reopened d (S.step d c) i i' → i'.episode = i.episode) := by
  rcases step_cases (S := S) (c := c) hs.keyed with hsame | ⟨observations, _, _, haccepted⟩
  · rw [hsame] at hi' ⊢
    obtain rfl := Table.eq_of_key_eq hs.keyed.issueIds hi' hi hid
    refine ⟨?_, fun _ => rfl⟩
    rintro ⟨hopen, hresolved | ⟨t, ht, t', ht', htid, htid', hclosed, hlive⟩⟩
    · rw [hopen] at hresolved
      cases hresolved
    · obtain rfl := Table.eq_of_key_eq hs.keyed.tasks ht ht' (htid.trans htid'.symm)
      exact absurd hclosed hlive
  · exact haccepted.episode hs.keyed hi hi' hid

/-! Calls one after the other. -/

def callSteps (S : Service K α ρ C) (d : Desk K) : List C → List (Step (Desk K) (Act C)) × Desk K
  | [] => ([], d)
  | c :: calls => (⟨d, .call c, S.step d c⟩ :: (callSteps S (S.step d c) calls).1, (callSteps S (S.step d c) calls).2)

theorem run_callSteps (d : Desk K) (calls : List C) : Run S.Next d (S.callSteps d calls).1 (S.callSteps d calls).2 := by
  induction calls generalizing d with
  | nil => exact .start
  | cons c calls ih => exact Run.append (Run.step .start rfl) (ih (S.step d c))

end Service

end Mydon.Issues
