import Mydon.Jobs.Service

/-! The life of a job: the changes that its tables may undergo, what every change
keeps consistent, and what later tables owe to earlier ones. -/

namespace Mydon.Jobs

open Mydon.Lib

structure Tables where
  jobs : List JobRow
  results : List ResultRow

def World.tables (w : World) : Tables := ⟨w.jobs, w.results⟩

/-- The dispatch of the job has been granted. -/
def JobStatus.isDispatched : JobStatus → Bool
  | .dispatching => true
  | .unknown => true
  | .succeeded => true
  | .rejected => true
  | .waitingBudget => false
  | .ready => false
  | .cancelled => false

def ResultKind.status : ResultKind → JobStatus
  | .success => .succeeded
  | .providerRejection => .rejected

theorem ResultKind.status_isDispatched (kind : ResultKind) : kind.status.isDispatched = true := by
  rcases kind <;> rfl

theorem ResultKind.status_injective {kind kind' : ResultKind} (h : kind.status = kind'.status) : kind = kind' := by
  rcases kind <;> rcases kind' <;> first | rfl | cases h

structure SameAttempt (job job' : JobRow) : Prop where
  id : job'.id = job.id
  attempt : job'.attempt = job.attempt

/-- One transition of a job that stores no result. -/
inductive Advance (job job' : JobRow) : Prop
  | authorize : job.status = .waitingBudget → job'.status = .ready → job'.dispatchCount = job.dispatchCount →
    job'.dispatchToken = job.dispatchToken → Advance job job'
  | dispatch (token : String) : job.status = .ready → job'.status = .dispatching → job'.dispatchCount = 1 →
    job'.dispatchToken = some token → Advance job job'
  | lose : job.status = .dispatching → job'.status = .unknown → job'.dispatchCount = job.dispatchCount →
    job'.dispatchToken = job.dispatchToken → Advance job job'

/-- The attempt before this one was rejected by its provider. -/
def Preceded (t : Tables) (job : JobRow) : Prop :=
  ∃ p ∈ t.jobs, p.attempt = (job.taskAgentExecutionId, job.stepKey, job.providerAttemptNo - 1) ∧
    p.status = .rejected

inductive Change (t : Tables) : Tables → Prop
  | insert (job : JobRow) : (∀ j ∈ t.jobs, j.id ≠ job.id) → (∀ j ∈ t.jobs, j.attempt ≠ job.attempt) →
    job.status = .waitingBudget → job.dispatchCount = 0 → job.dispatchToken = none →
    (job.providerAttemptNo ≠ 1 → Preceded t job) → Change t ⟨t.jobs ++ [job], t.results⟩
  | advance (job job' : JobRow) : job ∈ t.jobs → SameAttempt job job' → Advance job job' →
    Change t ⟨Table.write JobRow.id t.jobs job', t.results⟩
  | complete (job job' : JobRow) (result : ResultRow) : job ∈ t.jobs → SameAttempt job job' →
    (job.status = .dispatching ∨ job.status = .unknown) → job'.status = result.kind.status →
    job'.dispatchCount = job.dispatchCount → job'.dispatchToken = job.dispatchToken → result.jobId = job.id →
    (∀ r ∈ t.results, r.jobId ≠ job.id) → Change t ⟨Table.write JobRow.id t.jobs job', t.results ++ [result]⟩

/-- Several changes, as one transaction makes them. -/
def Changes : Tables → Tables → Prop := Relation.ReflTransGen Change

theorem Changes.refl (t : Tables) : Changes t t := Relation.ReflTransGen.refl

theorem Changes.of {t t' : Tables} (h : Change t t') : Changes t t' := Relation.ReflTransGen.single h

theorem Changes.trans {t t' t'' : Tables} (h : Changes t t') (h' : Changes t' t'') : Changes t t'' :=
  Relation.ReflTransGen.trans h h'

structure Consistent (t : Tables) : Prop where
  ids : (t.jobs.map JobRow.id).Nodup
  attempts : (t.jobs.map JobRow.attempt).Nodup
  resultJobs : (t.results.map ResultRow.jobId).Nodup
  undispatched : ∀ j ∈ t.jobs, j.status.isDispatched = false → j.dispatchCount = 0 ∧ j.dispatchToken = none
  dispatched : ∀ j ∈ t.jobs, j.status.isDispatched = true → j.dispatchCount = 1 ∧ j.dispatchToken.isSome
  result : ∀ j ∈ t.jobs, ∀ kind, j.status = ResultKind.status kind → ∃ r ∈ t.results, r.jobId = j.id ∧ r.kind = kind
  job : ∀ r ∈ t.results, ∃ j ∈ t.jobs, j.id = r.jobId ∧ j.status = r.kind.status
  preceded : ∀ j ∈ t.jobs, j.providerAttemptNo ≠ 1 → Preceded t j

theorem consistent_empty : Consistent ⟨[], []⟩ := by
  refine ⟨List.nodup_nil, List.nodup_nil, List.nodup_nil, ?_, ?_, ?_, ?_, ?_⟩ <;> exact List.forall_mem_nil _

/-- What a later row owes to an earlier one: its identity, its grant and its end. -/
structure Follows (job job' : JobRow) : Prop where
  same : SameAttempt job job'
  dispatched : job.status.isDispatched = true →
    job'.status.isDispatched = true ∧ job'.dispatchToken = job.dispatchToken
  final : ∀ kind : ResultKind, job.status = kind.status → job'.status = kind.status

theorem Follows.refl (job : JobRow) : Follows job job := ⟨⟨rfl, rfl⟩, fun h => ⟨h, rfl⟩, fun _ h => h⟩

theorem Follows.trans {j j' j'' : JobRow} (h : Follows j j') (h' : Follows j' j'') : Follows j j'' := by
  refine ⟨⟨h'.same.id.trans h.same.id, h'.same.attempt.trans h.same.attempt⟩, fun hd => ?_,
    fun kind hk => h'.final kind (h.final kind hk)⟩
  obtain ⟨hd', ht⟩ := h.dispatched hd
  obtain ⟨hd'', ht'⟩ := h'.dispatched hd'
  exact ⟨hd'', ht'.trans ht⟩

structure Persists (t t' : Tables) : Prop where
  jobs : ∀ j ∈ t.jobs, ∃ j' ∈ t'.jobs, Follows j j'
  results : ∀ r ∈ t.results, r ∈ t'.results

theorem Persists.refl (t : Tables) : Persists t t := ⟨fun j hj => ⟨j, hj, .refl j⟩, fun _ h => h⟩

theorem Persists.trans {t t' t'' : Tables} (h : Persists t t') (h' : Persists t' t'') : Persists t t'' := by
  refine ⟨fun j hj => ?_, fun r hr => h'.results r (h.results r hr)⟩
  obtain ⟨j', hj', hf⟩ := h.jobs j hj
  obtain ⟨j'', hj'', hf'⟩ := h'.jobs j' hj'
  exact ⟨j'', hj'', hf.trans hf'⟩

theorem Advance.follows {job job' : JobRow} (hs : SameAttempt job job') (h : Advance job job') :
    Follows job job' := by
  rcases h with ⟨hst, hst', _, _⟩ | ⟨token, hst, hst', _, _⟩ | ⟨hst, hst', _, htoken⟩ <;>
    refine ⟨hs, fun hd => ?_, fun kind hk => ?_⟩
  · rw [hst] at hd; cases hd
  · rw [hst] at hk; rcases kind <;> cases hk
  · rw [hst] at hd; cases hd
  · rw [hst] at hk; rcases kind <;> cases hk
  · rw [hst']; exact ⟨rfl, htoken⟩
  · rw [hst] at hk; rcases kind <;> cases hk

theorem follows_complete {job job' : JobRow} {kind : ResultKind} (hs : SameAttempt job job')
    (hst : job.status = .dispatching ∨ job.status = .unknown) (hst' : job'.status = kind.status)
    (htoken : job'.dispatchToken = job.dispatchToken) : Follows job job' := by
  refine ⟨hs, fun _ => ⟨by rw [hst']; exact kind.status_isDispatched, htoken⟩, fun kind' hk => ?_⟩
  rcases hst with hst | hst <;> rw [hst] at hk <;> rcases kind' <;> cases hk

/-- A written job follows the row it replaces, so every row persists. -/
theorem persists_write {t : Tables} (hc : Consistent t) {job job' : JobRow} (hm : job ∈ t.jobs)
    (hf : Follows job job') : ∀ j ∈ t.jobs, ∃ j' ∈ Table.write JobRow.id t.jobs job', Follows j j' := by
  intro j hj
  by_cases hid : j.id = job'.id
  · obtain rfl : j = job := Table.eq_of_key_eq hc.ids hj hm (hid.trans hf.same.id)
    exact ⟨job', Table.mem_write.mpr (.inr ⟨rfl, j, hj, hid⟩), hf⟩
  · exact ⟨j, Table.mem_write_of_ne hj hid, .refl j⟩

theorem Change.persists {t t' : Tables} (h : Change t t') (hc : Consistent t) : Persists t t' := by
  rcases h with ⟨job, _, _, _, _, _, _⟩ | ⟨job, job', hm, hs, ha⟩ | ⟨job, job', result, hm, hs, hst, hst', _, htoken, _, _⟩
  · exact ⟨fun j hj => ⟨j, List.mem_append_left _ hj, .refl j⟩, fun _ h => h⟩
  · exact ⟨persists_write hc hm (ha.follows hs), fun _ h => h⟩
  · exact ⟨persists_write hc hm (follows_complete hs hst hst' htoken), fun r hr => List.mem_append_left _ hr⟩

/-- A rejected predecessor stays one. -/
theorem Preceded.persists {t t' : Tables} {j j' : JobRow} (h : Preceded t j) (hp : Persists t t')
    (hs : j'.attempt = j.attempt) : Preceded t' j' := by
  obtain ⟨p, hpm, hpa, hpst⟩ := h
  obtain ⟨p', hpm', hf⟩ := hp.jobs p hpm
  simp only [JobRow.attempt, Prod.mk.injEq] at hs
  obtain ⟨he, hk, hn⟩ := hs
  exact ⟨p', hpm', by rw [hf.same.attempt, hpa, he, hk, hn], hf.final .providerRejection hpst⟩

theorem Change.consistent {t t' : Tables} (h : Change t t') (hc : Consistent t) : Consistent t' := by
  have hp := h.persists hc
  rcases h with ⟨job, hid, hattempt, hst, hcount, htoken, hpre⟩ | ⟨job, job', hm, hs, ha⟩ |
    ⟨job, job', result, hm, hs, hst, hst', hcount, htoken, hjob, hfresh⟩
  · have hnew : job.status.isDispatched = false := by rw [hst]; rfl
    have hnokind : ∀ kind, job.status ≠ ResultKind.status kind := by
      intro kind hk
      rw [hst] at hk
      rcases kind <;> cases hk
    refine ⟨Table.nodup_append_singleton hc.ids hid, Table.nodup_append_singleton hc.attempts hattempt, hc.resultJobs, ?_, ?_,
      ?_, ?_, ?_⟩ <;> intro j hj
    · rcases List.mem_append.mp hj with hj | hj
      · exact hc.undispatched j hj
      · rw [List.mem_singleton.mp hj]; exact fun _ => ⟨hcount, htoken⟩
    · rcases List.mem_append.mp hj with hj | hj
      · exact hc.dispatched j hj
      · rw [List.mem_singleton.mp hj, hnew]; exact fun h => nomatch h
    · rcases List.mem_append.mp hj with hj | hj
      · exact hc.result j hj
      · rw [List.mem_singleton.mp hj]; exact fun kind hk => absurd hk (hnokind kind)
    · obtain ⟨j', hj', h⟩ := hc.job j hj
      exact ⟨j', List.mem_append_left _ hj', h⟩
    · intro hn
      rcases List.mem_append.mp hj with hj | hj
      · exact (hc.preceded j hj hn).persists hp rfl
      · rw [List.mem_singleton.mp hj] at hn ⊢; exact (hpre hn).persists hp rfl
  · have hf := ha.follows hs
    refine ⟨by rw [Table.map_key_write]; exact hc.ids, ?_, hc.resultJobs, ?_, ?_, ?_, ?_, ?_⟩
    · rw [Table.map_write JobRow.attempt fun r hr hk => ?_]
      · exact hc.attempts
      · rw [Table.eq_of_key_eq hc.ids hr hm (hk.trans hs.id), hs.attempt]
    · intro j hj hd
      rcases Table.mem_write.mp hj with ⟨hj, _⟩ | ⟨rfl, _⟩
      · exact hc.undispatched j hj hd
      · rcases ha with ⟨hst, hst', hcount, htoken⟩ | ⟨_, _, hst', _, _⟩ | ⟨_, hst', _, _⟩
        · have := hc.undispatched job hm (by rw [hst]; rfl)
          rwa [hcount, htoken]
        · rw [hst'] at hd; cases hd
        · rw [hst'] at hd; cases hd
    · intro j hj hd
      rcases Table.mem_write.mp hj with ⟨hj, _⟩ | ⟨rfl, _⟩
      · exact hc.dispatched j hj hd
      · rcases ha with ⟨_, hst', _, _⟩ | ⟨token, _, _, hcount, htoken⟩ | ⟨hst, _, hcount, htoken⟩
        · rw [hst'] at hd; cases hd
        · exact ⟨hcount, by rw [htoken]; rfl⟩
        · have := hc.dispatched job hm (by rw [hst]; rfl)
          rwa [hcount, htoken]
    · intro j hj kind hk
      rcases Table.mem_write.mp hj with ⟨hj, _⟩ | ⟨rfl, _⟩
      · exact hc.result j hj kind hk
      · rcases ha with ⟨_, hst', _, _⟩ | ⟨_, _, hst', _, _⟩ | ⟨_, hst', _, _⟩ <;> rw [hst'] at hk <;>
          rcases kind <;> cases hk
    · intro r hr
      obtain ⟨j, hj, hid, hst⟩ := hc.job r hr
      obtain ⟨j', hj', hf'⟩ := hp.jobs j hj
      exact ⟨j', hj', hf'.same.id.trans hid, hf'.final r.kind hst⟩
    · intro j hj hn
      rcases Table.mem_write.mp hj with ⟨hj, _⟩ | ⟨rfl, _⟩
      · exact (hc.preceded j hj hn).persists hp rfl
      · have hattempt := hs.attempt
        simp only [JobRow.attempt, Prod.mk.injEq] at hattempt
        exact (hc.preceded job hm (hattempt.2.2 ▸ hn)).persists hp hs.attempt
  · have hd' : job'.status.isDispatched = true := by rw [hst']; exact result.kind.status_isDispatched
    refine ⟨by rw [Table.map_key_write]; exact hc.ids, ?_, Table.nodup_append_singleton hc.resultJobs (hjob ▸ hfresh), ?_,
      ?_, ?_, ?_, ?_⟩
    · rw [Table.map_write JobRow.attempt fun r hr hk => ?_]
      · exact hc.attempts
      · rw [Table.eq_of_key_eq hc.ids hr hm (hk.trans hs.id), hs.attempt]
    · intro j hj hd
      rcases Table.mem_write.mp hj with ⟨hj, _⟩ | ⟨rfl, _⟩
      · exact hc.undispatched j hj hd
      · rw [hd'] at hd; cases hd
    · intro j hj hd
      rcases Table.mem_write.mp hj with ⟨hj, _⟩ | ⟨rfl, _⟩
      · exact hc.dispatched j hj hd
      · have hdj : job.status.isDispatched = true := by rcases hst with hst | hst <;> rw [hst] <;> rfl
        have := hc.dispatched job hm hdj
        rwa [hcount, htoken]
    · intro j hj kind hk
      rcases Table.mem_write.mp hj with ⟨hj, _⟩ | ⟨rfl, _⟩
      · obtain ⟨r, hr, h⟩ := hc.result j hj kind hk
        exact ⟨r, List.mem_append_left _ hr, h⟩
      · refine ⟨result, List.mem_append_right _ (List.mem_singleton_self _), hjob.trans hs.id.symm, ?_⟩
        exact ResultKind.status_injective (hst'.symm.trans hk)
    · intro r hr
      rcases List.mem_append.mp hr with hr | hr
      · obtain ⟨j, hj, hid, hst⟩ := hc.job r hr
        obtain ⟨j', hj', hf'⟩ := hp.jobs j hj
        exact ⟨j', hj', hf'.same.id.trans hid, hf'.final r.kind hst⟩
      · rw [List.mem_singleton.mp hr]
        exact ⟨job', Table.mem_write.mpr (.inr ⟨rfl, job, hm, hs.id.symm⟩), hs.id.trans hjob.symm, hst'⟩
    · intro j hj hn
      rcases Table.mem_write.mp hj with ⟨hj, _⟩ | ⟨rfl, _⟩
      · exact (hc.preceded j hj hn).persists hp rfl
      · have hattempt := hs.attempt
        simp only [JobRow.attempt, Prod.mk.injEq] at hattempt
        exact (hc.preceded job hm (hattempt.2.2 ▸ hn)).persists hp hs.attempt

theorem Changes.consistent {t t' : Tables} (h : Changes t t') (hc : Consistent t) : Consistent t' := by
  induction h with
  | refl => exact hc
  | tail _ hchange ih => exact hchange.consistent ih

theorem Changes.persists {t t' : Tables} (h : Changes t t') (hc : Consistent t) : Persists t t' := by
  induction h with
  | refl => exact .refl t
  | tail hrest hchange ih => exact ih.trans (hchange.persists (Changes.consistent hrest hc))

end Mydon.Jobs
