import Mydon.Tasks.TaskRows

/-! The fence of a run. A run holds a task from its claim until the run id is replaced or
cleared; the id is drawn anew by each claim, so what has lost the task never holds it again. -/

namespace Mydon.Tasks

open Mydon.Lib
open Jobs (World TaskRow)
open Board

/-- The run id that a claim draws. -/
def Action.claimedRunId : Action → Option String
  | .claimAgentRun _ _ _ _ runId _ => some runId
  | _ => none

/-- The run id that a call of a worker carries. -/
def Action.carriedRunId : Action → Option String
  | .heartbeatAgentRun _ _ runId _ => some runId
  | .startAgentRun _ input _ _ _ => some input.runId
  | .ensureAgentRunInputSnapshot _ input _ => some input.runId
  | .checkpointAgentRun _ input _ _ _ => some input.runId
  | .commitAgentRun _ input _ _ => some input.runId
  | .releaseAgentRun _ _ runId _ _ _ _ => some runId
  | _ => none

def Action.claims (a : Action) (id runId : String) : Prop :=
  ∃ agentName now invocation newAttemptId, a = .claimAgentRun id agentName now invocation runId newAttemptId

/-- The run holds the task. -/
def Holds (b : Board) (id runId : String) : Prop := ∃ t, b.world.findTask id = some t ∧ t.agentRunId = some runId

/-- A claim or a heartbeat of the run that succeeded. -/
def Touches (env : Env) (e : TaskStep) (id runId : String) : Prop :=
  (e.action.claims id runId ∧ ∃ run, answer env e = .claimed (some run)) ∨
    (∃ agentName now, e.action = .heartbeatAgentRun id agentName runId now ∧ answer env e = .renewed true)

/-- What the run of a claim finds on the task that it takes. -/
structure Free (env : Env) (earlier : List TaskStep) (t : TaskRow) (now : ℤ) : Prop where
  open_ : t.status ≠ .done ∧ t.status ≠ .cancelled
  unblocked : t.agentExecutionBlockedAt = none
  due : ∀ retryAt, t.agentExecutionRetryAt = some retryAt → retryAt ≤ now
  lease : ∀ runId, t.agentRunId = some runId → ∀ e ∈ earlier, Touches env e t.id runId →
    e.action.now + AGENT_RUN_LEASE_MS ≤ now

def generation (b : Board) (id : String) : ℕ := (b.taskColumns id).agentRunGeneration

/-- The law of the fence, over the steps of a run. -/
structure LeaseLaw (env : Env) (steps : List TaskStep) : Prop where
  monotone : ∀ e ∈ steps, ∀ id, generation e.before id ≤ generation e.after id
  claim : ∀ earlier e later, steps = earlier ++ e :: later → ∀ id runId, e.action.claims id runId →
    (answer env e = .claimed none ∧ e.after = e.before) ∨
      (generation e.after id = generation e.before id + 1 ∧
        ∃ t, e.before.world.findTask id = some t ∧ Free env earlier t e.action.now)
  fenced : ∀ earlier e later, steps = earlier ++ e :: later → ∀ id runId, Holds e.before id runId →
    ¬ Holds e.after id runId → ∀ e' ∈ later, e'.action.carriedRunId = some runId → e'.after = e'.before

section
variable {env : Env} {b b' : Board} {a : Action} {id runId : String} {t t' : TaskRow} {steps : List TaskStep}

theorem carriedRunId_of_fence {fence : Fence} (h : a.fence = some (id, fence)) :
    a.carriedRunId = some fence.runId := by
  cases a <;> cases h <;> rfl

theorem Fenced.holds_run {fence : Fence} (h : Fenced b t fence) : Holds b t.id fence.runId :=
  ⟨t, h.found, h.holds.1.agentRunId⟩

/-- A call whose run holds no task changes nothing. -/
theorem Effect.eq_of_stale (h : Effect env b a b') (hcarried : a.carriedRunId = some runId)
    (hstale : ∀ id, ¬ Holds b id runId) : b' = b := by
  rcases h with _ | _ | _ | _ | ⟨row, _, _, _, hfound, hholds⟩ | ⟨_, row, fence, _, _, hfence, hfenced, _⟩ |
    ⟨row, _, _, _, _, _, _, hfenced, _⟩ | ⟨row, _, _, _, _, hfenced, _, _, _⟩ |
    ⟨row, _, _, _, _, _, _, _, hfenced, _, _, _, _⟩ | ⟨row, _, _, _, _, _, _, _, _, hfenced, _⟩ |
    ⟨row, _, _, _, _, _, _, _, _, hfenced, _, _, _, _⟩ | ⟨row, _, _, _, hfenced⟩ |
    ⟨row, _, _, _, _, _, _, hfound, hholds⟩ | _ | _ | _ | _ | _ | _ | _ | _
  all_goals try cases hcarried
  · rfl
  · exact absurd ⟨row, hfound, hholds.agentRunId⟩ (hstale row.id)
  · rw [carriedRunId_of_fence hfence] at hcarried
    cases hcarried
    exact absurd hfenced.holds_run (hstale row.id)
  · exact absurd hfenced.holds_run (hstale row.id)
  · exact absurd hfenced.holds_run (hstale row.id)
  · exact absurd hfenced.holds_run (hstale row.id)
  · exact absurd hfenced.holds_run (hstale row.id)
  · exact absurd hfenced.holds_run (hstale row.id)
  · exact absurd hfenced.holds_run (hstale row.id)
  · exact absurd ⟨row, hfound, hholds.1.agentRunId⟩ (hstale row.id)

/-- The run of a task is the one it had, or the one of the claim; a new lease starts now. -/
theorem RowChange.run (h : RowChange b a t t') (hrun : t'.agentRunId = some runId) :
    (t.agentRunId = some runId ∧ t'.agentRunClaimedAt = t.agentRunClaimedAt) ∨
      (t'.agentRunClaimedAt = some a.now ∧ (t.agentRunId = some runId ∨ a.claims t.id runId)) := by
  rcases h with ⟨_, hkept⟩ | ⟨agentName, now, invocation, _, newAttemptId, rfl, _⟩ | _ |
    ⟨_, _, now, rfl, _⟩ | _ | _ | ⟨_, _, _, _, _, _, _, _, _, hrotated⟩ | _
  · rcases hkept.run with ⟨hr, hc⟩ | ⟨hnone, _⟩
    · exact .inl ⟨hr.symm.trans hrun, hc⟩
    · rw [hnone] at hrun
      cases hrun
  · cases hrun
    exact .inr ⟨rfl, .inr ⟨agentName, now, invocation, newAttemptId, rfl⟩⟩
  · cases hrun
  · exact .inr ⟨rfl, .inl hrun⟩
  · cases hrun
  · exact .inl ⟨hrun, rfl⟩
  · rw [hrotated.run.1] at hrun
    cases hrun
  · cases hrun

/-- A run comes to hold a task by its claim only. -/
theorem Effect.holds (h : Effect env b a b') (hholds : Holds b' id runId) :
    Holds b id runId ∨ a.claims id runId := by
  obtain ⟨t', ht', hrun⟩ := hholds
  rcases ht : b.world.findTask id with _ | t
  · obtain ⟨row, rfl⟩ := h.newTaskRow ht ht'
    cases hrun
  · obtain ⟨t'', ht'', hchange, -⟩ := h.taskRow ht
    obtain rfl : t'' = t' := Option.some.inj (ht''.symm.trans ht')
    obtain rfl : t.id = id := Table.key_of_lookup ht
    rcases hchange.run hrun with ⟨hold, _⟩ | ⟨_, hold | hclaims⟩
    · exact .inl ⟨t, ht, hold⟩
    · exact .inl ⟨t, ht, hold⟩
    · exact .inr hclaims

theorem holds_claimed {b₀ : Board} (h : Run (next env) b₀ steps b) (hstart : ¬ Holds b₀ id runId)
    (hholds : Holds b id runId) : ∃ e ∈ steps, e.action.claims id runId := by
  obtain ⟨e, he, hbefore, hafter⟩ := Run.exists_change (p := fun b => Holds b id runId) h hstart hholds
  obtain ⟨_, _, _, _, hnext, _⟩ := h.split he
  exact ⟨e, he, ((next_effect hnext).holds hafter).resolve_left hbefore⟩

theorem not_holds_emptyBoard : ¬ Holds emptyBoard id runId := fun ⟨_, ht, _⟩ => nomatch ht

theorem claimedRunId_of_claims (h : a.claims id runId) : a.claimedRunId = some runId := by
  obtain ⟨_, _, _, _, rfl⟩ := h
  rfl

/-- A claim finds nothing to take, or takes the row that it found, and may then block it. -/
theorem claimAgentRun_cases (env : Env) (b : Board) (id agentName : String) (now : ℤ) (invocation : Invocation)
    (runId newAttemptId : String) :
    b.claimAgentRun env id agentName now invocation runId newAttemptId = (.ok none, b) ∨
      ∃ row, row.id = id ∧ b.world.findTask row.id = some row ∧ claimable row agentName now invocation ∧
        ((∃ reason, b.claimAgentRun env id agentName now invocation runId newAttemptId =
          (b.takeRun row runId newAttemptId now).blockAgentExecution (claimedTask row runId newAttemptId now) reason now) ∨
        ∃ run, b.claimAgentRun env id agentName now invocation runId newAttemptId =
          (.ok (some run), b.takeRun row runId newAttemptId now)) := by
  unfold Board.claimAgentRun
  rcases hf : (b.world.findTask id).filter fun row => claimable row agentName now invocation with _ | row
  · exact .inl rfl
  · right
    obtain ⟨hfound, hclaim⟩ := Option.filter_eq_some_iff.mp hf
    obtain rfl : row.id = id := Table.key_of_lookup hfound
    refine ⟨row, rfl, hfound, of_decide_eq_true hclaim, ?_⟩
    dsimp only
    split
    · exact .inl ⟨_, rfl⟩
    · exact .inr ⟨_, rfl⟩

theorem findTask_takeRun (hfound : b.world.findTask t.id = some t) (runId newAttemptId : String) (now : ℤ) :
    (b.takeRun t runId newAttemptId now).world.findTask t.id = some (claimedTask t runId newAttemptId now) := by
  have hid : (claimedTask t runId newAttemptId now).id = t.id := rfl
  rw [← hid] at hfound
  exact Table.lookup_write_self hfound

/-- A claim or a heartbeat that succeeds starts the lease anew. -/
theorem Touches.claimedAt (h : Touches env ⟨b, a, b'⟩ id runId) (hnext : next env b a b') :
    ∃ t, b'.world.findTask id = some t ∧ t.agentRunClaimedAt = some a.now := by
  subst hnext
  rcases h with ⟨⟨agentName, now, invocation, newAttemptId, rfl⟩, run, hanswer⟩ | ⟨agentName, now, rfl, hanswer⟩
  · simp only [answer, perform] at hanswer ⊢
    rcases claimAgentRun_cases env b id agentName now invocation runId newAttemptId with
      hnone | ⟨row, rfl, hfound, _, ⟨reason, hblocked⟩ | ⟨run, hrun⟩⟩
    · rw [hnone] at hanswer
      cases hanswer
    · rw [hblocked] at hanswer
      cases hanswer
    · rw [hrun]
      exact ⟨_, findTask_takeRun hfound runId newAttemptId now, rfl⟩
  · simp only [answer, perform, Board.heartbeatAgentRun] at hanswer ⊢
    rcases hf : (b.world.findTask id).filter fun row => HoldsLease row agentName runId with _ | row
    · rw [hf] at hanswer
      cases hanswer
    · obtain ⟨hfound, _⟩ := Option.filter_eq_some_iff.mp hf
      obtain rfl : row.id = id := Table.key_of_lookup hfound
      exact ⟨_, Table.lookup_write_self hfound, rfl⟩

/-- The lease of the run that holds a task is not older than any claim or heartbeat of it. -/
theorem lease_of_run (h : Run (next env) emptyBoard steps b)
    (hclock : steps.Pairwise fun e e' => e.action.now ≤ e'.action.now) (ht : b.world.findTask id = some t)
    (hrun : t.agentRunId = some runId) :
    ∃ claimedAt, t.agentRunClaimedAt = some claimedAt ∧
      ∀ e ∈ steps, Touches env e id runId → e.action.now ≤ claimedAt := by
  induction h generalizing t with
  | start => cases ht
  | @step steps b b' a _ hnext ih =>
    rw [List.pairwise_append] at hclock
    obtain ⟨hclock, _, hlast⟩ := hclock
    have hnow : ∀ e ∈ steps ++ [⟨b, a, b'⟩], e.action.now ≤ a.now := by
      intro e he
      rcases List.mem_append.mp he with he | he
      · exact hlast e he _ (List.mem_singleton_self _)
      · rw [List.mem_singleton.mp he]
    by_cases htouch : Touches env ⟨b, a, b'⟩ id runId
    · obtain ⟨t', ht', hclaimed⟩ := htouch.claimedAt hnext
      obtain rfl : t' = t := Option.some.inj (ht'.symm.trans ht)
      exact ⟨a.now, hclaimed, fun e he _ => hnow e he⟩
    · rcases hbefore : b.world.findTask id with _ | t₀
      · obtain ⟨row, rfl⟩ := (next_effect hnext).newTaskRow hbefore ht
        cases hrun
      · obtain ⟨t', ht', hchange, -⟩ := (next_effect hnext).taskRow hbefore
        obtain rfl : t' = t := Option.some.inj (ht'.symm.trans ht)
        rcases hchange.run hrun with ⟨hold, hsame⟩ | ⟨hclaimed, _⟩
        · obtain ⟨claimedAt, hat, hle⟩ := ih hclock hbefore hold
          refine ⟨claimedAt, hsame.trans hat, fun e he htouches => ?_⟩
          rcases List.mem_append.mp he with he | he
          · exact hle e he htouches
          · rw [List.mem_singleton.mp he] at htouches
            exact absurd htouches htouch
        · exact ⟨a.now, hclaimed, fun e he _ => hnow e he⟩

theorem generation_le (h : Effect env b a b') (id : String) : generation b id ≤ generation b' id := by
  rcases h.generation id with hsame | ⟨_, _, _, _, _, _, hnext⟩
  · exact hsame.ge
  · unfold generation
    omega

/-- A claim leaves everything as it is, or takes a task that is free for it. -/
theorem claim_step (h : Run (next env) emptyBoard steps b)
    (hclock : steps.Pairwise fun e e' => e.action.now ≤ e'.action.now) (hnext : next env b a b')
    (hclaims : a.claims id runId) :
    (answer env ⟨b, a, b'⟩ = .claimed none ∧ b' = b) ∨
      (generation b' id = generation b id + 1 ∧ ∃ t, b.world.findTask id = some t ∧ Free env steps t a.now) := by
  obtain ⟨agentName, now, invocation, newAttemptId, rfl⟩ := hclaims
  subst hnext
  simp only [answer, perform]
  rcases claimAgentRun_cases env b id agentName now invocation runId newAttemptId with
    hnone | ⟨row, rfl, hfound, ⟨_, _, _, hopen, hunblocked, hdue, hlease⟩, htaken⟩
  · rw [hnone]
    exact .inl ⟨rfl, rfl⟩
  · refine .inr ⟨?_, row, hfound, hopen, hunblocked, fun retryAt hat => ?_, fun held hheld e he htouches => ?_⟩
    · have hgeneration := generation_takeRun (b := b) row runId newAttemptId now row.id
      rw [if_pos rfl] at hgeneration
      rcases htaken with ⟨reason, hblocked⟩ | ⟨run, hrun⟩
      · rw [hblocked]
        exact hgeneration
      · rw [hrun]
        exact hgeneration
    · rw [hat] at hdue
      exact of_decide_eq_true hdue
    · obtain ⟨claimedAt, hat, hle⟩ := lease_of_run h hclock hfound hheld
      rw [hheld, hat] at hlease
      have hold : claimedAt ≤ now - AGENT_RUN_LEASE_MS :=
        of_decide_eq_true (hlease.resolve_left (Option.some_ne_none _))
      have := hle e he htouches
      show e.action.now + AGENT_RUN_LEASE_MS ≤ now
      omega

/-- What a step takes a run from is lost to the run for good. -/
theorem not_holds_after {earlier later : List TaskStep} {e : TaskStep} {id' : String}
    (h : Run (next env) emptyBoard (earlier ++ e :: later) b)
    (hfresh : ((earlier ++ e :: later).filterMap fun e => e.action.claimedRunId).Nodup)
    (hbefore : Holds e.before id runId) (hafter : ¬ Holds e.after id runId) : ¬ Holds b id' runId := by
  intro hholds
  obtain ⟨hearlier, _, hlater⟩ := h.of_append
  obtain ⟨c, hc, hclaims⟩ := holds_claimed hearlier not_holds_emptyBoard hbefore
  by_cases hid : id' = id
  · -- the task comes back to the run only by a second claim with the same id
    subst hid
    obtain ⟨c', hc', hclaims'⟩ := holds_claimed hlater hafter hholds
    rw [List.filterMap_append, List.nodup_append] at hfresh
    refine hfresh.2.2 runId (List.mem_filterMap.mpr ⟨c, hc, claimedRunId_of_claims hclaims⟩) runId ?_ rfl
    exact List.mem_filterMap.mpr ⟨c', List.mem_cons_of_mem _ hc', claimedRunId_of_claims hclaims'⟩
  · obtain ⟨c', hc', hclaims'⟩ := holds_claimed h not_holds_emptyBoard hholds
    obtain rfl : c = c' := eq_of_nodup_filterMap hfresh (List.mem_append_left _ hc) hc'
      (claimedRunId_of_claims hclaims) (claimedRunId_of_claims hclaims')
    obtain ⟨_, _, _, _, hact⟩ := hclaims
    obtain ⟨_, _, _, _, hact'⟩ := hclaims'
    rw [hact] at hact'
    cases hact'
    exact hid rfl

/-- A run id that a task has lost fences every later call that carries it. -/
theorem leaseLaw_of_run (h : Run (next env) emptyBoard steps b)
    (hclock : steps.Pairwise fun e e' => e.action.now ≤ e'.action.now)
    (hfresh : (steps.filterMap fun e => e.action.claimedRunId).Nodup) : LeaseLaw env steps := by
  refine ⟨fun e he id => ?_, fun earlier e later hsplit id runId hclaims => ?_,
    fun earlier e later hsplit id runId hbefore hafter e' he' hcarried => ?_⟩
  · obtain ⟨_, _, _, _, hnext, _⟩ := h.split he
    exact generation_le (next_effect hnext) id
  · subst hsplit
    obtain ⟨hearlier, hnext, _⟩ := h.of_append
    exact claim_step hearlier (List.pairwise_append.mp hclock).1 hnext hclaims
  · subst hsplit
    obtain ⟨mid, rest, rfl⟩ := List.append_of_mem he'
    have hsplit : earlier ++ e :: (mid ++ e' :: rest) = (earlier ++ e :: mid) ++ e' :: rest := by simp
    rw [hsplit] at h hfresh
    obtain ⟨hmid, hnext, _⟩ := h.of_append
    refine (next_effect hnext).eq_of_stale hcarried fun id' => ?_
    refine not_holds_after hmid ?_ hbefore hafter
    rw [List.filterMap_append, List.nodup_append] at hfresh
    exact hfresh.1

end

def workerEnv : Env := ⟨Ledger.sampleHost, 2⟩

def workerTask : TaskRow where
  id := "task"
  title := "title"
  description := none
  ownerKind := .agent
  ownerRef := some "agent"
  domain := none
  entityId := none
  priority := "normal"
  due := none
  source := none
  createdBy := none
  agentSkill := none
  runOptions := none
  status := .todo
  agentRunId := none
  agentRunClaimedAt := none
  agentExecutionAttemptId := none
  agentExecutionRetryAt := none
  agentExecutionBlockedAt := none
  agentExecutionBlockedReason := none

/-- A worker that is replaced after its lease, and comes back. -/
def replacedWorker : List Action :=
  [.createTask workerTask 0, .claimAgentRun "task" "agent" 1 .assigned "run-1" "attempt-1",
    .heartbeatAgentRun "task" "agent" "run-1" 2,
    .claimAgentRun "task" "agent" (2 + AGENT_RUN_LEASE_MS) .assigned "run-2" "attempt-2",
    .heartbeatAgentRun "task" "agent" "run-1" (3 + AGENT_RUN_LEASE_MS),
    .releaseAgentRun "task" "agent" "run-1" "attempt-1" none none (3 + AGENT_RUN_LEASE_MS)]

theorem leaseLaw_replacedWorker : LeaseLaw workerEnv (runOf workerEnv emptyBoard replacedWorker).1 := by
  have hactions : (runOf workerEnv emptyBoard replacedWorker).1.map Step.action = replacedWorker :=
    map_action_runActions _ _ _
  have hclock : replacedWorker.Pairwise fun a a' => a.now ≤ a'.now := by decide
  have hfresh : (replacedWorker.filterMap Action.claimedRunId).Nodup := by decide
  rw [← hactions, List.pairwise_map] at hclock
  rw [← hactions, List.filterMap_map] at hfresh
  exact leaseLaw_of_run (run_runOf workerEnv emptyBoard replacedWorker) hclock hfresh

end Mydon.Tasks
