import Mydon.Jobs.Runs

/-! What ensure, claim and complete do to all the tables: a sequence of moves, each
with the condition under which it is made. -/

namespace Mydon.Jobs

open Mydon.Lib
open Js (Json HttpError)
open Ledger (LedgerEnv ReserveResponse)

/-- The task is open and its current attempt is the execution, which is active. -/
structure Current (w : World) (task : TaskRow) (execution : ExecutionRow) : Prop where
  found : w.findTask task.id = some task
  byAttempt : w.findExecutionByAttempt execution.executionAttemptId = some execution
  own : execution.taskId = task.id
  attempt : task.agentExecutionAttemptId = some execution.executionAttemptId
  open_ : task.status ≠ .done ∧ task.status ≠ .cancelled
  active : execution.status = .active

inductive Move (w : World) : World → Prop
  | block (task : TaskRow) (reason : String) (now : ℤ) : w.findTask task.id = some task →
    task.status ≠ .done ∧ task.status ≠ .cancelled →
    Move w (w.writeTask (World.blockedTask task reason now))
  | unblock (task : TaskRow) : w.findTask task.id = some task → task.status = .todo →
    Move w (w.writeTask { task with
      status := .todo
      agentExecutionRetryAt := none
      agentExecutionBlockedAt := none
      agentExecutionBlockedReason := none })
  | insert (task : TaskRow) (execution : ExecutionRow) (job : JobRow) : Current w task execution →
    job.taskAgentExecutionId = execution.id → (∀ j ∈ w.jobs, j.id ≠ job.id) → job.status = .waitingBudget →
    job.spendId = none → Move w { w with jobs := w.jobs ++ [job] }
  | expire (job : JobRow) (now : ℤ) : job ∈ w.jobs → job.status = .dispatching →
    job.dispatchDeadlineAt.any (· ≤ now) = true → Move w (w.writeJob (World.expiredJob job now))
  | authorize (job : JobRow) (spendId : String) (now : ℤ) : job ∈ w.jobs → job.status = .waitingBudget →
    Move w (w.writeJob (World.readyJob job spendId now))
  | dispatch (task : TaskRow) (execution : ExecutionRow) (job : JobRow) (input : ClaimDto) (now : ℤ) :
    Current w task execution → job ∈ w.jobs → job.taskAgentExecutionId = execution.id → job.status = .ready →
    Move w (w.writeJob (World.dispatchingJob job input now))
  | lose (job : JobRow) (now : ℤ) : job ∈ w.jobs → job.status = .dispatching →
    Move w (w.writeJob (World.unknownJob job now))
  | complete (job : JobRow) (kind : ResultKind) (payload : Json) (now : ℤ) (result : ResultRow) : job ∈ w.jobs →
    job.status = .dispatching ∨ job.status = .unknown →
    Move w ({ w with results := w.results ++ [result] }.writeJob (World.completedJob job kind payload now))
  | authorizations (authorizations : List AuthorizationRow) : Move w { w with authorizations }
  | ledger (spends : Ledger.Spends) : Ledger.Effect w.spends spends → Move w { w with spends }

/-- Several moves, as one transaction makes them. -/
def Moved : World → World → Prop := Relation.ReflTransGen Move

theorem Moved.refl (w : World) : Moved w w := Relation.ReflTransGen.refl

theorem Moved.of {w w' : World} (h : Move w w') : Moved w w' := Relation.ReflTransGen.single h

theorem Moved.trans {w w' w'' : World} (h : Moved w w') (h' : Moved w' w'') : Moved w w'' :=
  Relation.ReflTransGen.trans h h'

section
variable {w w' : World} {env : LedgerEnv} {task : TaskRow} {execution : ExecutionRow} {job : JobRow} {now : ℤ}
  {host : Js.Host} {response : ReserveResponse} {body : Option Json}
  {clock : List ℤ} {newSpendId : String}

/-- A transaction that ends in a durable conflict has blocked its task, and done nothing after that. -/
theorem moved_blockTask {α : Type} (htask : w.findTask task.id = some task)
    (hopen : task.status ≠ .done ∧ task.status ≠ .cancelled) (reason : String) :
    Moved w (w.blockTask task reason now : Committed α).2 := .of (.block task reason now htask hopen)

theorem fencedTask_eq_ok {taskId agentName runId attemptId : String}
    (h : w.fencedTask taskId agentName runId attemptId = .ok task) :
    w.findTask task.id = some task ∧ task.id = taskId ∧ task.ownerKind = .agent ∧
      task.agentExecutionAttemptId = some attemptId ∧ task.status ≠ .done ∧ task.status ≠ .cancelled := by
  unfold World.fencedTask World.lockTask at h
  simp only [Js.bind_eq_ok, Js.orThrow_eq_ok] at h
  obtain ⟨found, hfound, h⟩ := h
  obtain rfl : found.id = taskId := Table.key_of_lookup hfound
  unfold fenceConflict at h
  split_ifs at h with hstale
  cases h
  push Not at hstale
  obtain ⟨hkind, _, _, hattempt, hdone, hcancelled⟩ := hstale
  exact ⟨hfound, rfl, hkind, hattempt, hdone, hcancelled⟩

theorem current_of_filter {attemptId : String} {agentName : String} (htask : w.findTask task.id = some task)
    (hattempt : task.agentExecutionAttemptId = some attemptId)
    (hopen : task.status ≠ .done ∧ task.status ≠ .cancelled)
    (hfind : ((w.findExecutionByAttempt attemptId).filter fun e => e.taskId = task.id && e.agentName = agentName) =
      some execution) (hactive : execution.status = .active) : Current w task execution := by
  obtain ⟨hfind, hown⟩ := Option.filter_eq_some_iff.mp hfind
  have hid : execution.executionAttemptId = attemptId := Table.key_of_lookup hfind
  simp only [Bool.and_eq_true, decide_eq_true_eq] at hown
  exact ⟨htask, hid.symm ▸ hfind, hown.1, hid.symm ▸ hattempt, hopen, hactive⟩

theorem ensureGate_eq_ok {input : EnsureDto} (htask : w.findTask task.id = some task)
    (hattempt : task.agentExecutionAttemptId = some input.executionAttemptId)
    (hopen : task.status ≠ .done ∧ task.status ≠ .cancelled)
    (h : w.ensureGate host task input = .ok execution) : Current w task execution := by
  unfold World.ensureGate at h
  split at h
  · cases h
  · rename_i found hfind
    split_ifs at h with hactive hhash
    split at h
    · cases h
    · cases h
      exact current_of_filter htask hattempt hopen hfind (not_not.mp hactive)

theorem claimExecution_eq_ok {input : ClaimDto} (htask : w.findTask task.id = some task)
    (hattempt : task.agentExecutionAttemptId = some input.executionAttemptId)
    (hopen : task.status ≠ .done ∧ task.status ≠ .cancelled)
    (h : w.claimExecution host task input = .ok execution) : Current w task execution := by
  unfold World.claimExecution at h
  split at h
  · cases h
  · rename_i found hfind
    split_ifs at h with hchanged
    push Not at hchanged
    cases h
    exact current_of_filter htask hattempt hopen hfind hchanged.1

theorem moved_expire (hm : job ∈ w.jobs) (now : ℤ) : Moved w (w.expireDispatchIfNeeded job now).2 := by
  unfold World.expireDispatchIfNeeded
  split_ifs with h
  · exact .of (.expire job now hm h.1 h.2)
  · exact .refl w

@[simp] theorem tasks_expire : (w.expireDispatchIfNeeded job now).2.tasks = w.tasks := by
  unfold World.expireDispatchIfNeeded
  split_ifs <;> rfl

@[simp] theorem executions_expire : (w.expireDispatchIfNeeded job now).2.executions = w.executions := by
  unfold World.expireDispatchIfNeeded
  split_ifs <;> rfl

/-- The tasks and the executions are all that the current attempt depends on. -/
theorem Current.congr (h : Current w task execution) (ht : w'.tasks = w.tasks) (he : w'.executions = w.executions) :
    Current w' task execution := by
  refine ⟨?_, ?_, h.own, h.attempt, h.open_, h.active⟩
  · simpa only [World.findTask, ht] using h.found
  · simpa only [World.findExecutionByAttempt, he] using h.byAttempt

theorem ensureJob_moved {input : EnsureDto} {requestPayload : Json} {newJobId : String}
    (hc : Current w task execution)
    (h : w.ensureJob env.host execution input requestPayload newJobId now = .ok (.ok (job, w'))) :
    Moved w w' ∧ job ∈ w'.jobs ∧ w'.tasks = w.tasks ∧ w'.executions = w.executions := by
  unfold World.ensureJob at h
  rcases hf : w.findAttempt (execution.id, input.stepKey, input.providerAttemptNo) with _ | existing
  · simp only [hf] at h
    split at h
    · cases h
    · obtain ⟨inserted, hi, heq⟩ := Js.map_eq_ok.mp h
      cases heq
      obtain ⟨hid, _, _, rfl⟩ := insertJob_eq_ok hi
      exact ⟨.of (.insert task execution _ hc rfl hid rfl rfl), List.mem_append_right _ (List.mem_singleton_self _),
        rfl, rfl⟩
  · simp only [hf] at h
    split at h
    · cases h
    · cases h
      exact ⟨.refl _, Table.mem_of_lookup hf, rfl, rfl⟩

theorem applyDecision_moved {spendId : String} {r : Committed EnsureResponse}
    (hm : job ∈ w.jobs) (hst : job.status = .waitingBudget) (htask : w.findTask task.id = some task)
    (hopen : task.status ≠ .done ∧ task.status ≠ .cancelled)
    (h : w.applyDecision task job spendId response now = .ok r) : Moved w r.2 := by
  unfold World.applyDecision at h
  rcases response with ⟨action, reservation, budget⟩ | ⟨status, action, reason, blocked, budget⟩
  · simp only [Js.bind_eq_ok] at h
    obtain ⟨_, _, _, _, h⟩ := h
    cases h
    exact .of (.authorize job spendId now hm hst)
  · dsimp only at h
    split_ifs at h <;> cases h
    · exact moved_blockTask htask hopen _
    · exact .refl _

theorem recordAuthorization_moved {day : ℤ} {requestKey : String}
    {r : Committed EnsureResponse} (hm : job ∈ w.jobs) (hst : job.status = .waitingBudget)
    (htask : w.findTask task.id = some task) (hopen : task.status ≠ .done ∧ task.status ≠ .cancelled)
    (h : w.recordAuthorization task job day requestKey response now = .ok r) : Moved w r.2 := by
  unfold World.recordAuthorization at h
  simp only [Js.bind_eq_ok] at h
  obtain ⟨spend, _, h⟩ := h
  split_ifs at h with hday
  · cases h
    exact moved_blockTask htask hopen _
  · rcases ha : w.findAuthorization job.id day with _ | authorization
    · simp only [ha, Js.bind_eq_ok] at h
      obtain ⟨inserted, hi, h⟩ := h
      obtain rfl := insertAuthorization_eq_ok hi
      have hrest := applyDecision_moved (w := { w with authorizations := w.authorizations ++ [_] }) hm hst htask hopen h
      exact (Moved.of (.authorizations _)).trans hrest
    · simp only [ha] at h
      split_ifs at h
      · cases h
        exact moved_blockTask htask hopen _
      · exact applyDecision_moved hm hst htask hopen h

theorem authorize_moved {r : Committed EnsureResponse}
    (hm : job ∈ w.jobs) (hst : job.status = .waitingBudget) (htask : w.findTask task.id = some task)
    (hopen : task.status ≠ .done ∧ task.status ≠ .cancelled)
    (h : w.authorize env task execution job now clock newSpendId = some (.ok r)) : Moved w r.2 := by
  unfold World.authorize at h
  rcases ha : w.authorizationError job clock with _ | message
  · simp only [ha] at h
    obtain ⟨⟨at_, day, request⟩, _, h⟩ := Option.map_eq_some_iff.mp h
    obtain ⟨⟨response, spends⟩, hreserve, h⟩ := Js.bind_eq_ok.mp h
    have hrest := recordAuthorization_moved (w := { w with spends }) hm hst htask hopen h
    exact (Moved.of (.ledger spends (Ledger.reserveAt_effect hreserve))).trans hrest
  · simp only [ha, Option.some.injEq, Except.ok.injEq] at h
    subst h
    exact moved_blockTask htask hopen _

theorem ensure_moved {taskId : String} {input : EnsureDto} {newJobId newSpendId : String}
    {r : Committed EnsureResponse}
    (h : w.ensure env taskId input now clock newJobId newSpendId = some (.ok r)) : Moved w r.2 := by
  unfold World.ensure at h
  split at h
  · cases h
  · rename_i requestPayload task hcheck
    unfold World.checkEnsure at hcheck
    simp only [Js.bind_eq_ok] at hcheck
    obtain ⟨_, _, _, _, _, _, found, hfenced, hcheck⟩ := hcheck
    cases hcheck
    obtain ⟨htask, _, _, hattempt, hopen⟩ := fencedTask_eq_ok hfenced
    rcases hg : w.ensureGate env.host task input with reason | execution
    · simp only [hg, Option.some.injEq, Except.ok.injEq] at h
      subst h
      exact moved_blockTask htask hopen _
    · have hc := ensureGate_eq_ok htask hattempt hopen hg
      rcases hj : w.ensureJob env.host execution input requestPayload newJobId now with _ | _ | ⟨job, w₁⟩
      · simp only [hg, hj] at h
        cases h
      · simp only [hg, hj, Option.some.injEq, Except.ok.injEq] at h
        subst h
        exact moved_blockTask htask hopen _
      · obtain ⟨hmoved, hm, ht, _⟩ := ensureJob_moved hc hj
        have htask' : (w₁.expireDispatchIfNeeded job now).2.findTask task.id = some task := by
          simpa only [World.findTask, tasks_expire, ht] using htask
        simp only [hg, hj] at h
        split_ifs at h with hst
        · obtain ⟨answer, _, heq⟩ := Js.map_eq_ok.mp (Option.some.inj h)
          subst heq
          exact hmoved.trans (moved_expire hm now)
        · have hauth := authorize_moved (changes_expire hm now).1 (not_not.mp hst) htask' hopen h
          exact (hmoved.trans (moved_expire hm now)).trans hauth

theorem grantDispatch_moved {spendId requestKey : String} {input : ClaimDto}
    {r : Committed ClaimResponse} (hc : Current w task execution) (hm : job ∈ w.jobs)
    (hexec : job.taskAgentExecutionId = execution.id) (hst : job.status = .ready)
    (h : w.grantDispatch task job spendId requestKey body input now response = .ok r) : Moved w r.2 := by
  unfold World.grantDispatch at h
  rcases response with ⟨action, reservation, budget⟩ | ⟨status, action, reason, blocked, budget⟩
  · dsimp only at h
    split_ifs at h
    · cases h
      exact moved_blockTask hc.found hc.open_ _
    · simp only [Js.bind_eq_ok] at h
      obtain ⟨_, _, h⟩ := h
      cases h
      exact .of (.dispatch task execution job input now hc hm hexec hst)
  · cases h
    exact moved_blockTask hc.found hc.open_ _

theorem dispatchReady_moved {input : ClaimDto}
    {r : Committed ClaimResponse} (hc : Current w task execution) (hm : job ∈ w.jobs)
    (hexec : job.taskAgentExecutionId = execution.id) (hst : job.status = .ready)
    (h : w.dispatchReady env task execution job body input now clock newSpendId = some (.ok r)) : Moved w r.2 := by
  unfold World.dispatchReady at h
  rcases hs : job.spendId with _ | spendId
  · simp only [hs, Option.some.injEq, Except.ok.injEq] at h
    subst h
    exact moved_blockTask hc.found hc.open_ _
  · rcases hf : Ledger.findSpend w.spends spendId with _ | spend
    · simp only [hs, hf, Option.some.injEq, Except.ok.injEq] at h
      subst h
      exact moved_blockTask hc.found hc.open_ _
    · simp only [hs, hf] at h
      obtain ⟨⟨at_, day, request⟩, _, h⟩ := Option.map_eq_some_iff.mp h
      obtain ⟨⟨response, spends⟩, hreserve, h⟩ := Js.bind_eq_ok.mp h
      have hc' : Current { w with spends } task execution := hc.congr rfl rfl
      have hrest := grantDispatch_moved hc' hm hexec hst h
      exact (Moved.of (.ledger spends (Ledger.reserveAt_effect hreserve))).trans hrest

theorem claimJob_moved {expiredNow : Bool} {input : ClaimDto}
    {r : Committed ClaimResponse} (hc : Current w task execution) (hm : job ∈ w.jobs)
    (hexec : job.taskAgentExecutionId = execution.id)
    (h : w.claimJob env task execution job expiredNow body input now clock newSpendId = some (.ok r)) :
    Moved w r.2 := by
  have hagain : w.claimAgain job expiredNow body input = .ok r → Moved w r.2 := by
    intro h
    rw [(claimAgain_eq_ok h).1]
    exact .refl w
  have hidle : r = (.ok ⟨false, false, job.status, job.operationHash, none, none⟩, w) → Moved w r.2 := by
    rintro rfl
    exact .refl w
  unfold World.claimJob at h
  rcases hs : job.status with _ | _ | _ | _ | _ | _ | _ <;> simp only [hs, Option.some.injEq] at h hidle
  · exact hidle (Except.ok.inj h).symm
  · exact dispatchReady_moved hc hm hexec hs h
  · exact hagain h
  · exact hagain h
  · exact hagain h
  · exact hagain h
  · exact hidle (Except.ok.inj h).symm

theorem claimBody_eq_ok (h : World.claimBody host execution job = .ok body) :
    job.taskAgentExecutionId = execution.id := by
  unfold World.claimBody at h
  by_contra hexec
  rw [if_pos hexec] at h
  cases h

theorem claimDispatch_moved {taskId jobId : String} {input : ClaimDto}
    {r : Committed ClaimResponse}
    (h : w.claimDispatch env taskId jobId input now clock newSpendId = some (.ok r)) : Moved w r.2 := by
  unfold World.claimDispatch at h
  split at h
  · cases h
  · rename_i task hfenced
    obtain ⟨htask, _, _, hattempt, hopen⟩ := fencedTask_eq_ok hfenced
    rcases hx : w.claimExecution env.host task input with reason | execution
    · simp only [hx, Option.some.injEq, Except.ok.injEq] at h
      subst h
      exact moved_blockTask htask hopen _
    · have hc := claimExecution_eq_ok htask hattempt hopen hx
      rcases hj : w.lockJob jobId with _ | before
      · simp only [hx, hj] at h
        cases h
      · have hm : before ∈ w.jobs := Table.mem_of_lookup (Js.orThrow_eq_ok.mp hj)
        rcases hb : World.claimBody env.host execution before with reason | body
        · simp only [hx, hj, hb, Option.some.injEq, Except.ok.injEq] at h
          subst h
          exact moved_blockTask htask hopen _
        · simp only [hx, hj, hb] at h
          have hexec := claimBody_eq_ok hb
          have hm' := (changes_expire hm now).1
          have hc' : Current (w.expireDispatchIfNeeded before now).2 task execution :=
            hc.congr tasks_expire executions_expire
          have hexec' : (w.expireDispatchIfNeeded before now).1.taskAgentExecutionId = execution.id := by
            rcases expireDispatchIfNeeded_cases w before now with he | ⟨_, he⟩ <;> rw [he] <;> exact hexec
          exact (moved_expire hm now).trans (claimJob_moved hc' hm' hexec' h)

theorem moved_unblockTask (host : Js.Host) (htask : w.findTask task.id = some task) :
    Moved w (w.unblockTask host task execution) := by
  unfold World.unblockTask
  dsimp only
  split_ifs with h
  · exact .of (.unblock task htask h.2.1)
  · exact .refl w

theorem complete_moved {taskId jobId : String} {input : CompleteDto} {detectedAt : ℤ}
    {r : Committed CompleteResponse} (h : w.complete env taskId jobId input now detectedAt = .ok r) :
    Moved w r.2 := by
  unfold World.complete at h
  split at h
  · cases h
  · cases h
  · simp only [Js.bind_eq_ok] at h
    obtain ⟨⟨task, execution, job⟩, howner, h⟩ := h
    have hm : job ∈ w.jobs := Table.mem_of_lookup (completionOwner_eq_ok.mp howner).1
    unfold World.completeUnknown at h
    rcases hs : job.status with _ | _ | _ | _ | _ | _ | _ <;> simp only [hs, Except.ok.injEq] at h <;> cases h
    · exact .of (.lose job now hm hs)
    · exact .refl w
  · simp only [Js.bind_eq_ok] at h
    obtain ⟨⟨task, execution, job⟩, howner, h⟩ := h
    obtain ⟨hjob, htask, _, _, _, _⟩ := completionOwner_eq_ok.mp howner
    obtain rfl : task.id = taskId := Table.key_of_lookup htask
    have hm : job ∈ w.jobs := Table.mem_of_lookup hjob
    unfold World.completeResult at h
    simp only [Js.bind_eq_ok] at h
    obtain ⟨payload, _, h⟩ := h
    rcases hf : w.findResult job.id with _ | stored
    · simp only [hf] at h
      unfold World.storeResult at h
      simp only [Js.bind_eq_ok, Js.require_eq_ok] at h
      obtain ⟨_, hst, spendId, _, ⟨closed, spends⟩, hsettle, h⟩ := h
      cases h
      have hledger : Moved w { w with spends } := .of (.ledger spends (.closing (Ledger.settleInTx_closing hsettle)))
      exact (hledger.trans (.of (.complete job _ payload now _ hm hst))).trans (moved_unblockTask env.host htask)
    · simp only [hf] at h
      split_ifs at h <;> (cases h; exact .refl _)

end

theorem commitIfReady_moved {α : Type} {w : World} {f : α → Answer} {x : Option (Except HttpError (Committed α))}
    (h : ∀ r, x = some (.ok r) → Moved w r.2) : Moved w (commitIfReady w f x).2 :=
  commitIfReady_of (.refl w) h

end Mydon.Jobs
