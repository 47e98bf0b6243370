import Mydon.Jobs.Moves
import Mydon.Tasks.Steps

/-! What a call can do to the tables, with the conditions under which it does it. Every
invariant of the runs is derived from this one case analysis. -/

namespace Mydon.Tasks

open Mydon.Lib
open Js (Json HttpError)
open Jobs (World TaskRow ExecutionRow JobRow TaskStatus)
open Ledger (LedgerEnv)
open Board

/-- The fence that a call carries, and the task that it is for. -/
def Action.fence : Action → Option (String × Fence)
  | .startAgentRun id input _ _ _ => some (id, input.toFence)
  | .ensureAgentRunInputSnapshot id input _ => some (id, input.toFence)
  | .checkpointAgentRun id input _ _ _ => some (id, input.toFence)
  | .commitAgentRun id input _ _ => some (id, input.toFence)
  | _ => none

/-- The locked task, held by the run of the fence. -/
structure Fenced (b : Board) (row : TaskRow) (fence : Fence) : Prop where
  found : b.world.findTask row.id = some row
  holds : HoldsRun row (Js.trim fence.agentName) fence.runId fence.executionAttemptId

/-- An execution as it is first inserted for the attempt of the fence. -/
structure NewExecution (b : Board) (row : TaskRow) (fence : Fence) (execution : ExecutionRow)
    (columns : ExecutionColumns) : Prop where
  id : ∀ e ∈ b.world.executions, e.id ≠ execution.id
  attempt : ∀ e ∈ b.world.executions, e.executionAttemptId ≠ execution.executionAttemptId
  own : execution.taskId = row.id
  attemptId : execution.executionAttemptId = fence.executionAttemptId
  agentName : execution.agentName = Js.trim fence.agentName
  active : execution.status = .active
  snapshot : execution.inputSnapshotKind = none ∧ execution.inputSnapshotPayload = none ∧
    execution.inputSnapshotHash = none
  columns : ∃ schemaVersion startedAt createdAt, columns = { schemaVersion, startedAt, createdAt }

/-- The board itself, or with the execution that bridges an older worker. -/
inductive Bridged (b : Board) (row : TaskRow) (fence : Fence) : Board → Prop
  | same : Bridged b row fence b
  | insert (execution : ExecutionRow) (columns : ExecutionColumns) : NewExecution b row fence execution columns →
    Bridged b row fence (b.addExecution execution columns)

/-- Undispatched jobs of one execution are cancelled, and the reservations of the ready ones released. -/
structure Cancels (b : Board) (executionId : String) (b' : Board) : Prop where
  released : ∃ env reason now spends, releaseReady env reason now b.world.spends (b.jobsOf executionId) = .ok spends ∧
    ∃ cancelReason, b' = { b with world := { b.world with spends } }.cancelJobs executionId cancelReason now

/-- What a change of status does before it writes the task. -/
inductive Cleans (b : Board) (task : TaskRow) (status : TaskStatus) : Board → Prop
  | open_ : isTerminalStatus status = false → Cleans b task status b
  | foreign : task.ownerKind ≠ .agent → Cleans b task status b
  | none : task.agentExecutionAttemptId.bind b.world.findExecutionByAttempt = none → Cleans b task status b
  | cancel (execution : ExecutionRow) (b' : Board) :
    task.agentExecutionAttemptId.bind b.world.findExecutionByAttempt = some execution → execution.taskId = task.id →
    Cancels b execution.id b' → Cleans b task status b'

/-- Only the outcome tables differ. -/
structure Records (b b' : Board) : Prop where
  world : b'.world = b.world
  taskColumns : b'.taskColumns = b.taskColumns
  executionColumns : b'.executionColumns = b.executionColumns

inductive Effect (env : Env) (b : Board) : Action → Board → Prop
  | idle (a : Action) : Effect env b a b
  | create (row : TaskRow) (now : ℤ) : (∀ t ∈ b.world.tasks, t.id ≠ row.id) →
    Effect env b (.createTask row now)
      { b with world := { b.world with tasks := b.world.tasks ++ [newTask row] } }
  | take (row : TaskRow) (agentName : String) (now : ℤ) (invocation : Invocation) (runId newAttemptId : String) :
    b.world.findTask row.id = some row → claimable row agentName now invocation →
    Effect env b (.claimAgentRun row.id agentName now invocation runId newAttemptId)
      (b.takeRun row runId newAttemptId now)
  | takeBlocked (row : TaskRow) (agentName : String) (now : ℤ) (invocation : Invocation)
    (runId newAttemptId reason : String) :
    b.world.findTask row.id = some row → claimable row agentName now invocation →
    Effect env b (.claimAgentRun row.id agentName now invocation runId newAttemptId)
      ((b.takeRun row runId newAttemptId now).writeTask
        (World.blockedTask (claimedTask row runId newAttemptId now) reason now))
  | renew (row : TaskRow) (agentName runId : String) (now : ℤ) : b.world.findTask row.id = some row →
    HoldsLease row agentName runId →
    Effect env b (.heartbeatAgentRun row.id agentName runId now)
      (b.writeTask { row with agentRunClaimedAt := some now })
  | block (a : Action) (row : TaskRow) (fence : Fence) (reason : String) (bridged : Board) :
    a.fence = some (row.id, fence) → Fenced b row fence → Bridged b row fence bridged →
    Effect env b a (bridged.writeTask (World.blockedTask row reason a.now))
  | start (row : TaskRow) (input : AgentRunStartInput) (now createdAt : ℤ) (newExecutionId : String)
    (execution : ExecutionRow) (columns : ExecutionColumns) : Fenced b row input.toFence →
    NewExecution b row input.toFence execution columns →
    Effect env b (.startAgentRun row.id input now createdAt newExecutionId) (b.addExecution execution columns)
  | snapshot (row : TaskRow) (input : AgentRunInputSnapshotInput) (now : ℤ) (execution : ExecutionRow)
    (view : AgentInputSnapshotView) : Fenced b row input.toFence →
    b.world.findExecutionByAttempt input.executionAttemptId = some execution → execution.status = .active →
    execution.inputSnapshotKind = none ∧ execution.inputSnapshotPayload = none ∧ execution.inputSnapshotHash = none →
    Effect env b (.ensureAgentRunInputSnapshot row.id input now)
      (b.writeExecution (snapshottedExecution execution view))
  | ready (row : TaskRow) (input : AgentRunCheckpointInput) (now createdAt : ℤ) (newExecutionId : String)
    (execution : ExecutionRow) (payload : Json) (hash : String) : Fenced b row input.toFence →
    b.world.findExecutionByAttempt input.executionAttemptId = some execution → execution.taskId = row.id →
    execution.status = .active → (∀ job ∈ b.jobsOf execution.id, World.isTerminal job.status = true) →
    Effect env b (.checkpointAgentRun row.id input now createdAt newExecutionId)
      (b.makeReady execution (readyColumns (b.executionColumns execution.id) input.kind payload hash))
  | bridge (row : TaskRow) (input : AgentRunCheckpointInput) (now createdAt : ℤ) (newExecutionId : String)
    (execution : ExecutionRow) (columns : ExecutionColumns) (payload : Json) (hash : String) :
    Fenced b row input.toFence → NewExecution b row input.toFence execution columns →
    Effect env b (.checkpointAgentRun row.id input now createdAt newExecutionId)
      ((b.addExecution execution columns).makeReady execution
        (readyColumns ((b.addExecution execution columns).executionColumns execution.id) input.kind payload hash))
  | commit (row : TaskRow) (input : AgentRunCommitInput) (ids : CommitIds) (now : ℤ) (execution : ExecutionRow)
    (recorded : Board) (hash : String) (approvalId outboxDeliveryId : Option String) :
    Fenced b row input.toFence → b.world.findExecutionByAttempt input.executionAttemptId = some execution →
    execution.taskId = row.id → execution.status = .ready → Records b recorded →
    Effect env b (.commitAgentRun row.id input ids now)
      (recorded.closeRun row execution (Js.trim input.agentName) (commitPayload input) hash approvalId
        outboxDeliveryId now)
  | capped (row : TaskRow) (input : AgentRunCommitInput) (ids : CommitIds) (now : ℤ) : Fenced b row input.toFence →
    Effect env b (.commitAgentRun row.id input ids now) (b.writeTask (cappedTask row now))
  | release (row : TaskRow) (agentName runId executionAttemptId : String) (reason : Option ReleaseReason)
    (detail : Option String) (now : ℤ) : b.world.findTask row.id = some row →
    HoldsRun row agentName runId executionAttemptId →
    Effect env b (.releaseAgentRun row.id agentName runId executionAttemptId reason detail now)
      ((if reason = some .executionUnknown then b.loseDispatches executionAttemptId now else b).writeTask
        (releasedTask row reason ((if reason = some .executionUnknown then
          b.loseDispatches executionAttemptId now else b).releaseEvidence row.id executionAttemptId reason) detail now))
  | resume (row : TaskRow) (ledger : LedgerEnv) (now : ℤ) (execution : ExecutionRow) :
    b.world.findTask row.id = some row → isRetryable row →
    row.agentExecutionAttemptId.bind b.world.findExecutionByAttempt = some execution →
    (∀ job ∈ b.jobsOf execution.id, inFlight job now = false) →
    Effect env b (.retryBlockedAgentExecution ledger row.id now)
      ((b.loseOverdue execution.id now).writeTask (resumedTask row))
  | retry (row : TaskRow) (ledger : LedgerEnv) (now : ℤ) (execution : ExecutionRow) (cancelled : Board) :
    b.world.findTask row.id = some row → isRetryable row →
    row.agentExecutionAttemptId.bind b.world.findExecutionByAttempt = some execution →
    execution.status = .active ∨ execution.status = .ready →
    (∀ job ∈ b.jobsOf execution.id, inFlight job now = false) →
    Cancels (b.loseOverdue execution.id now) execution.id cancelled →
    Effect env b (.retryBlockedAgentExecution ledger row.id now)
      ((cancelled.abandon execution now).writeTask (retriedTask row))
  | retryFree (row : TaskRow) (ledger : LedgerEnv) (now : ℤ) :
    b.world.findTask row.id = some row → isRetryable row →
    (∀ execution, row.agentExecutionAttemptId.bind b.world.findExecutionByAttempt = some execution →
      execution.status = .committed ∨ execution.status = .abandoned) →
    Effect env b (.retryBlockedAgentExecution ledger row.id now) (b.writeTask (retriedTask row))
  | repair (row : TaskRow) (ledger : LedgerEnv) (actorRef : String) (resultNote expected : Option String) (now : ℤ)
    (cleaned : Board) : b.world.findTask row.id = some row → Cleans b row row.status cleaned →
    Effect env b (.setStatus ledger row.id row.status actorRef resultNote expected now) cleaned
  | status (row : TaskRow) (ledger : LedgerEnv) (status : TaskStatus) (actorRef : String)
    (resultNote expected : Option String) (now : ℤ) (cleaned : Board) : b.world.findTask row.id = some row →
    Cleans b row status cleaned →
    Effect env b (.setStatus ledger row.id status actorRef resultNote expected now)
      ((cleaned.writeTask { row with status }).setTaskColumns row.id
        (statusColumns (cleaned.taskColumns row.id) status actorRef resultNote now))
  | edit (row before : TaskRow) (patch : EditPatch) (actor : Actor) (now : ℤ) : b.world.findTask row.id = some row →
    Effect env b (.edit row.id patch actor before now) (b.writeTask (editedTask before row patch now))
  | rate (row : TaskRow) (quality : Quality) (actor : Actor) (now : ℤ) : b.world.findTask row.id = some row →
    row.status = .done →
    Effect env b (.rate row.id quality actor now)
      ((b.writeTask (ratedTask row quality now)).setTaskColumns row.id
        (ratedColumns (b.taskColumns row.id) quality))
  | jobs (call : JobCall) (world : World) : Jobs.Moved b.world world → Effect env b (.jobs call) { b with world }

section
variable {env : Env} {b b' : Board} {id : String} {now : ℤ} {execution : ExecutionRow} {host : Js.Host} {ledger : LedgerEnv}
  {agentName : String} {outcome : CommitPayload} {task : TaskRow} {ids : CommitIds}

theorem assertAgentRunFence_eq_ok {row : TaskRow} {fence : Fence} {u : Unit} (hrow : b.lockTask id = .ok row)
    (h : assertAgentRunFence row fence = .ok u) : Fenced b row fence ∧ row.id = id := by
  have hfound : b.world.findTask id = some row := Js.orThrow_eq_ok.mp hrow
  obtain rfl : row.id = id := Table.key_of_lookup hfound
  exact ⟨⟨hfound, Js.require_eq_ok.mp h⟩, rfl⟩

theorem claimAgentRun_effect {invocation : Invocation} {runId newAttemptId : String} :
    Effect env b (.claimAgentRun id agentName now invocation runId newAttemptId)
      (b.claimAgentRun env id agentName now invocation runId newAttemptId).2 := by
  unfold Board.claimAgentRun
  rcases hf : (b.world.findTask id).filter fun row => claimable row agentName now invocation with _ | row
  · exact .idle _
  · obtain ⟨hfound, hclaim⟩ := Option.filter_eq_some_iff.mp hf
    obtain rfl : row.id = id := Table.key_of_lookup hfound
    have hclaim : claimable row agentName now invocation := of_decide_eq_true hclaim
    dsimp only
    split
    · exact .takeBlocked row agentName now invocation runId newAttemptId _ hfound hclaim
    · exact .take row agentName now invocation runId newAttemptId hfound hclaim

theorem heartbeatAgentRun_effect {agentName runId : String} :
    Effect env b (.heartbeatAgentRun id agentName runId now) (b.heartbeatAgentRun id agentName runId now).2 := by
  unfold Board.heartbeatAgentRun
  rcases hf : (b.world.findTask id).filter fun row => HoldsLease row agentName runId with _ | row
  · exact .idle _
  · obtain ⟨hfound, hholds⟩ := Option.filter_eq_some_iff.mp hf
    obtain rfl : row.id = id := Table.key_of_lookup hfound
    exact .renew row agentName runId now hfound (of_decide_eq_true hholds)

theorem insertExecution_eq_ok {columns : ExecutionColumns}
    (h : b.insertExecution execution columns = .ok b') :
    (∀ e ∈ b.world.executions, e.id ≠ execution.id) ∧
      (∀ e ∈ b.world.executions, e.executionAttemptId ≠ execution.executionAttemptId) ∧
      b' = b.addExecution execution columns := by
  unfold Board.insertExecution at h
  simp only [Js.bind_eq_ok, Js.require_eq_ok] at h
  obtain ⟨_, hid, _, hattempt, h⟩ := h
  cases h
  exact ⟨hid, hattempt, rfl⟩

theorem startAgentRun_effect {input : AgentRunStartInput} {createdAt : ℤ} {newExecutionId : String}
    {r : Committed AgentRunStartResult} (h : b.startAgentRun env id input now createdAt newExecutionId = .ok r) :
    Effect env b (.startAgentRun id input now createdAt newExecutionId) r.2 := by
  unfold Board.startAgentRun at h
  simp only [Js.bind_eq_ok] at h
  obtain ⟨_, _, plan, _, _, _, task, htask, _, hfence, h⟩ := h
  obtain ⟨hfenced, rfl⟩ := assertAgentRunFence_eq_ok htask hfence
  unfold Board.startExecution at h
  dsimp only at h
  split_ifs at h with hhash
  · cases h
    exact .block _ task input.toFence _ b rfl hfenced .same
  · rcases hx : b.world.findExecutionByAttempt input.executionAttemptId with _ | existing
    · simp only [hx, Js.bind_eq_ok] at h
      obtain ⟨inserted, hinsert, view, _, h⟩ := h
      cases h
      obtain ⟨hid, hattempt, rfl⟩ := insertExecution_eq_ok hinsert
      exact .start task input now createdAt newExecutionId _ _ hfenced
        ⟨hid, hattempt, rfl, rfl, rfl, rfl, ⟨rfl, rfl, rfl⟩, _, _, _, rfl⟩
    · simp only [hx] at h
      split_ifs at h
      · simp only [Js.bind_eq_ok] at h
        obtain ⟨_, _, view, _, h⟩ := h
        cases h
        exact .idle _
      · cases h
        exact .block _ task input.toFence _ b rfl hfenced .same

theorem inputSnapshotView_eq_none {row : ExecutionRow} (h : inputSnapshotView host row = .ok none) :
    row.inputSnapshotKind = none ∧ row.inputSnapshotPayload = none ∧ row.inputSnapshotHash = none := by
  unfold inputSnapshotView at h
  split at h
  · exact ⟨‹_›, ‹_›, ‹_›⟩
  · simp only [Js.bind_eq_ok] at h
    obtain ⟨_, _, _, _, h⟩ := h
    cases h
  · cases h

theorem ensureAgentRunInputSnapshot_effect {input : AgentRunInputSnapshotInput}
    {r : Committed AgentRunInputSnapshotResult} (h : b.ensureAgentRunInputSnapshot env id input now = .ok r) :
    Effect env b (.ensureAgentRunInputSnapshot id input now) r.2 := by
  unfold Board.ensureAgentRunInputSnapshot at h
  simp only [Js.bind_eq_ok, Js.orThrow_eq_ok] at h
  obtain ⟨requested, _, task, htask, _, hfence, execution, hx, h⟩ := h
  obtain ⟨hfenced, rfl⟩ := assertAgentRunFence_eq_ok htask hfence
  split at h
  · cases h
    exact .block _ task input.toFence _ b rfl hfenced .same
  · split at h
    · cases h
    · split at h
      · cases h
        exact .block _ task input.toFence _ b rfl hfenced .same
      · rename_i stored hview
        unfold Board.storeSnapshot at h
        rcases stored with _ | snapshot
        · simp only [Js.bind_eq_ok, Js.require_eq_ok] at h
          obtain ⟨_, hactive, view, _, snapshot, _, h⟩ := h
          cases h
          exact .snapshot task input now execution requested hfenced hx hactive (inputSnapshotView_eq_none hview)
        · simp only [Js.bind_eq_ok] at h
          obtain ⟨_, _, h⟩ := h
          cases h
          exact .idle _

theorem checkpointConflict_eq_none {row : TaskRow}
    {agentName skill : String} (h : checkpointConflict host row execution agentName skill = none) :
    execution.taskId = row.id ∧ execution.agentName = agentName := by
  unfold checkpointConflict at h
  by_contra hother
  rw [if_pos (not_and_or.mp hother)] at h
  cases h

theorem manifestEntry_eq_ok {job : JobRow} {entry : Json} (h : b.manifestEntry job = .ok entry) :
    World.isTerminal job.status = true := by
  unfold Board.manifestEntry at h
  simp only [Js.bind_eq_ok, Js.require_eq_ok] at h
  exact h.choose_spec.1

/-- A checkpoint needs the evidence of every job of its execution. -/
theorem terminalLlmJobManifest_eq_ok {executionId : String} {manifest : List Json}
    (h : b.terminalLlmJobManifest host executionId = .ok manifest) :
    ∀ job ∈ b.jobsOf executionId, World.isTerminal job.status = true := by
  intro job hjob
  obtain ⟨entry, _, hentry⟩ := (Js.mapM_eq_ok h).2 job ((List.mem_insertionSort _).mpr hjob)
  exact manifestEntry_eq_ok hentry

/-- A checkpoint that is accepted is a replay, or makes an active execution ready. -/
theorem storeCheckpoint_eq_ok {input : AgentRunCheckpointInput}
    {legacyBridge : Bool} {manifest : List Json} {r : Committed AgentRunCheckpointResult}
    (h : b.storeCheckpoint host id input execution legacyBridge manifest = .ok r) :
    (execution.status = .ready ∧ r.2 = b) ∨ (execution.status = .active ∧ ∃ payload hash,
      r.2 = b.makeReady execution (readyColumns (b.executionColumns execution.id) input.kind payload hash)) := by
  unfold Board.storeCheckpoint at h
  rcases hst : execution.status with _ | _ | _ | _ <;> simp only [hst] at h
  · simp only [Js.bind_eq_ok] at h
    obtain ⟨_, _, h⟩ := h
    cases h
    exact .inr ⟨rfl, _, _, rfl⟩
  · simp only [Js.bind_eq_ok] at h
    obtain ⟨_, _, _, _, h⟩ := h
    cases h
    exact .inl ⟨rfl, rfl⟩
  · cases h
  · cases h

theorem checkpointAgentRun_effect {input : AgentRunCheckpointInput} {createdAt : ℤ} {newExecutionId : String}
    {r : Committed AgentRunCheckpointResult}
    (h : b.checkpointAgentRun env id input now createdAt newExecutionId = .ok r) :
    Effect env b (.checkpointAgentRun id input now createdAt newExecutionId) r.2 := by
  unfold Board.checkpointAgentRun at h
  simp only [Js.bind_eq_ok] at h
  obtain ⟨_, _, task, htask, _, hfence, h⟩ := h
  obtain ⟨hfenced, rfl⟩ := assertAgentRunFence_eq_ok htask hfence
  rcases hx : b.world.findExecutionByAttempt input.executionAttemptId with _ | existing
  · simp only [hx, Js.bind_eq_ok] at h
    obtain ⟨inserted, hinsert, h⟩ := h
    obtain ⟨hid, hattempt, rfl⟩ := insertExecution_eq_ok hinsert
    have hnew : NewExecution b task input.toFence _ _ :=
      ⟨hid, hattempt, rfl, rfl, rfl, rfl, ⟨rfl, rfl, rfl⟩, 1, now, createdAt, rfl⟩
    unfold Board.checkpointExecution at h
    split at h
    · cases h
      exact .block _ task input.toFence _ _ rfl hfenced (.insert _ _ hnew)
    · obtain ⟨manifest, _, h⟩ := Js.bind_eq_ok.mp h
      rcases storeCheckpoint_eq_ok h with ⟨hready, _⟩ | ⟨_, payload, hash, hr⟩
      · cases hready
      · rw [hr]
        exact .bridge task input now createdAt newExecutionId _ _ payload hash hfenced hnew
  · simp only [hx] at h
    unfold Board.checkpointExecution at h
    split at h
    · cases h
      exact .block _ task input.toFence _ _ rfl hfenced .same
    · rename_i hconflict
      obtain ⟨manifest, hmanifest, h⟩ := Js.bind_eq_ok.mp h
      rcases storeCheckpoint_eq_ok h with ⟨_, hr⟩ | ⟨hactive, payload, hash, hr⟩
      · rw [hr]
        exact .idle _
      · rw [hr]
        exact .ready task input now createdAt newExecutionId existing payload hash hfenced hx
          (checkpointConflict_eq_none hconflict).1 hactive (terminalLlmJobManifest_eq_ok hmanifest)

/-! Commit and release. -/

theorem Records.refl (b : Board) : Records b b := ⟨rfl, rfl, rfl⟩

theorem Records.trans {b b' b'' : Board} (h : Records b b') (h' : Records b' b'') : Records b b'' :=
  ⟨h'.world.trans h.world, h'.taskColumns.trans h.taskColumns, h'.executionColumns.trans h.executionColumns⟩

theorem insertEvent_eq_ok {row : EventRow} (h : b.insertEvent row = .ok b') :
    (∀ e ∈ b.events, e.clientKey ≠ row.clientKey) ∧ b' = { b with events := b.events ++ [row] } := by
  unfold Board.insertEvent at h
  simp only [Js.bind_eq_ok, Js.require_eq_ok] at h
  obtain ⟨_, hkey, h⟩ := h
  cases h
  exact ⟨hkey, rfl⟩

theorem insertApproval_eq_ok {row : ApprovalRow} (h : b.insertApproval row = .ok b') :
    b' = { b with approvals := b.approvals ++ [row] } := by
  unfold Board.insertApproval at h
  simp only [Js.bind_eq_ok, Js.require_eq_ok] at h
  obtain ⟨_, _, h⟩ := h
  cases h
  rfl

theorem insertDelivery_eq_ok {row : DeliveryRow} (h : b.insertDelivery row = .ok b') :
    b' = { b with deliveries := b.deliveries ++ [row] } := by
  unfold Board.insertDelivery at h
  simp only [Js.bind_eq_ok, Js.require_eq_ok] at h
  obtain ⟨_, _, h⟩ := h
  cases h
  rfl

/-- What an outcome writes: its events, its approval and its delivery. -/
structure Outcome (env : Env) (b : Board) (task : TaskRow) (execution : ExecutionRow) (agentName : String)
    (outcome : CommitPayload) (ids : CommitIds) (now : ℤ) (approvalId deliveryId : Option String) (b' : Board) :
    Prop where
  events : ∃ approved acted, b'.events = b.events ++ agentRunEvent task.id execution agentName outcome now ::
      (approved ++ acted) ∧
    (∀ e ∈ approved, e.type = "approval.requested") ∧
    (if outcome.kind.isAction then
      ∃ remembered, acted = agentActionEvent task.id execution agentName outcome approvalId now :: remembered ∧
        remembered.length ≤ 1 ∧ ∀ e ∈ remembered, e.type = s!"agent.memory:{execution.skill}"
    else acted = [])
  approvals : (approvalId = none ∧ b'.approvals = b.approvals) ∨
    (outcome.kind = .approvalRequested ∧ ∃ tier, outcome.tier = some tier ∧ approvalId = some ids.approvalId ∧
      b'.approvals = b.approvals ++ [approvalRow task.id execution agentName outcome tier ids.approvalId])
  deliveries : if outcome.kind.isAction then deliveryId = some ids.outboxDeliveryId ∧
      b'.deliveries = b.deliveries ++
        [deliveryRow env.host task.id execution (b.executionColumns execution.id).createdAt outcome
          ids.outboxDeliveryId]
    else deliveryId = none ∧ b'.deliveries = b.deliveries

theorem requestApproval_eq_ok
    {newApprovalId : String} {approvalId : Option String}
    (h : b.requestApproval task.id execution agentName outcome newApprovalId now = .ok (approvalId, b')) :
    Records b b' ∧ b'.deliveries = b.deliveries ∧ (∃ approved, b'.events = b.events ++ approved ∧
        ∀ e ∈ approved, e.type = "approval.requested") ∧
      ((approvalId = none ∧ b'.approvals = b.approvals) ∨
        (outcome.kind = .approvalRequested ∧ ∃ tier, outcome.tier = some tier ∧ approvalId = some newApprovalId ∧
          b'.approvals = b.approvals ++ [approvalRow task.id execution agentName outcome tier newApprovalId])) := by
  unfold Board.requestApproval at h
  split at h
  · rename_i tier hkind htier
    simp only [Js.bind_eq_ok] at h
    obtain ⟨approved, happroval, announced, hevent, h⟩ := h
    cases h
    obtain rfl := insertApproval_eq_ok happroval
    obtain ⟨_, rfl⟩ := insertEvent_eq_ok hevent
    exact ⟨⟨rfl, rfl, rfl⟩, rfl, ⟨_, rfl, by simp [approvalRequestedEvent]⟩, .inr ⟨hkind, tier, htier, rfl, rfl⟩⟩
  · cases h
    exact ⟨.refl _, rfl, ⟨[], by simp⟩, .inl ⟨rfl, rfl⟩⟩

theorem recordAction_eq_ok
    {approvalId deliveryId : Option String} {newDeliveryId : String}
    (h : b.recordAction host task.id execution agentName outcome approvalId newDeliveryId now = .ok (deliveryId, b')) :
    Records b b' ∧ b'.approvals = b.approvals ∧ (∃ acted, b'.events = b.events ++ acted ∧
      (if outcome.kind.isAction then
        ∃ remembered, acted = agentActionEvent task.id execution agentName outcome approvalId now :: remembered ∧
          remembered.length ≤ 1 ∧ ∀ e ∈ remembered, e.type = s!"agent.memory:{execution.skill}"
      else acted = [])) ∧
      (if outcome.kind.isAction then deliveryId = some newDeliveryId ∧ b'.deliveries = b.deliveries ++
        [deliveryRow host task.id execution (b.executionColumns execution.id).createdAt outcome newDeliveryId]
      else deliveryId = none ∧ b'.deliveries = b.deliveries) := by
  unfold Board.recordAction at h
  rcases haction : outcome.kind.isAction with _ | _
  · rw [if_pos haction] at h
    cases h
    exact ⟨.refl _, rfl, ⟨[], by simp⟩, rfl, rfl⟩
  · rw [if_neg (by simp [haction])] at h
    simp only [Js.bind_eq_ok] at h
    obtain ⟨acted, hacted, remembered, hremembered, delivered, hdelivered, h⟩ := h
    cases h
    obtain ⟨_, rfl⟩ := insertEvent_eq_ok hacted
    obtain rfl := insertDelivery_eq_ok hdelivered
    unfold Board.remember at hremembered
    split at hremembered
    · obtain ⟨_, rfl⟩ := insertEvent_eq_ok hremembered
      refine ⟨⟨rfl, rfl, rfl⟩, rfl, ⟨_, List.append_assoc _ _ _, _, rfl, by simp, ?_⟩, rfl, rfl⟩
      simp [memoryEvent]
    · cases hremembered
      exact ⟨⟨rfl, rfl, rfl⟩, rfl, ⟨_, rfl, [], rfl, by simp⟩, rfl, rfl⟩

/-- The commit that is stored. -/
structure Stored (env : Env) (b : Board) (task : TaskRow) (execution : ExecutionRow) (agentName : String)
    (outcome : CommitPayload) (hash : String) (ids : CommitIds) (now : ℤ)
    (r : Committed AgentRunCommitResult) : Prop where
  ready : execution.status = .ready
  stored : ∃ recorded approvalId deliveryId, Records b recorded ∧
    Outcome env b task execution agentName outcome ids now approvalId deliveryId recorded ∧
    r = (.ok {
        committed := true
        capped := false
        replay := false
        taskId := task.id
        executionAttemptId := execution.executionAttemptId
        status := .done
        resultNote := some outcome.note
        approvalId
        outboxDeliveryId := deliveryId },
      recorded.closeRun task execution agentName outcome hash approvalId deliveryId now)

theorem storeOutcome_eq_ok
    {hash : String} {r : Committed AgentRunCommitResult}
    (h : b.storeOutcome env task execution agentName outcome hash ids now = .ok r) :
    Stored env b task execution agentName outcome hash ids now r := by
  unfold Board.storeOutcome at h
  simp only [Js.bind_eq_ok, Js.require_eq_ok] at h
  obtain ⟨ran, hran, ⟨approvalId, approved⟩, happroved, ⟨deliveryId, recorded⟩, hrecorded, _, hready, h⟩ := h
  cases h
  obtain ⟨_, rfl⟩ := insertEvent_eq_ok hran
  obtain ⟨hrec, hdeliv, ⟨approvedEvents, hevents, htypes⟩, happrovals⟩ := requestApproval_eq_ok happroved
  obtain ⟨hrec', happr, ⟨acted, hevents', hacted⟩, hdeliveries⟩ := recordAction_eq_ok hrecorded
  refine ⟨hready, recorded, approvalId, deliveryId, ?_, ⟨⟨approvedEvents, acted, ?_, htypes, hacted⟩, ?_, ?_⟩, rfl⟩
  · have hran : Records b { b with events := b.events ++ [agentRunEvent task.id execution agentName outcome now] } :=
      ⟨rfl, rfl, rfl⟩
    exact (hran.trans hrec).trans hrec'
  · simp [hevents', hevents]
  · rwa [happr]
  · rw [hdeliv, hrec.executionColumns] at hdeliveries
    exact hdeliveries

/-- How a commit that is answered ends. -/
inductive Commits (env : Env) (b : Board) (id : String) (input : AgentRunCommitInput) (ids : CommitIds) (now : ℤ)
    (r : Committed AgentRunCommitResult) : Prop
  | replay (execution : ExecutionRow) (answer : AgentRunCommitResult) :
    b.world.findExecutionByAttempt input.executionAttemptId = some execution → execution.status = .committed →
    replayCommittedExecution execution (b.executionColumns execution.id)
      (outcomeHash env.host id (Js.trim input.agentName) input.executionAttemptId (b.executionColumns execution.id)
        (commitPayload input)) = .ok answer →
    r = (.ok answer, b) → Commits env b id input ids now r
  | blocked (task : TaskRow) (execution : ExecutionRow) (answer : AgentRunCommitResult) (reason : String) :
    Fenced b task input.toFence → task.id = id → answer.committed = false →
    r = (.ok answer, b.writeTask (World.blockedTask task reason now)) → Commits env b id input ids now r
  | capped (task : TaskRow) (execution : ExecutionRow) (answer : AgentRunCommitResult) :
    Fenced b task input.toFence → task.id = id → answer.committed = false →
    b.actionCapReached env (Js.trim input.agentName) now = true →
    r = (.ok answer, b.writeTask (cappedTask task now)) → Commits env b id input ids now r
  | stored (task : TaskRow) (execution : ExecutionRow) (hash : String) : Fenced b task input.toFence → task.id = id →
    b.world.findExecutionByAttempt input.executionAttemptId = some execution → execution.taskId = id →
    assertOutcomeMatchesCheckpoint env.host (b.executionColumns execution.id) (commitPayload input) = .ok () →
    ((commitPayload input).kind.isAction = true → b.actionCapReached env (Js.trim input.agentName) now = false) →
    hash = outcomeHash env.host id (Js.trim input.agentName) input.executionAttemptId
      (b.executionColumns execution.id) (commitPayload input) →
    Stored env b task execution (Js.trim input.agentName) (commitPayload input) hash ids now r →
    Commits env b id input ids now r

theorem commitAgentRun_eq_ok {input : AgentRunCommitInput} {r : Committed AgentRunCommitResult}
    (h : b.commitAgentRun env id input ids now = .ok r) : Commits env b id input ids now r := by
  unfold Board.commitAgentRun at h
  simp only [Js.bind_eq_ok, Js.orThrow_eq_ok] at h
  obtain ⟨_, _, task, htask, execution, hx, h⟩ := h
  obtain ⟨hx, hown⟩ := Option.filter_eq_some_iff.mp hx
  have hown : execution.taskId = id ∧ execution.agentName = Js.trim input.agentName := of_decide_eq_true hown
  have hopen : (do
        assertAgentRunFence task input.toFence
        b.commitCheckpoint env task execution (Js.trim input.agentName) (commitPayload input)
          (outcomeHash env.host id (Js.trim input.agentName) input.executionAttemptId
            (b.executionColumns execution.id) (commitPayload input)) ids now) = .ok r →
      Commits env b id input ids now r := by
    intro h
    simp only [Js.bind_eq_ok] at h
    obtain ⟨_, hfence, h⟩ := h
    obtain ⟨hfenced, hid⟩ := assertAgentRunFence_eq_ok htask hfence
    unfold Board.commitCheckpoint at h
    split_ifs at h with hhash hcap
    · cases h
      exact .blocked task execution _ _ hfenced hid rfl rfl
    · obtain ⟨_, hmatch, h⟩ := Js.bind_eq_ok.mp h
      cases h
      exact .capped task execution _ hfenced hid rfl hcap.2 rfl
    · obtain ⟨_, hmatch, h⟩ := Js.bind_eq_ok.mp h
      refine .stored task execution _ hfenced hid hx hown.1 hmatch (fun haction => ?_) rfl (storeOutcome_eq_ok h)
      simpa [haction] using hcap
  rcases hst : execution.status with _ | _ | _ | _ <;> simp only [hst] at h
  · exact hopen h
  · exact hopen h
  · simp only [Js.bind_eq_ok] at h
    obtain ⟨answer, hreplay, h⟩ := h
    cases h
    exact .replay execution answer hx hst hreplay rfl
  · cases h

theorem commitAgentRun_effect {input : AgentRunCommitInput} {r : Committed AgentRunCommitResult}
    (h : b.commitAgentRun env id input ids now = .ok r) : Effect env b (.commitAgentRun id input ids now) r.2 := by
  rcases commitAgentRun_eq_ok h with ⟨execution, answer, _, _, _, rfl⟩ |
    ⟨task, execution, answer, reason, hfenced, rfl, _, rfl⟩ | ⟨task, execution, answer, hfenced, rfl, _, _, rfl⟩ |
    ⟨task, execution, hash, hfenced, rfl, hx, hown, _, _, _, hready, recorded, approvalId, deliveryId, hrec, _, rfl⟩
  · exact .idle _
  · exact .block _ task input.toFence reason b rfl hfenced .same
  · exact .capped task input ids now hfenced
  · exact .commit task input ids now execution recorded hash approvalId deliveryId hfenced hx hown hready hrec

theorem releaseAgentRun_effect {agentName runId executionAttemptId : String} {reason : Option ReleaseReason}
    {detail : Option String} {r : Committed (Option TaskRow)}
    (h : b.releaseAgentRun id agentName runId executionAttemptId reason detail now = .ok r) :
    Effect env b (.releaseAgentRun id agentName runId executionAttemptId reason detail now) r.2 := by
  unfold Board.releaseAgentRun at h
  simp only [Js.bind_eq_ok] at h
  obtain ⟨task, htask, h⟩ := h
  have hfound : b.world.findTask id = some task := Js.orThrow_eq_ok.mp htask
  obtain rfl : task.id = id := Table.key_of_lookup hfound
  split_ifs at h with hholds hreason <;> cases h
  · have h : Effect env b (.releaseAgentRun ..) _ :=
      .release task agentName runId executionAttemptId reason detail now hfound hholds
    rwa [if_pos hreason] at h
  · have h : Effect env b (.releaseAgentRun ..) _ :=
      .release task agentName runId executionAttemptId reason detail now hfound hholds
    rwa [if_neg hreason] at h
  · exact .idle _

/-! What the owner does. -/

theorem cancelUndispatched_eq_ok {executionId releaseReason cancelReason : String}
    (h : b.cancelUndispatched ledger executionId releaseReason cancelReason now = .ok b') :
    Cancels b executionId b' := by
  unfold Board.cancelUndispatched at h
  simp only [Js.bind_eq_ok] at h
  obtain ⟨spends, hspends, h⟩ := h
  cases h
  exact ⟨_, _, _, spends, hspends, _, rfl⟩

theorem cancelUndispatchedTaskLlmJobs_eq_ok {status : TaskStatus} {text : String}
    (h : b.cancelUndispatchedTaskLlmJobs ledger task text now = .ok b') : Cleans b task status b' := by
  unfold Board.cancelUndispatchedTaskLlmJobs at h
  by_cases hkind : task.ownerKind = .agent
  · rw [if_neg (not_not.mpr hkind)] at h
    rcases hx : task.agentExecutionAttemptId.bind b.world.findExecutionByAttempt with _ | execution
    · simp only [hx] at h
      cases h
      exact .none hx
    · simp only [hx, Js.bind_eq_ok, Js.require_eq_ok] at h
      obtain ⟨_, hown, _, _, h⟩ := h
      exact .cancel execution b' hx hown (cancelUndispatched_eq_ok h)
  · rw [if_pos hkind] at h
    cases h
    exact .foreign hkind

theorem setStatus_effect {status : TaskStatus} {actorRef : String}
    {resultNote expected : Option String} {r : TaskRow × Board}
    (h : b.setStatus ledger id status actorRef resultNote expected now = .ok r) :
    Effect env b (.setStatus ledger id status actorRef resultNote expected now) r.2 := by
  unfold Board.setStatus at h
  simp only [Js.bind_eq_ok] at h
  obtain ⟨before, hbefore, _, _, cleaned, hcleaned, h⟩ := h
  have hfound : b.world.findTask id = some before := Js.orThrow_eq_ok.mp hbefore
  obtain rfl : before.id = id := Table.key_of_lookup hfound
  have hcleans : Cleans b before status cleaned := by
    unfold Board.cleanUp at hcleaned
    rcases hterminal : isTerminalStatus status with _ | _
    · rw [if_neg (by simp [hterminal])] at hcleaned
      cases hcleaned
      exact .open_ hterminal
    · rw [if_pos hterminal] at hcleaned
      exact cancelUndispatchedTaskLlmJobs_eq_ok hcleaned
  split_ifs at h with hsame
  · cases h
    subst hsame
    exact .repair before ledger actorRef resultNote expected now cleaned hfound hcleans
  · cases h
    exact .status before ledger status actorRef resultNote expected now cleaned hfound hcleans

theorem edit_effect {patch : EditPatch} {actor : Actor} {before : TaskRow} {r : TaskRow × Board}
    (h : b.edit id patch actor before now = .ok r) : Effect env b (.edit id patch actor before now) r.2 := by
  unfold Board.edit at h
  simp only [Js.bind_eq_ok] at h
  obtain ⟨_, _, h⟩ := h
  split_ifs at h
  · cases h
    exact .idle _
  · simp only [Js.bind_eq_ok] at h
    obtain ⟨_, _, _, _, row, hrow, h⟩ := h
    cases h
    have hfound : b.world.findTask id = some row := Js.orThrow_eq_ok.mp hrow
    obtain rfl : row.id = id := Table.key_of_lookup hfound
    exact .edit row before patch actor now hfound

theorem rate_effect {quality : Quality} {actor : Actor} {r : TaskRow × Board}
    (h : b.rate id quality actor now = .ok r) : Effect env b (.rate id quality actor now) r.2 := by
  unfold Board.rate at h
  simp only [Js.bind_eq_ok, Js.require_eq_ok] at h
  obtain ⟨_, _, row, hrow, _, hdone, _, _, h⟩ := h
  cases h
  have hfound : b.world.findTask id = some row := Js.orThrow_eq_ok.mp hrow
  obtain rfl : row.id = id := Table.key_of_lookup hfound
  exact .rate row quality actor now hfound hdone

theorem retryBlockedAgentExecution_effect {r : TaskRow × Board}
    (h : b.retryBlockedAgentExecution env ledger id now = .ok r) :
    Effect env b (.retryBlockedAgentExecution ledger id now) r.2 := by
  unfold Board.retryBlockedAgentExecution at h
  simp only [Js.bind_eq_ok, Js.require_eq_ok] at h
  obtain ⟨row, hrow, _, hretryable, h⟩ := h
  have hfound : b.world.findTask id = some row := Js.orThrow_eq_ok.mp hrow
  obtain rfl : row.id = id := Table.key_of_lookup hfound
  rcases hx : (row.agentExecutionAttemptId.bind b.world.findExecutionByAttempt).filter fun e =>
      e.status = .active ∨ e.status = .ready with _ | execution
  · simp only [hx] at h
    cases h
    refine .retryFree row ledger now hfound hretryable fun execution hexec => ?_
    rw [hexec, Option.filter_eq_none_iff] at hx
    have hclosed := hx execution rfl
    rcases hst : execution.status with _ | _ | _ | _ <;> simp [hst] at hclosed ⊢
  · simp only [hx] at h
    obtain ⟨hx, hst⟩ := Option.filter_eq_some_iff.mp hx
    have hst : execution.status = .active ∨ execution.status = .ready := of_decide_eq_true hst
    unfold Board.retryExecution at h
    simp only [Js.bind_eq_ok, Js.require_eq_ok] at h
    obtain ⟨_, hflight, h⟩ := h
    split_ifs at h
    · cases h
      exact .resume row ledger now execution hfound hretryable hx hflight
    · simp only [Js.bind_eq_ok] at h
      obtain ⟨cancelled, hcancelled, h⟩ := h
      cases h
      exact .retry row ledger now execution cancelled hfound hretryable hx hst hflight
        (cancelUndispatched_eq_ok hcancelled)

/-! The LLM jobs. -/

theorem jobs_effect (call : JobCall) :
    Effect env b (.jobs call) { b with world := (Jobs.perform b.world call.action).2 } := by
  refine .jobs call _ ?_
  rcases call with ⟨ledger, taskId, input, now, clock, newJobId, newSpendId⟩ |
    ⟨ledger, taskId, jobId, input, now, clock, newSpendId⟩ | ⟨ledger, taskId, jobId, input, now, detectedAt⟩
  · exact Jobs.commitIfReady_moved fun r hr => Jobs.ensure_moved hr
  · exact Jobs.commitIfReady_moved fun r hr => Jobs.claimDispatch_moved hr
  · exact Jobs.commit_of (P := Jobs.Moved b.world) (.refl _) fun r hr => Jobs.complete_moved hr

end

theorem settle_of {α : Type} {b : Board} {f : α → Answer} {P : Board → Prop} {x : Except HttpError (Committed α)}
    (hsame : P b) (h : ∀ r, x = .ok r → P r.2) : P (settle b f x).2 := by
  rcases x with e | ⟨_ | a, b'⟩
  · exact hsame
  · exact h _ rfl
  · exact h _ rfl

theorem commit_of {α : Type} {b : Board} {f : α → Answer} {P : Board → Prop} {x : Except HttpError (α × Board)}
    (hsame : P b) (h : ∀ r, x = .ok r → P r.2) : P (commit b f x).2 := by
  rcases x with e | ⟨a, b'⟩
  · exact hsame
  · exact h _ rfl

theorem next_effect {env : Env} {b b' : Board} {a : Action} (h : next env b a b') : Effect env b a b' := by
  unfold next at h
  subst h
  rcases a with ⟨row, now⟩ | ⟨id, agentName, now, invocation, runId, newAttemptId⟩ | ⟨id, agentName, runId, now⟩ |
    ⟨id, input, now, createdAt, newExecutionId⟩ | ⟨id, input, now⟩ | ⟨id, input, now, createdAt, newExecutionId⟩ |
    ⟨id, input, ids, now⟩ | ⟨id, agentName, runId, attemptId, reason, detail, now⟩ | ⟨ledger, id, now⟩ |
    ⟨ledger, id, status, actorRef, resultNote, expected, now⟩ | ⟨id, patch, actor, before, now⟩ |
    ⟨id, quality, actor, now⟩ | call <;> simp only [perform]
  · refine commit_of (.idle _) fun r hr => ?_
    obtain ⟨b', hcreate, rfl⟩ := Js.map_eq_ok.mp hr
    unfold Board.createTask at hcreate
    simp only [Js.bind_eq_ok, Js.require_eq_ok] at hcreate
    obtain ⟨_, hid, hcreate⟩ := hcreate
    cases hcreate
    exact .create row now hid
  · refine settle_of (.idle _) fun r hr => ?_
    cases hr
    exact claimAgentRun_effect
  · exact heartbeatAgentRun_effect
  · exact settle_of (.idle _) fun r hr => startAgentRun_effect hr
  · exact settle_of (.idle _) fun r hr => ensureAgentRunInputSnapshot_effect hr
  · exact settle_of (.idle _) fun r hr => checkpointAgentRun_effect hr
  · exact settle_of (.idle _) fun r hr => commitAgentRun_effect hr
  · exact settle_of (.idle _) fun r hr => releaseAgentRun_effect hr
  · exact commit_of (.idle _) fun r hr => retryBlockedAgentExecution_effect hr
  · exact commit_of (.idle _) fun r hr => setStatus_effect hr
  · exact commit_of (.idle _) fun r hr => edit_effect hr
  · exact commit_of (.idle _) fun r hr => rate_effect hr
  · exact jobs_effect call

end Mydon.Tasks
