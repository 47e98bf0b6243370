import Mydon.Js.Canonical
import Mydon.Tasks.ExecutionRows
import Mydon.Tasks.Lease

/-! One commit for an attempt. A commit is stored from a ready execution only and leaves it
committed; after that a commit of the attempt is answered from what is stored. -/

namespace Mydon.Tasks

open Mydon.Lib
open Js (Json HttpError)
open Jobs (World TaskRow ExecutionRow JobRow)
open Board

/-- What a checkpoint promises of an outcome: that there is no signal, or the proposal. -/
def MatchesCheckpoint (host : Js.Host) (columns : ExecutionColumns) (outcome : CommitPayload) : Prop :=
  (columns.checkpointKind = some .noSignal ∧ outcome.kind = .noSignal) ∨
    (columns.checkpointKind = some .proposal ∧ outcome.kind ≠ .noSignal ∧
      (checkpointProposal columns.checkpointPayload).canonicalHash host = outcome.proposal.canonicalHash host)

/-- The columns of a stored outcome. -/
def outcomeOf (columns : ExecutionColumns) : Option Json × Option String × Option String × Option ℤ :=
  (columns.outcomePayload, columns.outcomeHash, columns.approvalId, columns.committedAt)

def checkpointOf (columns : ExecutionColumns) : Option CheckpointKind × Option Json × Option String :=
  (columns.checkpointKind, columns.checkpointPayload, columns.checkpointHash)

def snapshotOf (x : ExecutionRow) : Option String × Option Json × Option String :=
  (x.inputSnapshotKind, x.inputSnapshotPayload, x.inputSnapshotHash)

/-- The tables that only a stored commit writes. -/
structure SameOutcomes (b b' : Board) : Prop where
  events : b'.events = b.events
  approvals : b'.approvals = b.approvals
  deliveries : b'.deliveries = b.deliveries
  outcomes : ∀ x ∈ b.world.executions, outcomeOf (b'.executionColumns x.id) = outcomeOf (b.executionColumns x.id)

/-- The commit of the step is stored by it. -/
def Stores (env : Env) (e : TaskStep) (attempt : String) (result : AgentRunCommitResult) : Prop :=
  ∃ id input ids now, e.action = .commitAgentRun id input ids now ∧ input.executionAttemptId = attempt ∧
    answer env e = .committed result ∧ result.committed = true ∧ result.replay = false

/-- The answer of a commit that is stored. -/
def storedResult (id executionAttemptId note : String) (approvalId outboxDeliveryId : Option String) :
    AgentRunCommitResult where
  committed := true
  capped := false
  replay := false
  taskId := id
  executionAttemptId
  status := .done
  resultNote := some note
  approvalId
  outboxDeliveryId

/-- All that a stored commit writes, in one step. -/
structure StoredTogether (env : Env) (b : Board) (id : String) (input : AgentRunCommitInput) (now : ℤ)
    (result : AgentRunCommitResult) (b' : Board) : Prop where
  answer : result = storedResult id input.executionAttemptId (commitPayload input).note result.approvalId
    result.outboxDeliveryId
  execution : ∃ x ∈ b.world.executions, x.executionAttemptId = input.executionAttemptId ∧ x.taskId = id ∧
    x.status = .ready ∧ MatchesCheckpoint env.host (b.executionColumns x.id) (commitPayload input) ∧
    { x with status := .committed } ∈ b'.world.executions ∧
    b'.executionColumns x.id = committedColumns (b.executionColumns x.id)
      (outcomeJson id x.executionAttemptId (commitPayload input) result.approvalId result.outboxDeliveryId)
      (outcomeHash env.host id (Js.trim input.agentName) input.executionAttemptId (b.executionColumns x.id)
        (commitPayload input)) result.approvalId now
  task : ∃ t, b.world.findTask id = some t ∧ b'.world.findTask id = some (closedTask t)
  events : ∃ written, b'.events = b.events ++ written ∧ written.countP (·.type = "agent.run") = 1 ∧
    written.countP (·.type = "agent.action") = if (commitPayload input).kind.isAction then 1 else 0
  approvals : ∃ written, b'.approvals = b.approvals ++ written ∧ written.map ApprovalRow.id = result.approvalId.toList
  deliveries : ∃ written, b'.deliveries = b.deliveries ++ written ∧
    written.map DeliveryRow.id = result.outboxDeliveryId.toList ∧
    written.length = if (commitPayload input).kind.isAction then 1 else 0

/-- The result is the one of a replay. -/
def replayOf (result : AgentRunCommitResult) : AgentRunCommitResult := { result with replay := true }

/-- What is stored of an attempt stays as it is. -/
def KeepsStored (b b' : Board) : Prop :=
  ∀ x ∈ b.world.executions, ∃ x' ∈ b'.world.executions, x'.id = x.id ∧ x'.executionAttemptId = x.executionAttemptId ∧
    (x.inputSnapshotHash.isSome → snapshotOf x' = snapshotOf x) ∧
    ((b.executionColumns x.id).checkpointHash.isSome →
      checkpointOf (b'.executionColumns x.id) = checkpointOf (b.executionColumns x.id)) ∧
    ((b.executionColumns x.id).outcomeHash.isSome →
      outcomeOf (b'.executionColumns x.id) = outcomeOf (b.executionColumns x.id))

def dayActions (b : Board) (agentName : String) (day : ℤ) : ℕ := b.events.countP fun e => countsTowards agentName day e

def WithinCap (env : Env) (b : Board) : Prop :=
  ∀ agentName day, (dayActions b agentName day : ℤ) ≤ env.agentDailyActionCap

/-- The law of the commits of a run that ends in `b`. -/
structure CommitLaw (env : Env) (steps : List TaskStep) (b : Board) : Prop where
  once : ∀ earlier e later attempt result, steps = earlier ++ e :: later → Stores env e attempt result →
    ∀ e' ∈ later, ∀ result', ¬ Stores env e' attempt result'
  together : ∀ e ∈ steps, ∀ id input ids now result, e.action = .commitAgentRun id input ids now →
    Stores env e input.executionAttemptId result → StoredTogether env e.before id input now result e.after
  other : ∀ earlier e later, steps = earlier ++ e :: later → ∀ id input ids now,
    e.action = .commitAgentRun id input ids now → (∀ result, ¬ Stores env e input.executionAttemptId result) →
    (e.after = e.before ∧ ∃ e₀ ∈ earlier, ∃ result, Stores env e₀ input.executionAttemptId result ∧
      answer env e = .committed (replayOf result)) ∨
    (SameOutcomes e.before e.after ∧ ((∃ error, answer env e = .failed error) ∨
      ∃ result, answer env e = .committed result ∧ result.committed = false))
  nothingElse : ∀ e ∈ steps, (∀ attempt result, ¬ Stores env e attempt result) → SameOutcomes e.before e.after
  kept : ∀ e ∈ steps, KeepsStored e.before b
  capped : 0 < env.agentDailyActionCap → WithinCap env b

section
variable {env : Env} {b b' : Board} {a : Action} {id attempt : String} {now : ℤ} {steps : List TaskStep}
  {result : AgentRunCommitResult} {x' : ExecutionRow} {outcome : CommitPayload} {ids : CommitIds}
  {x : ExecutionRow}

theorem SameOutcomes.refl (b : Board) : SameOutcomes b b := ⟨rfl, rfl, rfl, fun _ _ => rfl⟩

theorem matchesCheckpoint_of_ok {host : Js.Host} {columns : ExecutionColumns}
    (h : assertOutcomeMatchesCheckpoint host columns outcome = .ok ()) : MatchesCheckpoint host columns outcome := by
  unfold assertOutcomeMatchesCheckpoint at h
  split at h
  · exact .inl ⟨‹_›, Js.require_eq_ok.mp h⟩
  · simp only [Js.bind_eq_ok, Js.require_eq_ok] at h
    obtain ⟨_, hkind, _, _, _, hsame, _⟩ := h
    exact .inr ⟨‹_›, hkind, hsame⟩
  · cases h

theorem type_memory_ne (skill : String) :
    s!"agent.memory:{skill}" ≠ "agent.run" ∧ s!"agent.memory:{skill}" ≠ "agent.action" := by
  constructor <;> intro h <;> have := congrArg String.toList h <;> simp [toString] at this

/-- Of the events of an outcome one is the run, and an action has one more that is the action. -/
theorem Outcome.written {task : TaskRow} {agentName : String}
    {approvalId deliveryId : Option String} (h : Outcome env b task x agentName outcome ids now approvalId deliveryId b') :
    ∃ written, b'.events = b.events ++ written ∧
      written.filter (·.type = "agent.run") = [agentRunEvent task.id x agentName outcome now] ∧
      written.filter (·.type = "agent.action") =
        if outcome.kind.isAction then [agentActionEvent task.id x agentName outcome approvalId now] else [] := by
  obtain ⟨approved, acted, hevents, happroved, hacted⟩ := h.events
  have hnone : ∀ type : String, type ≠ "approval.requested" → approved.filter (·.type = type) = [] := by
    intro type hne
    refine List.filter_eq_nil_iff.mpr fun e he htype => hne ?_
    rw [← happroved e he]
    exact (of_decide_eq_true htype).symm
  refine ⟨_, hevents, ?_, ?_⟩
  · rw [List.filter_cons_of_pos (by rfl), List.filter_append, hnone "agent.run" (by decide), List.nil_append]
    refine congrArg (_ :: ·) (List.filter_eq_nil_iff.mpr fun e he htype => ?_)
    have htype : e.type = "agent.run" := of_decide_eq_true htype
    split_ifs at hacted
    · obtain ⟨remembered, rfl, _, hmemory⟩ := hacted
      rcases List.mem_cons.mp he with rfl | he
      · exact absurd (show "agent.action" = "agent.run" from htype) (by decide)
      · exact (type_memory_ne x.skill).1 ((hmemory e he).symm.trans htype)
    · rw [hacted] at he
      cases he
  · have hrun : ¬ (agentRunEvent task.id x agentName outcome now).type = "agent.action" :=
      show ¬ "agent.run" = "agent.action" by decide
    rw [List.filter_cons_of_neg (by simp only [hrun, decide_false, Bool.false_eq_true, not_false_eq_true]),
      List.filter_append, hnone "agent.action" (by decide), List.nil_append]
    split_ifs at hacted ⊢
    · obtain ⟨remembered, rfl, _, hmemory⟩ := hacted
      rw [List.filter_cons_of_pos (by rfl)]
      refine congrArg (_ :: ·) (List.filter_eq_nil_iff.mpr fun e he htype => ?_)
      exact (type_memory_ne x.skill).2 ((hmemory e he).symm.trans (of_decide_eq_true htype))
    · rw [hacted]
      rfl

theorem Stored.together {task : TaskRow} {input : AgentRunCommitInput} {hash : String}
    {r : Committed AgentRunCommitResult} (hfound : b.world.findTask task.id = some task)
    (hx : b.world.findExecutionByAttempt input.executionAttemptId = some x) (hown : x.taskId = task.id)
    (hmatch : assertOutcomeMatchesCheckpoint env.host (b.executionColumns x.id) (commitPayload input) = .ok ())
    (hhash : hash = outcomeHash env.host task.id (Js.trim input.agentName) input.executionAttemptId
      (b.executionColumns x.id) (commitPayload input))
    (h : Stored env b task x (Js.trim input.agentName) (commitPayload input) hash ids now r) :
    ∃ result, r.1 = .ok result ∧ result.committed = true ∧ result.replay = false ∧
      StoredTogether env b task.id input now result r.2 := by
  obtain ⟨hready, recorded, approvalId, deliveryId, hrec, houtcome, rfl⟩ := h
  have hmem : x ∈ b.world.executions := Table.mem_of_lookup hx
  have hattempt : x.executionAttemptId = input.executionAttemptId := Table.key_of_lookup hx
  refine ⟨_, rfl, rfl, rfl, by rw [← hattempt]; rfl,
    ⟨x, hmem, hattempt, hown, hready, matchesCheckpoint_of_ok hmatch, ?_, ?_⟩, ⟨task, hfound, ?_⟩, ?_, ?_, ?_⟩
  · unfold Board.closeRun Board.setExecutionColumns Board.writeExecution Board.setTaskColumns Board.writeTask
    rw [hrec.world]
    exact Table.mem_write.mpr (.inr ⟨rfl, x, hmem, rfl⟩)
  · unfold Board.closeRun Board.setExecutionColumns
    dsimp only
    rw [Function.update_self, hrec.executionColumns, hhash]
  · unfold Board.closeRun Board.setExecutionColumns Board.writeExecution Board.setTaskColumns Board.writeTask
    rw [hrec.world]
    exact Table.lookup_write_self hfound
  · obtain ⟨written, hevents, hruns, hactions⟩ := houtcome.written
    refine ⟨written, hevents, ?_, ?_⟩
    · rw [List.countP_eq_length_filter, hruns]
      rfl
    · rw [List.countP_eq_length_filter, hactions]
      split_ifs <;> rfl
  · rcases houtcome.approvals with ⟨rfl, hsame⟩ | ⟨_, tier, _, rfl, hnew⟩
    · exact ⟨[], hsame.trans (List.append_nil _).symm, rfl⟩
    · exact ⟨_, hnew, rfl⟩
  · have hdeliveries := houtcome.deliveries
    split_ifs at hdeliveries ⊢
    · obtain ⟨rfl, hnew⟩ := hdeliveries
      exact ⟨_, hnew, rfl, rfl⟩
    · obtain ⟨rfl, hsame⟩ := hdeliveries
      exact ⟨[], hsame.trans (List.append_nil _).symm, rfl, rfl⟩

theorem countsTowards_eq {agentName agentName' : String} {day : ℤ} {e : EventRow} (hsource : e.source = s!"agent:{agentName}")
    (hat : e.occurredAt = now) (h : countsTowards agentName' day e) (e' : EventRow) :
    countsTowards agentName' day e' ↔ countsTowards agentName (Clock.tashkentDay now) e' := by
  obtain ⟨hsource', _, hfrom, hto⟩ := h
  rw [hat] at hfrom hto
  obtain rfl : Clock.tashkentDay now = day := (Clock.tashkentDay_eq_iff now day).mpr ⟨hfrom, hto⟩
  unfold countsTowards
  rw [← hsource', hsource]

/-- An action is stored only where the day has room for it. -/
theorem Stored.withinCap {task : TaskRow} {agentName : String} {hash : String}
    {r : Committed AgentRunCommitResult} (h : Stored env b task x agentName outcome hash ids now r)
    (hcap : outcome.kind.isAction = true → b.actionCapReached env agentName now = false)
    (hpos : 0 < env.agentDailyActionCap) (hwithin : WithinCap env b) : WithinCap env r.2 := by
  obtain ⟨_, recorded, approvalId, deliveryId, _, houtcome, rfl⟩ := h
  obtain ⟨written, hevents, _, hactions⟩ := houtcome.written
  intro agentName' day
  have hsum : dayActions (recorded.closeRun task x agentName outcome hash approvalId deliveryId now) agentName' day =
      dayActions b agentName' day + written.countP fun e => countsTowards agentName' day e := by
    unfold dayActions
    rw [← List.countP_append, ← hevents]
    rfl
  have hwritten : (written.countP fun e => countsTowards agentName' day e) =
      (written.filter (·.type = "agent.action")).countP fun e => countsTowards agentName' day e := by
    rw [List.countP_filter]
    refine List.countP_congr fun e _ => ?_
    simp only [decide_eq_true_eq, Bool.and_eq_true]
    exact ⟨fun h => ⟨h, h.2.1⟩, And.left⟩
  have hold := hwithin agentName' day
  rw [hsum, hwritten, hactions]
  split_ifs with haction
  · rw [List.countP_singleton]
    split_ifs with hcounts
    · -- the event is counted: the day and the agent are those of the cap
      have hroom := hcap haction
      simp only [Board.actionCapReached, hpos, decide_true, Bool.true_and, decide_eq_false_iff_not, not_le] at hroom
      have hsame : dayActions b agentName' day =
          (b.events.filter fun e => countsTowards agentName (Clock.tashkentDay now) e).length := by
        rw [← List.countP_eq_length_filter]
        refine List.countP_congr fun e _ => ?_
        rw [decide_eq_true_eq, decide_eq_true_eq]
        exact countsTowards_eq rfl rfl (of_decide_eq_true hcounts) e
      rw [hsame]
      push_cast
      omega
    · push_cast
      omega
  · simpa using hold

/-- What a commit call does and answers. -/
inductive CommitStep (env : Env) (b : Board) (id : String) (input : AgentRunCommitInput) (now : ℤ) :
    Answer → Board → Prop
  | replayed (x : ExecutionRow) (result : AgentRunCommitResult) : x ∈ b.world.executions →
    x.executionAttemptId = input.executionAttemptId → x.status = .committed →
    (∃ hash, replayCommittedExecution x (b.executionColumns x.id) hash = .ok result) →
    CommitStep env b id input now (.committed result) b
  | refused (reply : Answer) (b' : Board) : SameOutcomes b b' → b'.world.executions = b.world.executions → ((∃ error, reply = .failed error) ∨
    ∃ result, reply = .committed result ∧ result.committed = false) → CommitStep env b id input now reply b'
  | stored (result : AgentRunCommitResult) (b' : Board) : result.committed = true → result.replay = false →
    StoredTogether env b id input now result b' → (0 < env.agentDailyActionCap → WithinCap env b → WithinCap env b') →
    CommitStep env b id input now (.committed result) b'

theorem commit_step (env : Env) (b : Board) (id : String) (input : AgentRunCommitInput) (ids : CommitIds) (now : ℤ) :
    CommitStep env b id input now (perform env b (.commitAgentRun id input ids now)).1
      (perform env b (.commitAgentRun id input ids now)).2 := by
  simp only [perform]
  rcases h : b.commitAgentRun env id input ids now with error | r
  · exact .refused _ _ (.refl b) rfl (.inl ⟨error, rfl⟩)
  · rcases commitAgentRun_eq_ok h with ⟨x, result, hx, hcommitted, hreplay, rfl⟩ |
      ⟨task, x, result, reason, _, _, hresult, rfl⟩ | ⟨task, x, result, _, _, hresult, _, rfl⟩ |
      ⟨task, x, hash, hfenced, rfl, hx, hown, hmatch, hcap, hhash, hstored⟩
    · exact .replayed x result (Table.mem_of_lookup hx) (Table.key_of_lookup hx) hcommitted ⟨_, hreplay⟩
    · exact .refused _ _ ⟨rfl, rfl, rfl, fun _ _ => rfl⟩ rfl (.inr ⟨result, rfl, hresult⟩)
    · exact .refused _ _ ⟨rfl, rfl, rfl, fun _ _ => rfl⟩ rfl (.inr ⟨result, rfl, hresult⟩)
    · obtain ⟨result, hr, hcommitted, hreplay, htogether⟩ := hstored.together hfenced.found hx hown hmatch hhash
      have hwithin := hstored.withinCap hcap
      obtain ⟨reply, b'⟩ := r
      subst hr
      exact .stored result b' hcommitted hreplay htogether hwithin

/-! What holds of the executions in every state of a run. -/

/-- An active execution has no checkpoint, and only a committed one an outcome. -/
structure Fits (x : ExecutionRow) (c : ExecutionColumns) : Prop where
  checkpoint : x.status = .active → c.checkpointHash = none
  outcome : x.status ≠ .committed → c.outcomeHash = none

structure Coherent (b : Board) : Prop extends Keyed b where
  fits : ∀ x ∈ b.world.executions, Fits x (b.executionColumns x.id)

theorem coherent_emptyBoard : Coherent emptyBoard := ⟨keyed_emptyBoard, List.forall_mem_nil _⟩

theorem Inserted.fits {c : ExecutionColumns} (h : Inserted b x c) : Fits x c := by
  refine ⟨fun hactive => ?_, fun _ => h.outcome.2.1⟩
  rcases h.status with ⟨_, _, _, hnone⟩ | hready
  · exact hnone
  · rw [hready] at hactive
    cases hactive

theorem ExecutionChange.fits {c c' : ExecutionColumns} (h : ExecutionChange b a x c x' c')
    (hfits : Fits x c) : Fits x' c' := by
  rcases h with _ | ⟨_, hactive, _⟩ | ⟨_, _, _, hactive, _⟩ | ⟨_, _, _, _, _, _, _, _, hready, _⟩ |
    ⟨_, _, _, _, hstatus⟩
  · exact hfits
  · exact ⟨hfits.checkpoint, hfits.outcome⟩
  · refine ⟨nofun, fun _ => hfits.outcome ?_⟩
    rw [hactive]
    exact Jobs.ExecutionStatus.noConfusion
  · exact ⟨nofun, fun h => absurd rfl h⟩
  · refine ⟨nofun, fun _ => hfits.outcome ?_⟩
    rcases hstatus with hstatus | hstatus <;> rw [hstatus] <;> exact Jobs.ExecutionStatus.noConfusion

theorem Effect.coherent (h : Effect env b a b') (hc : Coherent b) : Coherent b' := by
  refine ⟨h.keyed hc.toKeyed, fun x' hx' => ?_⟩
  rcases h.execution_of_after hc.toKeyed hx' with ⟨x, hx, hid, hchange⟩ | hinserted
  · rw [hid]
    exact hchange.fits (hc.fits x hx)
  · exact hinserted.fits

theorem Coherent.run {b₀ : Board} (hc : Coherent b₀) (h : Run (next env) b₀ steps b) : Coherent b :=
  h.invariant (fun _ _ _ hc hnext => (next_effect hnext).coherent hc) hc

theorem coherent_of_run (h : Run (next env) emptyBoard steps b) : Coherent b := coherent_emptyBoard.run h

/-- Only a commit writes the tables of the outcomes. -/
theorem Effect.tables (h : Effect env b a b') (hother : ∀ id input ids now, a ≠ .commitAgentRun id input ids now) :
    b'.events = b.events ∧ b'.approvals = b.approvals ∧ b'.deliveries = b.deliveries := by
  have hcancels : ∀ {b b' : Board} {executionId : String}, Cancels b executionId b' →
      b'.events = b.events ∧ b'.approvals = b.approvals ∧ b'.deliveries = b.deliveries := by
    intro b b' executionId hcancels
    obtain ⟨_, _, _, _, _, _, rfl⟩ := hcancels.released
    exact ⟨rfl, rfl, rfl⟩
  have hcleans : ∀ {row : TaskRow} {status : Jobs.TaskStatus} {b' : Board}, Cleans b row status b' →
      b'.events = b.events ∧ b'.approvals = b.approvals ∧ b'.deliveries = b.deliveries := by
    intro row status b' hcleans
    rcases hcleans with _ | _ | _ | ⟨_, _, _, _, hc⟩
    · exact ⟨rfl, rfl, rfl⟩
    · exact ⟨rfl, rfl, rfl⟩
    · exact ⟨rfl, rfl, rfl⟩
    · exact hcancels hc
  rcases h with _ | _ | _ | _ | _ | ⟨_, _, _, _, _, _, _, hbridged⟩ | _ | _ | _ | _ | _ | _ |
    ⟨_, _, _, attemptId, _, _, now, _, _⟩ | _ | ⟨_, _, _, _, _, _, _, _, _, _, hc⟩ | _ |
    ⟨_, _, _, _, _, _, _, _, hclean⟩ | ⟨_, _, _, _, _, _, _, _, _, hclean⟩ | _ | _ | _
  · exact ⟨rfl, rfl, rfl⟩
  · exact ⟨rfl, rfl, rfl⟩
  · exact ⟨rfl, rfl, rfl⟩
  · exact ⟨rfl, rfl, rfl⟩
  · exact ⟨rfl, rfl, rfl⟩
  · rcases hbridged with _ | _ <;> exact ⟨rfl, rfl, rfl⟩
  · exact ⟨rfl, rfl, rfl⟩
  · exact ⟨rfl, rfl, rfl⟩
  · exact ⟨rfl, rfl, rfl⟩
  · exact ⟨rfl, rfl, rfl⟩
  · exact absurd rfl (hother _ _ _ _)
  · exact ⟨rfl, rfl, rfl⟩
  · split_ifs
    · unfold Board.loseDispatches
      split <;> exact ⟨rfl, rfl, rfl⟩
    · exact ⟨rfl, rfl, rfl⟩
  · exact ⟨rfl, rfl, rfl⟩
  · obtain ⟨hevents, happrovals, hdeliveries⟩ := hcancels hc
    exact ⟨hevents, happrovals, hdeliveries⟩
  · exact ⟨rfl, rfl, rfl⟩
  · exact hcleans hclean
  · obtain ⟨hevents, happrovals, hdeliveries⟩ := hcleans hclean
    exact ⟨hevents, happrovals, hdeliveries⟩
  · exact ⟨rfl, rfl, rfl⟩
  · exact ⟨rfl, rfl, rfl⟩
  · exact ⟨rfl, rfl, rfl⟩

theorem Effect.sameOutcomes (h : Effect env b a b') (hk : Keyed b)
    (hother : ∀ id input ids now, a ≠ .commitAgentRun id input ids now) : SameOutcomes b b' := by
  obtain ⟨hevents, happrovals, hdeliveries⟩ := h.tables hother
  refine ⟨hevents, happrovals, hdeliveries, fun x hx => ?_⟩
  obtain ⟨x', _, _, hchange⟩ := h.execution hk hx
  generalize b'.executionColumns x.id = c' at hchange
  rcases hchange with _ | _ | _ | ⟨id, input, ids, now, _, _, _, ha, _⟩ | _
  · rfl
  · rfl
  · rfl
  · exact absurd ha (hother id input ids now)
  · rfl

theorem sameOutcomes_of_not_stores (hnext : next env b a b') (hk : Keyed b)
    (hnone : ∀ attempt result, ¬ Stores env ⟨b, a, b'⟩ attempt result) : SameOutcomes b b' := by
  by_cases hcommit : ∃ id input ids now, a = .commitAgentRun id input ids now
  · obtain ⟨id, input, ids, now, rfl⟩ := hcommit
    subst hnext
    have hstep := commit_step env b id input ids now
    generalize hr : perform env b (.commitAgentRun id input ids now) = r at hstep hnone ⊢
    obtain ⟨reply, b'⟩ := r
    rcases hstep with _ | ⟨_, _, hsame, _, _⟩ | ⟨result, _, hcommitted, hreplay, _, _⟩
    · exact .refl _
    · exact hsame
    · exact absurd ⟨id, input, ids, now, rfl, rfl, congrArg Prod.fst hr, hcommitted, hreplay⟩ (hnone _ result)
  · push Not at hcommit
    exact (next_effect hnext).sameOutcomes hk hcommit

theorem ExecutionChange.keeps {c c' : ExecutionColumns} (h : ExecutionChange b a x c x' c')
    (hfits : Fits x c) : (x.inputSnapshotHash.isSome → snapshotOf x' = snapshotOf x) ∧
      (c.checkpointHash.isSome → checkpointOf c' = checkpointOf c) ∧
      (c.outcomeHash.isSome → outcomeOf c' = outcomeOf c) := by
  rcases h with _ | ⟨_, _, _, _, hnone⟩ | ⟨_, _, _, hactive, _⟩ | ⟨_, _, _, _, _, _, _, _, hready, _⟩ | _
  · exact ⟨fun _ => rfl, fun _ => rfl, fun _ => rfl⟩
  · refine ⟨fun hsome => ?_, fun _ => rfl, fun _ => rfl⟩
    rw [hnone] at hsome
    cases hsome
  · refine ⟨fun _ => rfl, fun hsome => ?_, fun _ => rfl⟩
    rw [hfits.checkpoint hactive] at hsome
    cases hsome
  · refine ⟨fun _ => rfl, fun _ => rfl, fun hsome => ?_⟩
    rw [hfits.outcome (by rw [hready]; exact Jobs.ExecutionStatus.noConfusion)] at hsome
    cases hsome
  · exact ⟨fun _ => rfl, fun _ => rfl, fun _ => rfl⟩

theorem KeepsStored.refl (b : Board) : KeepsStored b b :=
  fun x hx => ⟨x, hx, rfl, rfl, fun _ => rfl, fun _ => rfl, fun _ => rfl⟩

theorem KeepsStored.trans {b'' : Board} (h : KeepsStored b b') (h' : KeepsStored b' b'') : KeepsStored b b'' := by
  intro x hx
  obtain ⟨x', hx', hid, hattempt, hsnapshot, hcheckpoint, houtcome⟩ := h x hx
  obtain ⟨x'', hx'', hid', hattempt', hsnapshot', hcheckpoint', houtcome'⟩ := h' x' hx'
  rw [hid] at hcheckpoint' houtcome'
  refine ⟨x'', hx'', hid'.trans hid, hattempt'.trans hattempt, fun hsome => ?_, fun hsome => ?_, fun hsome => ?_⟩
  · have hsame := hsnapshot hsome
    have hhash : x'.inputSnapshotHash = x.inputSnapshotHash := congrArg (fun s => s.2.2) hsame
    exact (hsnapshot' (hhash ▸ hsome)).trans hsame
  · have hsame := hcheckpoint hsome
    have hhash : (b'.executionColumns x.id).checkpointHash = (b.executionColumns x.id).checkpointHash :=
      congrArg (fun c => c.2.2) hsame
    exact (hcheckpoint' (hhash ▸ hsome)).trans hsame
  · have hsame := houtcome hsome
    have hhash : (b'.executionColumns x.id).outcomeHash = (b.executionColumns x.id).outcomeHash :=
      congrArg (fun c => c.2.1) hsame
    exact (houtcome' (hhash ▸ hsome)).trans hsame

theorem Effect.keepsStored (h : Effect env b a b') (hc : Coherent b) : KeepsStored b b' := by
  intro x hx
  obtain ⟨x', hx', hid, hchange⟩ := h.execution hc.toKeyed hx
  exact ⟨x', hx', hid, hchange.key.2.1, hchange.keeps (hc.fits x hx)⟩

theorem keepsStored_of_run {b₀ : Board} (h : Run (next env) b₀ steps b) (hc : Coherent b₀) : KeepsStored b₀ b := by
  induction h with
  | start => exact .refl _
  | step hrun hnext ih =>
    exact ih.trans ((next_effect hnext).keepsStored (hc.run hrun))

/-! What a replay reads back. -/

/-- The columns hold the outcome that the result answered. -/
def Reads (x : ExecutionRow) (c : ExecutionColumns) (result : AgentRunCommitResult) : Prop :=
  ∃ outcome : CommitPayload, c.approvalId = result.approvalId ∧
    c.outcomePayload = some (outcomeJson x.taskId x.executionAttemptId outcome result.approvalId
      result.outboxDeliveryId) ∧
    result = storedResult x.taskId x.executionAttemptId outcome.note result.approvalId result.outboxDeliveryId

theorem keys_entry_sublist {α : Type} (key : String) (f : α → Json) (value : Option α) :
    ((Ledger.entry key f value).map Prod.fst).Sublist [key] := by
  rcases value with _ | v
  · exact List.nil_sublist _
  · exact List.Sublist.refl _

theorem get?_outcomeJson {executionAttemptId : String} {approvalId deliveryId : Option String} :
    (outcomeJson id executionAttemptId outcome approvalId deliveryId).get? "input" = some outcome.json.canonical ∧
      (outcomeJson id executionAttemptId outcome approvalId deliveryId).get? "result" =
        some (Json.obj ([("taskId", .str id), ("executionAttemptId", .str executionAttemptId)] ++
          Ledger.entry "approvalId" .str approvalId ++ Ledger.entry "outboxDeliveryId" .str deliveryId)).canonical := by
  have hnd : ["input", "result"].Nodup := by decide
  unfold outcomeJson
  constructor <;> rw [Json.get?_canonical (by exact hnd)] <;> rfl

theorem obj_jsonObject_canonical (entries : List (String × Json)) :
    Json.obj (jsonObject (some (Json.obj entries).canonical)) = (Json.obj entries).canonical := by
  rw [Json.canonical]
  rfl

theorem note_canonical (outcome : CommitPayload) :
    (outcome.json.canonical.get? "note").bind Json.asString = some outcome.note := by
  have hnd : (["kind", "note"] ++ (["action"] ++ ["facts"] ++ ["next"]) ++ ["tier"] ++ ["memorySignature"] ++
      ["executionDetail"]).Nodup := by decide
  unfold CommitPayload.json proposalEntries
  rw [Json.get?_canonical]
  · rfl
  · refine hnd.sublist ?_
    simp only [List.map_append]
    refine ((((List.Sublist.append (.refl _) (.append (.append ?_ ?_) ?_)).append ?_).append ?_).append ?_) <;>
      exact keys_entry_sublist _ _ _

theorem delivery_canonical (executionAttemptId : String) (approvalId deliveryId : Option String) :
    ((Json.obj ([("taskId", .str id), ("executionAttemptId", .str executionAttemptId)] ++
      Ledger.entry "approvalId" .str approvalId ++ Ledger.entry "outboxDeliveryId" .str deliveryId)).canonical.get?
        "outboxDeliveryId").bind Json.asString = deliveryId := by
  have hnd : (["taskId", "executionAttemptId"] ++ ["approvalId"] ++ ["outboxDeliveryId"]).Nodup := by decide
  rw [Json.get?_canonical]
  · cases approvalId <;> cases deliveryId <;> rfl
  · refine hnd.sublist ?_
    simp only [List.map_append]
    exact ((List.Sublist.refl _).append (keys_entry_sublist _ _ _)).append (keys_entry_sublist _ _ _)

/-- A replay answers with what the commit answered. -/
theorem Reads.replay {c : ExecutionColumns} {result result' : AgentRunCommitResult} {hash : String}
    (h : Reads x c result) (hreplay : replayCommittedExecution x c hash = .ok result') : result' = replayOf result := by
  obtain ⟨outcome, happroval, hpayload, hresult⟩ := h
  unfold replayCommittedExecution at hreplay
  simp only [Js.bind_eq_ok, Js.orThrow_eq_ok] at hreplay
  obtain ⟨_, _, note, hnote, hreplay⟩ := hreplay
  have hstored : Json.obj (jsonObject c.outcomePayload) = outcomeJson x.taskId x.executionAttemptId outcome
      result.approvalId result.outboxDeliveryId := by
    rw [hpayload]
    exact obj_jsonObject_canonical _
  rw [hstored, get?_outcomeJson.1] at hnote
  rw [hstored, get?_outcomeJson.2] at hreplay
  have hinput : Json.obj (jsonObject (some outcome.json.canonical)) = outcome.json.canonical :=
    obj_jsonObject_canonical _
  rw [hinput, note_canonical] at hnote
  cases hnote
  rw [obj_jsonObject_canonical, delivery_canonical] at hreplay
  cases hreplay
  rw [hresult, happroval]
  rfl

theorem replay_of_replayCommittedExecution {c : ExecutionColumns} {hash : String}
    (h : replayCommittedExecution x c hash = .ok result) : result.replay = true := by
  unfold replayCommittedExecution at h
  simp only [Js.bind_eq_ok] at h
  obtain ⟨_, _, _, _, h⟩ := h
  cases h
  rfl

/-! Runs. -/

/-- A step that stores is a commit that is neither a replay nor refused. -/
theorem Stores.stored (h : Stores env ⟨b, a, b'⟩ attempt result)
    (hnext : next env b a b') :
    ∃ id input ids now, a = .commitAgentRun id input ids now ∧ input.executionAttemptId = attempt ∧
      StoredTogether env b id input now result b' ∧
      (0 < env.agentDailyActionCap → WithinCap env b → WithinCap env b') := by
  obtain ⟨id, input, ids, now, rfl, hattempt, hanswer, hcommitted, hreplay⟩ := h
  subst hnext
  have hstep := commit_step env b id input ids now
  generalize hr : perform env b (.commitAgentRun id input ids now) = r at hstep ⊢
  obtain ⟨reply, b'⟩ := r
  have hreply : reply = .committed result := by
    rw [← hanswer]
    exact (congrArg Prod.fst hr).symm
  rcases hstep with ⟨x, result', _, _, _, hash, hx⟩ | ⟨_, _, _, _, ⟨error, rfl⟩ | ⟨result', rfl, hrefused⟩⟩ |
    ⟨_, _, _, _, htogether, hcap⟩
  · cases hreply
    rw [replay_of_replayCommittedExecution hx] at hreplay
    cases hreplay
  · cases hreply
  · cases hreply
    rw [hrefused] at hcommitted
    cases hcommitted
  · cases hreply
    exact ⟨id, input, ids, now, rfl, hattempt, htogether, hcap⟩

/-- The attempt has a stored commit. -/
def HasCommit (b : Board) (attempt : String) : Prop :=
  ∃ x ∈ b.world.executions, x.executionAttemptId = attempt ∧ x.status = .committed

theorem ExecutionChange.of_committed {c c' : ExecutionColumns}
    (h : ExecutionChange b a x c x' c') (hcommitted : x.status = .committed) : x' = x ∧ c' = c := by
  rcases h with _ | ⟨_, hactive, _⟩ | ⟨_, _, _, hactive, _⟩ | ⟨_, _, _, _, _, _, _, _, hready, _⟩ |
    ⟨_, _, _, _, hstatus⟩
  · exact ⟨rfl, rfl⟩
  · rw [hactive] at hcommitted
    cases hcommitted
  · rw [hactive] at hcommitted
    cases hcommitted
  · rw [hready] at hcommitted
    cases hcommitted
  · rcases hstatus with hstatus | hstatus <;> rw [hstatus] at hcommitted <;> cases hcommitted

theorem ExecutionChange.to_committed {c c' : ExecutionColumns}
    (h : ExecutionChange b a x c x' c') (hbefore : x.status ≠ .committed) (hafter : x'.status = .committed) :
    ∃ id input ids now, a = .commitAgentRun id input ids now ∧ x.executionAttemptId = input.executionAttemptId ∧
      x' = { x with status := .committed } := by
  rcases h with _ | ⟨_, hactive, _⟩ | _ | ⟨id, input, ids, now, _, _, _, ha, _, hattempt⟩ | _
  · exact absurd hafter hbefore
  · exact absurd hafter (by unfold snapshottedExecution; exact hbefore)
  · cases hafter
  · exact ⟨id, input, ids, now, ha, hattempt, rfl⟩
  · cases hafter

theorem Effect.committed (h : Effect env b a b') (hk : Keyed b) (hcommitted : HasCommit b attempt) :
    HasCommit b' attempt := by
  obtain ⟨x, hx, hattempt, hst⟩ := hcommitted
  obtain ⟨x', hx', _, hchange⟩ := h.execution hk hx
  obtain ⟨rfl, _⟩ := hchange.of_committed hst
  exact ⟨x', hx', hattempt, hst⟩

theorem committed_of_run {b₀ : Board} (h : Run (next env) b₀ steps b) (hc : Coherent b₀)
    (hcommitted : HasCommit b₀ attempt) : HasCommit b attempt := by
  have hstep : ∀ s a s', Coherent s ∧ HasCommit s attempt → next env s a s' → Coherent s' ∧ HasCommit s' attempt :=
    fun _ _ _ hinv hnext =>
      ⟨(next_effect hnext).coherent hinv.1, (next_effect hnext).committed hinv.1.toKeyed hinv.2⟩
  exact (h.invariant hstep ⟨hc, hcommitted⟩).2

theorem Stores.not_committed (h : Stores env ⟨b, a, b'⟩ attempt result)
    (hnext : next env b a b') (hk : Keyed b) : ¬ HasCommit b attempt := by
  rintro ⟨x, hx, hattempt, hst⟩
  obtain ⟨_, input, _, _, _, hinput, htogether, _⟩ := h.stored hnext
  obtain ⟨y, hy, hyattempt, _, hready, _⟩ := htogether.execution
  obtain rfl : x = y := Table.eq_of_key_eq hk.attempts hx hy (hattempt.trans (hyattempt.trans hinput).symm)
  rw [hst] at hready
  cases hready

theorem Stores.committed (h : Stores env ⟨b, a, b'⟩ attempt result)
    (hnext : next env b a b') : HasCommit b' attempt := by
  obtain ⟨_, input, _, _, _, hinput, htogether, _⟩ := h.stored hnext
  obtain ⟨y, _, hyattempt, _, _, _, hy', _⟩ := htogether.execution
  exact ⟨_, hy', hyattempt.trans hinput, rfl⟩

/-- The call that leaves an execution committed stores a commit, and the columns hold its answer. -/
theorem stores_of_change (hnext : next env b a b') (hk : Keyed b) (hk' : Keyed b')
    (hx : x ∈ b.world.executions) (hbefore : x.status ≠ .committed) (hx' : x' ∈ b'.world.executions)
    (hchange : ExecutionChange b a x (b.executionColumns x.id) x' (b'.executionColumns x.id))
    (hafter : x'.status = .committed) :
    ∃ result, Stores env ⟨b, a, b'⟩ x'.executionAttemptId result ∧ Reads x' (b'.executionColumns x'.id) result := by
  obtain ⟨id, input, ids, now, rfl, hattempt, rfl⟩ := hchange.to_committed hbefore hafter
  -- a call that keeps the executions cannot have made this one committed
  have hsame : b'.world.executions ≠ b.world.executions := by
    intro hrows
    rw [hrows] at hx'
    have := Table.eq_of_key_eq hk.ids hx' hx rfl
    rw [← this] at hbefore
    exact hbefore rfl
  subst hnext
  have hstep := commit_step env b id input ids now
  generalize hr : perform env b (.commitAgentRun id input ids now) = r at hstep hsame ⊢
  obtain ⟨reply, b'⟩ := r
  rcases hstep with _ | ⟨_, _, _, hrows, _⟩ | ⟨result, _, hcommitted, hreplay, htogether, _⟩
  · exact absurd rfl hsame
  · exact absurd hrows hsame
  · refine ⟨result, ⟨id, input, ids, now, rfl, hattempt.symm, congrArg Prod.fst hr, hcommitted, hreplay⟩, ?_⟩
    obtain ⟨y, hy, hyattempt, hown, _, _, _, hcolumns⟩ := htogether.execution
    obtain rfl : x = y := Table.eq_of_key_eq hk.attempts hx hy (hattempt.trans hyattempt.symm)
    have hanswer := htogether.answer
    rw [← hown] at hcolumns hanswer
    rw [← hattempt] at hanswer
    exact ⟨commitPayload input, by rw [hcolumns]; rfl, by rw [hcolumns]; rfl, hanswer⟩

/-- What is committed was stored by a step of the run, and its columns still hold that answer. -/
theorem committed_stored (h : Run (next env) emptyBoard steps b) (hx : x ∈ b.world.executions)
    (hst : x.status = .committed) : ∃ e ∈ steps, ∃ result, Stores env e x.executionAttemptId result ∧
      Reads x (b.executionColumns x.id) result := by
  induction h generalizing x with
  | start => cases hx
  | @step steps b b' a hrun hnext ih =>
    have hc := coherent_of_run hrun
    have hc' := (next_effect hnext).coherent hc
    rcases (next_effect hnext).execution_of_after hc.toKeyed hx with ⟨x₀, hx₀, hid, hchange⟩ | hinserted
    · by_cases hbefore : x₀.status = .committed
      · obtain ⟨rfl, hcolumns⟩ := hchange.of_committed hbefore
        obtain ⟨e, he, result, hstores, hreads⟩ := ih hx₀ hbefore
        refine ⟨e, List.mem_append_left _ he, result, hstores, ?_⟩
        rwa [hcolumns]
      · obtain ⟨result, hstores, hreads⟩ := stores_of_change hnext hc.toKeyed hc'.toKeyed hx₀ hbefore hx hchange hst
        exact ⟨_, List.mem_append_right _ (List.mem_singleton_self _), result, hstores, hreads⟩
    · rcases hinserted.status with ⟨hactive, _⟩ | hready
      · rw [hactive] at hst
        cases hst
      · rw [hready] at hst
        cases hst

theorem withinCap_of_run (h : Run (next env) emptyBoard steps b) (hpos : 0 < env.agentDailyActionCap) :
    WithinCap env b := by
  induction h with
  | start => intro agentName day; exact hpos.le
  | @step steps b b' a hrun hnext ih =>
    by_cases hstores : ∃ attempt result, Stores env ⟨b, a, b'⟩ attempt result
    · obtain ⟨attempt, result, hstores⟩ := hstores
      obtain ⟨_, _, _, _, _, _, _, hcap⟩ := hstores.stored hnext
      exact hcap hpos ih
    · push Not at hstores
      have hsame := sameOutcomes_of_not_stores hnext (coherent_of_run hrun).toKeyed hstores
      intro agentName day
      unfold dayActions
      rw [hsame.events]
      exact ih agentName day

/-- A commit that is not stored is a replay of the one that was, or is refused. -/
theorem commit_not_stored {input : AgentRunCommitInput} (h : Run (next env) emptyBoard steps b)
    (hnext : next env b (.commitAgentRun id input ids now) b')
    (hnone : ∀ result, ¬ Stores env ⟨b, .commitAgentRun id input ids now, b'⟩ input.executionAttemptId result) :
    (b' = b ∧ ∃ e₀ ∈ steps, ∃ result, Stores env e₀ input.executionAttemptId result ∧
      answer env ⟨b, .commitAgentRun id input ids now, b'⟩ = .committed (replayOf result)) ∨
    (SameOutcomes b b' ∧ ((∃ error, answer env ⟨b, .commitAgentRun id input ids now, b'⟩ = .failed error) ∨
      ∃ result, answer env ⟨b, .commitAgentRun id input ids now, b'⟩ = .committed result ∧
        result.committed = false)) := by
  subst hnext
  unfold answer
  have hstep := commit_step env b id input ids now
  generalize hr : perform env b (.commitAgentRun id input ids now) = r at hstep hnone ⊢
  obtain ⟨reply, b'⟩ := r
  rcases hstep with ⟨x, result, hx, hattempt, hst, hash, hreplay⟩ | ⟨_, _, hsame, _, hrefused⟩ |
    ⟨result, _, hcommitted, hreplay, _, _⟩
  · obtain ⟨e₀, he₀, stored, hstores, hreads⟩ := committed_stored h hx hst
    rw [hattempt] at hstores
    obtain rfl := hreads.replay hreplay
    exact .inl ⟨rfl, e₀, he₀, stored, hstores, rfl⟩
  · exact .inr ⟨hsame, hrefused⟩
  · exact absurd ⟨id, input, ids, now, rfl, rfl, congrArg Prod.fst hr, hcommitted, hreplay⟩ (hnone result)

/-- The commits of every run keep the law. -/
theorem commitLaw_of_run (h : Run (next env) emptyBoard steps b) : CommitLaw env steps b := by
  refine ⟨fun earlier e later attempt result hsplit hstores e' he' result' hstores' => ?_,
    fun e he id input ids now result hact hstores => ?_, fun earlier e later hsplit id input ids now hact hnone => ?_,
    fun e he hnone => ?_, fun e he => ?_, withinCap_of_run h⟩
  · subst hsplit
    obtain ⟨hearlier, hnext, hlater⟩ := h.of_append
    have hc := (next_effect hnext).coherent (coherent_of_run hearlier)
    obtain ⟨mid, _, rfl, hmid, hnext', _⟩ := hlater.split he'
    exact hstores'.not_committed hnext' (hc.run hmid).toKeyed (committed_of_run hmid hc (hstores.committed hnext))
  · obtain ⟨_, _, _, _, hnext, _⟩ := h.split he
    obtain ⟨id', input', ids', now', hact', _, htogether, _⟩ := hstores.stored hnext
    rw [hact] at hact'
    cases hact'
    exact htogether
  · subst hsplit
    obtain ⟨hearlier, hnext, _⟩ := h.of_append
    obtain ⟨before, action, after⟩ := e
    dsimp only at hact
    subst hact
    exact commit_not_stored hearlier hnext hnone
  · obtain ⟨_, _, _, hbefore, hnext, _⟩ := h.split he
    exact sameOutcomes_of_not_stores hnext (coherent_of_run hbefore).toKeyed hnone
  · obtain ⟨_, _, _, hbefore, hnext, hafter⟩ := h.split he
    have hc := coherent_of_run hbefore
    exact ((next_effect hnext).keepsStored hc).trans
      (keepsStored_of_run hafter ((next_effect hnext).coherent hc))

end

def quietFence : Fence := ⟨"agent", "run-1", "attempt-1"⟩

def quietCheckpoint : AgentRunCheckpointInput where
  toFence := quietFence
  skill := "watch"
  kind := .noSignal
  action := none
  facts := some (.obj [("found", .str "nothing")])
  next := none

def quietCommit : AgentRunCommitInput where
  toFence := quietFence
  kind := .noSignal
  note := "quiet"
  action := none
  facts := none
  next := none
  tier := none
  memorySignature := none
  executionDetail := none

/-- A run without a signal, whose commit leaves out the facts of its checkpoint. -/
def quietRun : List Action :=
  [.createTask workerTask 0, .claimAgentRun "task" "agent" 1 .assigned "run-1" "attempt-1",
    .checkpointAgentRun "task" quietCheckpoint 2 2 "execution-1",
    .commitAgentRun "task" quietCommit ⟨"approval-1", "delivery-1"⟩ 3]

theorem commitLaw_quietRun :
    CommitLaw workerEnv (runOf workerEnv emptyBoard quietRun).1 (runOf workerEnv emptyBoard quietRun).2 :=
  commitLaw_of_run (run_runOf workerEnv emptyBoard quietRun)

def storedAnswer : Answer → Option AgentRunCommitResult
  | .committed result => if result.committed && !result.replay then some result else none
  | _ => none

theorem eq_of_storedAnswer {reply : Answer} {result : AgentRunCommitResult} (h : storedAnswer reply = some result) :
    reply = .committed result ∧ result.committed = true ∧ result.replay = false := by
  unfold storedAnswer at h
  split at h
  · split_ifs at h with hstored
    cases h
    simpa using hstored
  · cases h

/-- The facts of a checkpoint without a signal are not compared with those of its commit. -/
theorem noSignal_facts_not_compared : ¬ ∀ (env : Env) (steps : List TaskStep) (b : Board),
    Run (next env) emptyBoard steps b → ∀ e ∈ steps, ∀ id input ids now result,
      e.action = .commitAgentRun id input ids now → Stores env e input.executionAttemptId result →
      ∃ x ∈ e.before.world.executions, x.executionAttemptId = input.executionAttemptId ∧
        (checkpointProposal (e.before.executionColumns x.id).checkpointPayload).canonicalHash env.host =
          (commitPayload input).proposal.canonicalHash env.host := by
  intro hclaim
  obtain ⟨e, he, hact, hanswer, hdiffers⟩ : ∃ e ∈ (runOf workerEnv emptyBoard quietRun).1,
      e.action = .commitAgentRun "task" quietCommit ⟨"approval-1", "delivery-1"⟩ 3 ∧
      (storedAnswer (answer workerEnv e)).isSome = true ∧ ∀ x ∈ e.before.world.executions,
        (checkpointProposal (e.before.executionColumns x.id).checkpointPayload).canonicalHash workerEnv.host ≠
          (commitPayload quietCommit).proposal.canonicalHash workerEnv.host := by
    refine ⟨_, .tail _ (.tail _ (.tail _ (.head _))), rfl, ?_, ?_⟩
    · decide +kernel
    · decide +kernel
  obtain ⟨result, hresult⟩ := Option.isSome_iff_exists.mp hanswer
  obtain ⟨x, hx, _, hsame⟩ := hclaim workerEnv _ _ (run_runOf workerEnv emptyBoard quietRun) e he "task" quietCommit _ 3
    result hact ⟨"task", quietCommit, _, 3, hact, rfl, eq_of_storedAnswer hresult⟩
  exact hdiffers x hx hsame

end Mydon.Tasks
