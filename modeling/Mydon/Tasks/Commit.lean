import Mydon.Tasks.AgentRuns

/-! The commit of a run: the task, its events, approval and outbox delivery, and the
outcome of the execution are stored together, or none of them is. -/

namespace Mydon.Tasks

open Mydon.Lib
open Js (Json HttpError)
open Jobs (World TaskRow ExecutionRow num durableTaskInputHash)
open Ledger (Metadata)

/-- The outcome must be the one that the checkpoint promised. -/
def assertOutcomeMatchesCheckpoint (host : Js.Host) (columns : ExecutionColumns) (outcome : CommitPayload) :
    Except HttpError Unit :=
  match columns.checkpointKind with
  | some .noSignal =>
    Js.require (outcome.kind = .noSignal) (.conflict "no_signal checkpoint нельзя commit как действие")
  | some .proposal => do
    Js.require (outcome.kind ≠ .noSignal) (.conflict "proposal checkpoint нельзя commit как no_signal")
    Js.require outcome.action.isSome (.badRequest "Результат proposal обязан содержать action")
    Js.require ((checkpointProposal columns.checkpointPayload).canonicalHash host =
        outcome.proposal.canonicalHash host)
      (.conflict "Commit payload не совпадает с durable checkpoint")
    Js.require (outcome.kind = .approvalRequested → outcome.tier.isSome)
      (.badRequest "approval_requested обязан содержать tier")
  | none => .error (.conflict "Неизвестный kind сохранённого checkpoint")

/-- What a commit is hashed to. -/
def outcomeHash (host : Js.Host) (id agentName executionAttemptId : String) (columns : ExecutionColumns)
    (outcome : CommitPayload) : String :=
  (Json.obj [("schemaVersion", num 1), ("taskId", .str id), ("agentName", .str agentName),
    ("executionAttemptId", .str executionAttemptId),
    ("checkpointHash", Jobs.textOrNull columns.checkpointHash), ("outcome", outcome.json)]).canonicalHash host

/-- The event counts towards the agent's cap of the day. -/
def countsTowards (agentName : String) (day : ℤ) (e : EventRow) : Prop :=
  e.source = s!"agent:{agentName}" ∧ e.type = "agent.action" ∧
    Clock.tashkentDayStart day ≤ e.occurredAt ∧ e.occurredAt < Clock.tashkentDayStart day + Clock.DAY_MS

instance (agentName : String) (day : ℤ) : DecidablePred (countsTowards agentName day) := fun e =>
  inferInstanceAs (Decidable (e.source = _ ∧ e.type = _ ∧ _ ≤ e.occurredAt ∧ e.occurredAt < _))

def keyBase (id executionAttemptId : String) : String := s!"task:{id}:execution:{executionAttemptId}"

/-- The answer of a commit that was stored before. -/
def replayCommittedExecution (execution : ExecutionRow) (columns : ExecutionColumns) (hash : String) :
    Except HttpError AgentRunCommitResult := do
  Js.require (columns.outcomeHash = some hash)
    (.conflict "Committed execution уже имеет другой outcome payload")
  let stored := Json.obj (jsonObject columns.outcomePayload)
  let input := Json.obj (jsonObject (stored.get? "input"))
  let result := Json.obj (jsonObject (stored.get? "result"))
  let note ← Js.orThrow ((input.get? "note").bind Json.asString)
    (.internal "Committed execution не содержит сохранённый resultNote")
  return {
    committed := true
    capped := false
    replay := true
    taskId := execution.taskId
    executionAttemptId := execution.executionAttemptId
    status := .done
    resultNote := some note
    approvalId := columns.approvalId
    outboxDeliveryId := (result.get? "outboxDeliveryId").bind Json.asString }

/-- The ids that the rows of a commit are given. -/
structure CommitIds where
  approvalId : String
  outboxDeliveryId : String

namespace Board

variable (b : Board)

def actionCapReached (env : Env) (agentName : String) (now : ℤ) : Bool :=
  0 < env.agentDailyActionCap &&
    env.agentDailyActionCap ≤ (b.events.filter fun e => countsTowards agentName (Clock.tashkentDay now) e).length

/-! Rows, under the unique keys of their tables. -/

def insertEvent (row : EventRow) : Except HttpError Board := do
  Js.require (∀ e ∈ b.events, e.clientKey ≠ row.clientKey) (.internal "duplicate key value: event_client_key")
  return { b with events := b.events ++ [row] }

def insertApproval (row : ApprovalRow) : Except HttpError Board := do
  Js.require (∀ a ∈ b.approvals, a.id ≠ row.id ∧ a.clientKey ≠ row.clientKey)
    (.internal "duplicate key value: approval_client_key")
  return { b with approvals := b.approvals ++ [row] }

def insertDelivery (row : DeliveryRow) : Except HttpError Board := do
  Js.require (∀ d ∈ b.deliveries, d.id ≠ row.id ∧ d.key ≠ row.key)
    (.internal "duplicate key value: outbox_delivery_key")
  return { b with deliveries := b.deliveries ++ [row] }

/-! What an outcome writes. -/

def agentRunEvent (id : String) (execution : ExecutionRow) (agentName : String) (outcome : CommitPayload)
    (now : ℤ) : EventRow where
  source := s!"agent:{agentName}"
  type := "agent.run"
  payload := (Json.obj ([("taskId", .str id), ("executionAttemptId", .str execution.executionAttemptId),
    ("skill", .str execution.skill), ("outcome", .str outcome.kind.text)] ++
    Ledger.entry "tier" (fun t => .str (Tier.text t)) outcome.tier)).canonical
  clientKey := some (keyBase id execution.executionAttemptId ++ ":event:agent-run")
  occurredAt := now

def approvalRow (id : String) (execution : ExecutionRow) (agentName : String) (outcome : CommitPayload)
    (tier : Tier) (approvalId : String) : ApprovalRow where
  id := approvalId
  agent := agentName
  action := outcome.action.getD ""
  tier
  payload := (Json.obj ([("taskId", .str id), ("executionAttemptId", .str execution.executionAttemptId),
    ("skill", .str execution.skill), ("facts", .obj (jsonObject outcome.facts))] ++
    Ledger.entry "next" textItems outcome.next)).canonical
  clientKey := some (keyBase id execution.executionAttemptId ++ ":approval")

def approvalRequestedEvent (id : String) (execution : ExecutionRow) (agentName : String) (outcome : CommitPayload)
    (tier : Tier) (approvalId : String) (now : ℤ) : EventRow where
  source := s!"agent:{agentName}"
  type := "approval.requested"
  payload := .obj [("approvalId", .str approvalId), ("action", Jobs.textOrNull outcome.action),
    ("tier", .str tier.text)]
  clientKey := some (keyBase id execution.executionAttemptId ++ ":event:approval-requested")
  occurredAt := now

def agentActionEvent (id : String) (execution : ExecutionRow) (agentName : String) (outcome : CommitPayload)
    (approvalId : Option String) (now : ℤ) : EventRow where
  source := s!"agent:{agentName}"
  type := "agent.action"
  payload := (Json.obj ([("taskId", .str id), ("executionAttemptId", .str execution.executionAttemptId),
    ("skill", .str execution.skill), ("action", Jobs.textOrNull outcome.action)] ++
    Ledger.entry "approvalId" .str approvalId ++
    (if outcome.kind = .executed then [("executed", .bool true)] else []) ++
    Ledger.entry "verified" .str outcome.executionDetail)).canonical
  clientKey := some (keyBase id execution.executionAttemptId ++ ":event:agent-action")
  occurredAt := now

def memoryEvent (id : String) (execution : ExecutionRow) (agentName signature : String) (now : ℤ) : EventRow where
  source := s!"agent:{agentName}"
  type := s!"agent.memory:{execution.skill}"
  payload := .obj [("signature", .str signature)]
  clientKey := some (keyBase id execution.executionAttemptId ++ ":event:memory")
  occurredAt := now

def deliveryRow (host : Js.Host) (id : String) (execution : ExecutionRow) (createdAt : ℤ) (outcome : CommitPayload)
    (deliveryId : String) : DeliveryRow :=
  let payload := notionReportPayload host execution createdAt (outcome.kind = .executed) (outcome.action.getD "")
    (jsonObject outcome.facts)
  ⟨deliveryId, keyBase id execution.executionAttemptId ++ ":notion-report", execution.id, "notion-report", payload,
    payload.canonicalHash host⟩

/-- The approval of a requested action, with its event; nothing for another outcome. -/
def requestApproval (id : String) (execution : ExecutionRow) (agentName : String) (outcome : CommitPayload)
    (approvalId : String) (now : ℤ) : Except HttpError (Option String × Board) :=
  match outcome.kind, outcome.tier with
  | .approvalRequested, some tier => do
    let approved ← b.insertApproval (approvalRow id execution agentName outcome tier approvalId)
    let announced ← approved.insertEvent
      (approvalRequestedEvent id execution agentName outcome tier approvalId now)
    return (some approvalId, announced)
  | _, _ => .ok (none, b)

/-- The signature that the agent will compare its next proposal with. -/
def remember (id : String) (execution : ExecutionRow) (agentName : String) (signature : Option String) (now : ℤ) :
    Except HttpError Board :=
  match signature with
  | some signature => b.insertEvent (memoryEvent id execution agentName signature now)
  | none => .ok b

/-- The events of an action, and the report that the outbox delivers. -/
def recordAction (host : Js.Host) (id : String) (execution : ExecutionRow) (agentName : String)
    (outcome : CommitPayload) (approvalId : Option String) (deliveryId : String) (now : ℤ) :
    Except HttpError (Option String × Board) :=
  if outcome.kind.isAction = false then .ok (none, b)
  else do
    let acted ← b.insertEvent (agentActionEvent id execution agentName outcome approvalId now)
    let remembered ← acted.remember id execution agentName outcome.memorySignature now
    let delivered ← remembered.insertDelivery
      (deliveryRow host id execution (b.executionColumns execution.id).createdAt outcome deliveryId)
    return (some deliveryId, delivered)

/-- The task as a commit closes it. -/
def closedTask (row : TaskRow) : TaskRow :=
  { row with
    status := .done
    agentRunId := none
    agentRunClaimedAt := none
    agentExecutionRetryAt := none
    agentExecutionBlockedAt := none
    agentExecutionBlockedReason := none }

def outcomeJson (id executionAttemptId : String) (outcome : CommitPayload)
    (approvalId outboxDeliveryId : Option String) : Json :=
  (Json.obj [("input", outcome.json), ("result", .obj ([("taskId", .str id),
    ("executionAttemptId", .str executionAttemptId)] ++ Ledger.entry "approvalId" .str approvalId ++
    Ledger.entry "outboxDeliveryId" .str outboxDeliveryId))]).canonical

def committedColumns (columns : ExecutionColumns) (payload : Json) (hash : String) (approvalId : Option String)
    (now : ℤ) : ExecutionColumns :=
  { columns with
    outcomePayload := some payload
    outcomeHash := some hash
    approvalId
    committedAt := some now }

/-- The task closed with its note, and the execution with its outcome. -/
def closeRun (task : TaskRow) (execution : ExecutionRow) (agentName : String) (outcome : CommitPayload)
    (hash : String) (approvalId outboxDeliveryId : Option String) (now : ℤ) : Board :=
  let closed := (b.writeTask (closedTask task)).setTaskColumns task.id
    { b.taskColumns task.id with
      resultNote := some outcome.note
      completedAt := some now
      closedBy := some s!"agent:{agentName}" }
  (closed.writeExecution { execution with status := .committed }).setExecutionColumns execution.id
    (committedColumns (b.executionColumns execution.id)
      (outcomeJson task.id execution.executionAttemptId outcome approvalId outboxDeliveryId) hash approvalId now)

/-- All that a commit stores. -/
def storeOutcome (env : Env) (task : TaskRow) (execution : ExecutionRow) (agentName : String)
    (outcome : CommitPayload) (hash : String) (ids : CommitIds) (now : ℤ) :
    Except HttpError (Committed AgentRunCommitResult) := do
  let ran ← b.insertEvent (agentRunEvent task.id execution agentName outcome now)
  let (approvalId, approved) ← ran.requestApproval task.id execution agentName outcome ids.approvalId now
  let (outboxDeliveryId, recorded) ← approved.recordAction env.host task.id execution agentName outcome approvalId
    ids.outboxDeliveryId now
  Js.require (execution.status = .ready) (.conflict "Checkpoint уже завершён другим commit")
  return (.ok {
      committed := true
      capped := false
      replay := false
      taskId := task.id
      executionAttemptId := execution.executionAttemptId
      status := .done
      resultNote := some outcome.note
      approvalId
      outboxDeliveryId },
    recorded.closeRun task execution agentName outcome hash approvalId outboxDeliveryId now)

/-- The task as a commit over the cap leaves it. -/
def cappedTask (row : TaskRow) (now : ℤ) : TaskRow := retriedLater (releasedRun row) (nextTashkentDay now)

/-- The commit of a checkpoint whose run holds the task. -/
def commitCheckpoint (env : Env) (task : TaskRow) (execution : ExecutionRow) (agentName : String)
    (outcome : CommitPayload) (hash : String) (ids : CommitIds) (now : ℤ) :
    Except HttpError (Committed AgentRunCommitResult) :=
  let refused : AgentRunCommitResult := {
    committed := false
    capped := false
    replay := false
    taskId := task.id
    executionAttemptId := execution.executionAttemptId
    status := .blocked }
  if execution.taskInputHash ≠ durableTaskInputHash env.host task then
    let reason := "Задача изменилась после durable checkpoint; нужен owner retry"
    .ok (.ok refused, b.writeTask (World.blockedTask task reason now))
  else do
    assertOutcomeMatchesCheckpoint env.host (b.executionColumns execution.id) outcome
    if outcome.kind.isAction ∧ b.actionCapReached env agentName now then
      return (.ok { refused with
          capped := true
          status := .todo
          retryAt := some (Clock.isoText (nextTashkentDay now)) },
        b.writeTask (cappedTask task now))
    else b.storeOutcome env task execution agentName outcome hash ids now

def commitAgentRun (env : Env) (id : String) (input : AgentRunCommitInput) (ids : CommitIds) (now : ℤ) :
    Except HttpError (Committed AgentRunCommitResult) := do
  let agentName := Js.trim input.agentName
  let outcome := commitPayload input
  Js.require (outcome.note ≠ "") (.badRequest "note не может быть пустым")
  let task ← b.lockTask id
  let execution ← Js.orThrow ((b.world.findExecutionByAttempt input.executionAttemptId).filter fun e =>
      e.taskId = id ∧ e.agentName = agentName) (.conflict "Durable checkpoint этой попытки не найден")
  let columns := b.executionColumns execution.id
  let hash := outcomeHash env.host id agentName input.executionAttemptId columns outcome
  match execution.status with
  | .committed => do
    let answer ← replayCommittedExecution execution columns hash
    return (.ok answer, b)
  | .abandoned => .error (.conflict "Execution abandoned владельцем; нужен новый claim")
  | .active | .ready => do
    assertAgentRunFence task input.toFence
    b.commitCheckpoint env task execution agentName outcome hash ids now

end Board

end Mydon.Tasks
