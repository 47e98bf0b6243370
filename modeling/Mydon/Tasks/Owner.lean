import Mydon.Tasks.AgentRuns

/-! What people do to a task: its status, its fields, its rating, and the retry of a blocked
attempt. A terminal status and a retry also close the provider requests not dispatched yet. -/

namespace Mydon.Tasks

open Mydon.Lib
open Js (Json HttpError)
open Jobs (World TaskRow ExecutionRow JobRow JobStatus TaskStatus OwnerKind durableTaskInputHash)
open Ledger (LedgerEnv Spends)

def MANAGED_OPERATIONAL_TASK_SOURCES : List String := ["ourvend-parity-issue", "vending-low-stock-issue"]

def isManagedOperationalTaskSource (source : Option String) : Bool :=
  source.any (· ∈ MANAGED_OPERATIONAL_TASK_SOURCES)

inductive Permission
  | tasksAssign
  | tasksConfirm
  deriving DecidableEq

/-- Whom a call is made for; a person comes with what the card and the roles on it allow. -/
inductive Actor
  | owner
  | agent
  | person (active : Bool) (can : Permission → Bool)
  | other

def assertCan (actor : Actor) (perm : Permission) : Except HttpError Unit :=
  let denial := HttpError.forbidden "Это может менеджер. Попроси владельца проставить роль."
  match actor with
  | .owner => .ok ()
  | .agent => .error (.forbidden
      "Назначать, принимать и оценивать задачи может только человек — это решение владельца, не агента.")
  | .person active can => Js.require (active ∧ can perm) denial
  | .other => .error denial

/-- A job whose request has not crossed the dispatch boundary. -/
def isUndispatched (status : JobStatus) : Bool := status = .ready || status = .waitingBudget

/-- The job as a cancellation before its dispatch leaves it. -/
def cancelledJob (job : JobRow) (reason : String) (now : ℤ) : JobRow :=
  { job with
    status := .cancelled
    requestPayload := none
    lastError := some reason
    updatedAt := now }

/-- The job as a retry of its owner finds it after the deadline. -/
def overdueJob (job : JobRow) (now : ℤ) : JobRow :=
  { job with
    status := .unknown
    requestPayload := none
    unknownAt := some now
    lastError := some "Owner retry after expired dispatch grant"
    updatedAt := now }

/-- The reservations of the ready jobs, released one by one. -/
def releaseReady (env : LedgerEnv) (reason : String) (now : ℤ) (spends : Spends) :
    List JobRow → Except HttpError Spends
  | [] => .ok spends
  | job :: jobs =>
    if job.status = .ready then do
      let spendId ← Js.orThrow job.spendId (.conflict "Cannot safely release durable LLM reservation")
      let (_, spends) ← Ledger.releaseInTx env spends now now spendId reason true
      releaseReady env reason now spends jobs
    else releaseReady env reason now spends jobs

structure EditPatch where
  title : Option String := none
  description : Option (Option String) := none
  ownerKind : Option OwnerKind := none
  ownerRef : Option (Option String) := none
  priority : Option String := none
  domain : Option String := none
  due : Option (Option ℤ) := none
  entityId : Option (Option String) := none

/-- Text that is stored as null where it is blank. -/
def nullableText (value : Option String) : Option String := (value.map Js.trim).filter (· ≠ "")

def EditPatch.isEmpty (patch : EditPatch) : Bool :=
  patch.title.isNone && patch.description.isNone && patch.ownerKind.isNone && patch.ownerRef.isNone &&
    patch.priority.isNone && patch.domain.isNone && patch.due.isNone && patch.entityId.isNone

/-- The fields that the patch sets. -/
def patchedTask (row : TaskRow) (patch : EditPatch) : TaskRow :=
  { row with
    title := (patch.title.map Js.trim).getD row.title
    description := (patch.description.map nullableText).getD row.description
    ownerKind := patch.ownerKind.getD row.ownerKind
    ownerRef := (patch.ownerRef.map nullableText).getD row.ownerRef
    priority := patch.priority.getD row.priority
    domain := patch.domain.orElse fun _ => row.domain
    due := patch.due.getD row.due
    entityId := patch.entityId.getD row.entityId }

def ownerRefChanged (before : TaskRow) (patch : EditPatch) : Bool :=
  (patch.ownerRef.map nullableText).any (· ≠ before.ownerRef)

def ownerKindChanged (before : TaskRow) (patch : EditPatch) : Bool := patch.ownerKind.any (· ≠ before.ownerKind)

/-- The task without its run, where the owner changes. -/
def unassignedTask (row : TaskRow) (changed : Bool) : TaskRow :=
  if changed then
    { row with
      agentRunId := none
      agentRunClaimedAt := none }
  else row

/-- The task waiting for its owner to allow another paid attempt. -/
def awaitingRetry (row : TaskRow) (blocked : Bool) (reason : String) (now : ℤ) : TaskRow :=
  if blocked then
    { row with
      agentExecutionRetryAt := none
      agentExecutionBlockedAt := some now
      agentExecutionBlockedReason := some reason }
  else row

/-- The task as an edit leaves it; `before` is the row that the edit read. -/
def editedTask (before row : TaskRow) (patch : EditPatch) (now : ℤ) : TaskRow :=
  let changed := ownerRefChanged before patch || ownerKindChanged before patch
  awaitingRetry (unassignedTask (patchedTask row patch) changed)
    (changed && before.agentExecutionAttemptId.isSome)
    "Исполнитель изменён после начала LLM-попытки; нужен owner retry" now

/-- The task as a rating leaves it. -/
def ratedTask (row : TaskRow) (quality : Quality) (now : ℤ) : TaskRow :=
  if quality = .redo then
    awaitingRetry (unassignedTask { row with status := .inProgress } true)
      (row.ownerKind = .agent && row.agentExecutionAttemptId.isSome)
      "Redo требует новой оплачиваемой попытки через owner retry" now
  else row

/-- The blocked task, resumed under the same attempt. -/
def resumedTask (row : TaskRow) : TaskRow :=
  { Board.releasedRun row with
    agentExecutionRetryAt := none
    agentExecutionBlockedAt := none
    agentExecutionBlockedReason := none }

/-- The blocked task, free for another attempt. -/
def retriedTask (row : TaskRow) : TaskRow := { resumedTask row with agentExecutionAttemptId := none }

namespace Board

variable (b : Board)

/-! Status. -/

def cancelJobs (executionId reason : String) (now : ℤ) : Board :=
  { b with world := { b.world with jobs := b.world.jobs.map fun job =>
    if job.taskAgentExecutionId = executionId ∧ isUndispatched job.status then cancelledJob job reason now
    else job } }

/-- The reservations of the ready jobs of an execution are released, its undispatched jobs cancelled. -/
def cancelUndispatched (env : LedgerEnv) (executionId releaseReason cancelReason : String) (now : ℤ) :
    Except HttpError Board := do
  let spends ← releaseReady (b.world.ledgerEnv env) releaseReason now b.world.spends (b.jobsOf executionId)
  return { b with world := { b.world with spends } }.cancelJobs executionId cancelReason now

def cancelUndispatchedTaskLlmJobs (env : LedgerEnv) (task : TaskRow) (terminalStatus : String) (now : ℤ) :
    Except HttpError Board :=
  match if task.ownerKind ≠ .agent then none else task.agentExecutionAttemptId.bind b.world.findExecutionByAttempt with
  | none => .ok b
  | some execution => do
    Js.require (execution.taskId = task.id) (.conflict "LLM execution не принадлежит закрываемой задаче")
    Js.require (((b.jobsOf execution.id).filter (·.status = .ready)).length ≤ 1)
      (.conflict "Execution содержит несколько ready LLM jobs; закрытие заблокировано")
    let reason := s!"task_{terminalStatus}_before_provider_dispatch"
    b.cancelUndispatched env execution.id reason reason now

def isTerminalStatus (status : TaskStatus) : Bool := status = .done || status = .cancelled

def statusText : TaskStatus → String
  | .todo => "todo"
  | .inProgress => "in_progress"
  | .done => "done"
  | .cancelled => "cancelled"

/-- What a change of status checks; `expected` is the run that asks for it, where one does. -/
def checkStatus (before : TaskRow) (status : TaskStatus) (expected : Option String) : Except HttpError Unit := do
  Js.require (¬ (isManagedOperationalTaskSource before.source ∧ before.status ≠ status ∧
      (isTerminalStatus status ∨ isTerminalStatus before.status)))
    (.badRequest "Операционная задача закроется или переоткроется автоматически после повторной проверки")
  Js.require (expected.all fun runId => before.agentRunId = some runId)
    (.conflict "Прогон агента уже заменён новой generation")
  Js.require (¬ (expected.isSome ∧ before.status ≠ status ∧ isTerminalStatus before.status))
    (.conflict s!"Задача уже в статусе {statusText before.status}; прогон не может её закрыть")

/-- Only a terminal status cleans up. -/
def cleanUp (env : LedgerEnv) (task : TaskRow) (status : TaskStatus) (now : ℤ) : Except HttpError Board :=
  if isTerminalStatus status then b.cancelUndispatchedTaskLlmJobs env task (statusText status) now else .ok b

def statusColumns (columns : TaskColumns) (status : TaskStatus) (actorRef : String) (resultNote : Option String)
    (now : ℤ) : TaskColumns :=
  if status = .done then
    { columns with
      completedAt := some now
      closedBy := some actorRef
      resultNote := (normalizedOptionalText resultNote).orElse fun _ => columns.resultNote }
  else columns

def setStatus (ledger : LedgerEnv) (id : String) (status : TaskStatus) (actorRef : String)
    (resultNote expectedAgentRunId : Option String) (now : ℤ) : Except HttpError (TaskRow × Board) := do
  let before ← b.lockTask id
  checkStatus before status (expectedAgentRunId.filter (· ≠ ""))
  let cleaned ← b.cleanUp ledger before status now
  let after := { before with status }
  if before.status = status then return (before, cleaned)
  else
    return (after, (cleaned.writeTask after).setTaskColumns id
      (statusColumns (cleaned.taskColumns id) status actorRef resultNote now))

/-! Edit and rating. -/

/-- Another owner may be set only by who may assign. -/
def assertMayAssign (actor : Actor) (before : TaskRow) (patch : EditPatch) : Except HttpError Unit :=
  if ownerRefChanged before patch then assertCan actor .tasksAssign else .ok ()

/-- `before` is the row as the call read it before its update. -/
def edit (id : String) (patch : EditPatch) (actor : Actor) (before : TaskRow) (now : ℤ) :
    Except HttpError (TaskRow × Board) := do
  Js.require (patch.title.all fun title => Js.trim title ≠ "") (.badRequest "Заголовок не может быть пустым")
  if patch.isEmpty then return (before, b)
  else do
    Js.require (¬ (isManagedOperationalTaskSource before.source ∧ patch.ownerKind = some .agent))
      (.badRequest "Операционную задачу нельзя назначить агенту: её жизненным циклом управляет Core")
    assertMayAssign actor before patch
    let row ← b.lockTask id
    let after := editedTask before row patch now
    return (after, b.writeTask after)

def ratedColumns (columns : TaskColumns) (quality : Quality) : TaskColumns :=
  { columns with
    quality := some quality
    completedAt := if quality = .redo then none else columns.completedAt }

def rate (id : String) (quality : Quality) (actor : Actor) (now : ℤ) : Except HttpError (TaskRow × Board) := do
  assertCan actor .tasksConfirm
  let row ← b.lockTask id
  Js.require (row.status = .done) (.badRequest "Оценить можно только сделанную задачу")
  Js.require (¬ (isManagedOperationalTaskSource row.source ∧ quality = .redo))
    (.badRequest "Операционную задачу переоткроет Core, если проблема вернётся")
  let after := ratedTask row quality now
  return (after, (b.writeTask after).setTaskColumns id (ratedColumns (b.taskColumns id) quality))

/-! The retry of a blocked attempt. -/

/-- The dispatch of the job may still be in flight. -/
def inFlight (job : JobRow) (now : ℤ) : Bool := job.status = .dispatching && job.dispatchDeadlineAt.all (now < ·)

/-- The overdue dispatches of an execution become unknown. -/
def loseOverdue (executionId : String) (now : ℤ) : Board :=
  { b with world := { b.world with jobs := b.world.jobs.map fun job =>
    if job.taskAgentExecutionId = executionId ∧ job.status = .dispatching then overdueJob job now else job } }

/-- All that was paid for is known, so the blocked attempt goes on. -/
def isReusable (host : Js.Host) (task : TaskRow) (execution : ExecutionRow) : Prop :=
  execution.status = .active ∧ execution.taskInputHash = durableTaskInputHash host task ∧
    (task.agentExecutionBlockedReason.any fun reason => "execution_unknown:".toList.isPrefixOf reason.toList) = true ∧
    b.jobsOf execution.id ≠ [] ∧ ((b.jobsOf execution.id).all fun job => World.isTerminal job.status) = true

instance (host : Js.Host) (task : TaskRow) (execution : ExecutionRow) :
    Decidable (b.isReusable host task execution) := by
  unfold isReusable
  exact inferInstance

def abandonedColumns (columns : ExecutionColumns) (now : ℤ) : ExecutionColumns :=
  { columns with
    abandonedAt := some now
    abandonReason := some "owner_retry_after_block" }

def abandon (execution : ExecutionRow) (now : ℤ) : Board :=
  (b.writeExecution { execution with status := .abandoned }).setExecutionColumns execution.id
    (abandonedColumns (b.executionColumns execution.id) now)

/-- The retry of an attempt whose execution is active or ready. -/
def retryExecution (env : Env) (ledger : LedgerEnv) (task : TaskRow) (execution : ExecutionRow) (now : ℤ) :
    Except HttpError (TaskRow × Board) := do
  Js.require (∀ job ∈ b.jobsOf execution.id, inFlight job now = false)
    (.conflict "Provider dispatch is still in flight; retry is forbidden until its deadline")
  let lost := b.loseOverdue execution.id now
  if lost.isReusable env.host task execution then
    return (resumedTask task, lost.writeTask (resumedTask task))
  else do
    let cancelled ← lost.cancelUndispatched ledger execution.id "owner retry before provider dispatch"
      "owner_retry_after_block" now
    return (retriedTask task, (cancelled.abandon execution now).writeTask (retriedTask task))

def isRetryable (row : TaskRow) : Prop :=
  row.ownerKind = .agent ∧ row.agentExecutionBlockedAt.isSome ∧ isOpen row

instance : DecidablePred isRetryable := fun row =>
  inferInstanceAs (Decidable (row.ownerKind = .agent ∧ row.agentExecutionBlockedAt.isSome ∧ isOpen row))

def retryBlockedAgentExecution (env : Env) (ledger : LedgerEnv) (id : String) (now : ℤ) :
    Except HttpError (TaskRow × Board) := do
  let before ← b.lockTask id
  Js.require (isRetryable before) (.conflict "У задачи нет заблокированной LLM-попытки для retry")
  match (before.agentExecutionAttemptId.bind b.world.findExecutionByAttempt).filter fun e =>
      e.status = .active ∨ e.status = .ready with
  | some execution => b.retryExecution env ledger before execution now
  | none => return (retriedTask before, b.writeTask (retriedTask before))

end Board

end Mydon.Tasks
