import Mydon.Tasks.Model

/-! What a worker does to the task that it runs: claim, heartbeat, start, input snapshot,
checkpoint and release, each one transaction over the tables. -/

namespace Mydon.Tasks

open Mydon.Lib
open Js (Json HttpError)
open Jobs (World TaskRow ExecutionRow JobRow num badRequest durableTaskInputHash)

def AGENT_SCHEDULE_SOURCE : String := "agent-schedule"
def AGENT_RUN_LEASE_MS : ℤ := 15 * 60000
def AGENT_ROUTE_UNAVAILABLE_BACKOFF_MS : ℤ := 60000

/-- What a transaction commits: the answer, or the reason of a durable conflict. -/
abbrev Committed (α : Type) := Except String α × Board

/-! Leases. -/

def isAssignedTask (row : TaskRow) : Prop := row.source ≠ some AGENT_SCHEDULE_SOURCE

instance : DecidablePred isAssignedTask := fun row => inferInstanceAs (Decidable (row.source ≠ _))

def invokedBy (row : TaskRow) (now : ℤ) : Invocation → Bool
  | .assigned => isAssignedTask row
  | .scheduled => row.source = some AGENT_SCHEDULE_SOURCE && row.due.any (· ≤ now)

def isOpen (row : TaskRow) : Prop := row.status ≠ .done ∧ row.status ≠ .cancelled

instance : DecidablePred isOpen := fun row => inferInstanceAs (Decidable (row.status ≠ .done ∧ row.status ≠ .cancelled))

/-- The run holds the task: the condition of a heartbeat. -/
structure HoldsLease (row : TaskRow) (agentName runId : String) : Prop where
  ownerKind : row.ownerKind = .agent
  ownerRef : row.ownerRef = some agentName
  agentRunId : row.agentRunId = some runId
  open_ : isOpen row

instance (row : TaskRow) (agentName runId : String) : Decidable (HoldsLease row agentName runId) :=
  decidable_of_iff (row.ownerKind = .agent ∧ row.ownerRef = some agentName ∧ row.agentRunId = some runId ∧ isOpen row)
    ⟨fun ⟨h₁, h₂, h₃, h₄⟩ => ⟨h₁, h₂, h₃, h₄⟩, fun h => ⟨h.ownerKind, h.ownerRef, h.agentRunId, h.open_⟩⟩

/-- The run holds the task under the attempt. -/
def HoldsRun (row : TaskRow) (agentName runId executionAttemptId : String) : Prop :=
  HoldsLease row agentName runId ∧ row.agentExecutionAttemptId = some executionAttemptId

instance (row : TaskRow) (agentName runId executionAttemptId : String) :
    Decidable (HoldsRun row agentName runId executionAttemptId) :=
  inferInstanceAs (Decidable (HoldsLease row agentName runId ∧ row.agentExecutionAttemptId = some executionAttemptId))

def assertAgentRunFence (row : TaskRow) (input : Fence) : Except HttpError Unit :=
  Js.require (HoldsRun row (Js.trim input.agentName) input.runId input.executionAttemptId)
    (.conflict "Прогон агента уже закрыт или заменён новой generation")

/-- The `where` of a claim. -/
def claimable (row : TaskRow) (agentName : String) (now : ℤ) (invocation : Invocation) : Prop :=
  row.ownerKind = .agent ∧ row.ownerRef = some agentName ∧ invokedBy row now invocation = true ∧ isOpen row ∧
    row.agentExecutionBlockedAt = none ∧ row.agentExecutionRetryAt.all (· ≤ now) = true ∧
    (row.agentRunId = none ∨ row.agentRunClaimedAt.all (· ≤ now - AGENT_RUN_LEASE_MS) = true)

instance (row : TaskRow) (agentName : String) (now : ℤ) (invocation : Invocation) :
    Decidable (claimable row agentName now invocation) := by
  unfold claimable
  exact inferInstance

/-- The task as a claim leaves it: an attempt that it has is kept. -/
def claimedTask (row : TaskRow) (runId newAttemptId : String) (now : ℤ) : TaskRow :=
  { row with
    status := .inProgress
    agentRunId := some runId
    agentExecutionAttemptId := some (row.agentExecutionAttemptId.getD newAttemptId)
    agentExecutionRetryAt := none
    agentRunClaimedAt := some now }

/-- Why the stored plan cannot be trusted. -/
def storedPlanConflict (host : Js.Host) (execution : ExecutionRow) (inconsistent unreadable : String) :
    Option String :=
  match Jobs.parseStoredTaskLlmExecutionPlan host execution.executionPlan with
  | .error _ => some unreadable
  | .ok plan =>
    if execution.workflowVersion ≠ plan.version ∨ plan.json.canonicalHash host ≠ execution.executionPlanHash then
      some inconsistent
    else none

def inconsistentPlan : String := "Stored execution plan version or canonical hash is inconsistent"

namespace Board

variable (b : Board)

def lockTask (id : String) : Except HttpError TaskRow :=
  Js.orThrow (b.world.findTask id) (.notFound s!"Задача {id} не найдена")

def writeTask (row : TaskRow) : Board := { b with world := b.world.writeTask row }

def setTaskColumns (id : String) (columns : TaskColumns) : Board :=
  { b with taskColumns := Function.update b.taskColumns id columns }

def writeExecution (row : ExecutionRow) : Board :=
  { b with world := { b.world with executions := Table.write ExecutionRow.id b.world.executions row } }

def setExecutionColumns (id : String) (columns : ExecutionColumns) : Board :=
  { b with executionColumns := Function.update b.executionColumns id columns }

def addExecution (row : ExecutionRow) (columns : ExecutionColumns) : Board :=
  { b with world := { b.world with executions := b.world.executions ++ [row] } }.setExecutionColumns row.id columns

/-- `insert`, under the unique keys of the table. -/
def insertExecution (row : ExecutionRow) (columns : ExecutionColumns) : Except HttpError Board := do
  Js.require (∀ e ∈ b.world.executions, e.id ≠ row.id) (.internal "duplicate key value: task_agent_execution_pkey")
  Js.require (∀ e ∈ b.world.executions, e.executionAttemptId ≠ row.executionAttemptId)
    (.internal "duplicate key value: task_agent_execution_attempt_key")
  return b.addExecution row columns

def jobsOf (executionId : String) : List JobRow :=
  b.world.jobs.filter (·.taskAgentExecutionId = executionId)

def blockAgentExecution {α : Type} (before : TaskRow) (reason : String) (now : ℤ) : Committed α :=
  (.error (Js.take 1000 reason), b.writeTask (World.blockedTask before reason now))

/-! Claim and heartbeat. -/

/-- The execution that the claimed task resumes, or why it cannot be resumed. -/
def resumedExecution (host : Js.Host) (claimed : TaskRow) : Except String (Option AgentExecutionView) :=
  let unreadable := "Stored durable execution cannot be resumed safely"
  match b.world.executions.find? fun e =>
      e.taskId = claimed.id ∧ some e.executionAttemptId = claimed.agentExecutionAttemptId with
  | none => .ok none
  | some execution =>
    match storedPlanConflict host execution inconsistentPlan unreadable with
    | some reason => .error reason
    | none => ((executionView host execution (b.executionColumns execution.id)).map some).mapError fun _ => unreadable

/-- The task taken into a new run, with the next generation. -/
def takeRun (row : TaskRow) (runId newAttemptId : String) (now : ℤ) : Board :=
  (b.writeTask (claimedTask row runId newAttemptId now)).setTaskColumns row.id
    { b.taskColumns row.id with agentRunGeneration := (b.taskColumns row.id).agentRunGeneration + 1 }

/-- `runId` and `newAttemptId` are the random ids that the call draws. -/
def claimAgentRun (env : Env) (id agentName : String) (now : ℤ) (invocation : Invocation)
    (runId newAttemptId : String) : Committed (Option ClaimedAgentRun) :=
  match (b.world.findTask id).filter fun row => claimable row agentName now invocation with
  | none => (.ok none, b)
  | some row =>
    let claimed := claimedTask row runId newAttemptId now
    let taken := b.takeRun row runId newAttemptId now
    match taken.resumedExecution env.host claimed with
    | .error reason => taken.blockAgentExecution claimed reason now
    | .ok agentExecution =>
      (.ok (some {
        row := claimed
        agentRunGeneration := (taken.taskColumns id).agentRunGeneration
        taskInputHash := durableTaskInputHash env.host claimed
        taskInput := taskInputOf claimed
        agentExecution }), taken)

def heartbeatAgentRun (id agentName runId : String) (now : ℤ) : Bool × Board :=
  match (b.world.findTask id).filter fun row => HoldsLease row agentName runId with
  | none => (false, b)
  | some row => (true, b.writeTask { row with agentRunClaimedAt := some now })

/-! Start. -/

/-- The execution as a start inserts it. -/
def startedExecution (id : String) (input : AgentRunStartInput) (plan : Jobs.ExecutionPlan) (skill inputHash
    planHash newExecutionId : String) : ExecutionRow where
  id := newExecutionId
  taskId := id
  executionAttemptId := input.executionAttemptId
  agentName := Js.trim input.agentName
  skill
  status := .active
  taskInputHash := inputHash
  workflowVersion := input.workflowVersion
  executionPlan := plan.json
  executionPlanHash := planHash
  inputSnapshotKind := none
  inputSnapshotPayload := none
  inputSnapshotHash := none

/-- The stored execution is the one that the start asks for. -/
def isSameStart (host : Js.Host) (existing : ExecutionRow) (id : String) (input : AgentRunStartInput)
    (skill inputHash planHash : String) : Prop :=
  existing.taskId = id ∧ existing.agentName = Js.trim input.agentName ∧ existing.skill = skill ∧
    existing.taskInputHash = inputHash ∧ existing.workflowVersion = input.workflowVersion ∧
    existing.executionPlanHash = planHash ∧
    ((Jobs.parseStoredTaskLlmExecutionPlan host existing.executionPlan).toOption.map
      (·.json.canonicalHash host)) = some existing.executionPlanHash

instance (host : Js.Host) (existing : ExecutionRow) (id : String) (input : AgentRunStartInput)
    (skill inputHash planHash : String) : Decidable (isSameStart host existing id input skill inputHash planHash) := by
  unfold isSameStart
  exact inferInstance

def startExecution (env : Env) (id : String) (input : AgentRunStartInput) (plan : Jobs.ExecutionPlan)
    (skill : String) (task : TaskRow) (now createdAt : ℤ) (newExecutionId : String) :
    Except HttpError (Committed AgentRunStartResult) :=
  let planHash := plan.json.canonicalHash env.host
  let inputHash := durableTaskInputHash env.host task
  if input.claimedTaskInputHash ≠ inputHash then
    .ok (b.blockAgentExecution task "Task changed after claim; execution start is blocked" now)
  else
    match b.world.findExecutionByAttempt input.executionAttemptId with
    | some existing =>
      if ¬ isSameStart env.host existing id input skill inputHash planHash then
        .ok (b.blockAgentExecution task
          "executionAttemptId is already linked to a different task input, skill or plan" now)
      else do
        Js.require (existing.status ≠ .abandoned) (.conflict "Execution was abandoned by owner retry")
        let view ← executionView env.host existing (b.executionColumns existing.id)
        return (.ok ⟨true, view⟩, b)
    | none => do
      let created := startedExecution id input plan skill inputHash planHash newExecutionId
      let columns : ExecutionColumns := { schemaVersion := 2, startedAt := now, createdAt }
      let inserted ← b.insertExecution created columns
      let view ← executionView env.host created columns
      return (.ok ⟨false, view⟩, inserted)

/-- `createdAt` is the clock of the database at the insert. -/
def startAgentRun (env : Env) (id : String) (input : AgentRunStartInput) (now createdAt : ℤ)
    (newExecutionId : String) : Except HttpError (Committed AgentRunStartResult) := do
  let skill := Js.trim input.skill
  Js.require (skill ≠ "") (.badRequest "skill не может быть пустым")
  let plan ← Jobs.normalizeTaskLlmExecutionPlan env.host input.plan
  Js.require (input.workflowVersion = plan.version) (.badRequest "workflowVersion must equal plan.version")
  let task ← b.lockTask id
  assertAgentRunFence task input.toFence
  b.startExecution env id input plan skill task now createdAt newExecutionId

/-! Input snapshots. -/

/-- Why the execution cannot take an input snapshot of the task. -/
def snapshotConflict (host : Js.Host) (task : TaskRow) (execution : ExecutionRow) (agentName : String) :
    Option String :=
  if execution.taskId ≠ task.id ∨ execution.agentName ≠ agentName then
    some "Durable execution belongs to another task or agent"
  else if execution.taskInputHash ≠ durableTaskInputHash host task then
    some "Task changed after execution start; input snapshot is blocked"
  else
    storedPlanConflict host execution inconsistentPlan
      "Stored durable execution cannot accept an input snapshot safely"

/-- A committed or an abandoned attempt takes nothing more. -/
def attemptClosed (execution : ExecutionRow) : Option String :=
  match execution.status with
  | .committed => some "Результат этой попытки уже committed"
  | .abandoned => some "Эта попытка была abandoned владельцем"
  | .active => none
  | .ready => none

def snapshottedExecution (execution : ExecutionRow) (snapshot : AgentInputSnapshotView) : ExecutionRow :=
  { execution with
    inputSnapshotKind := some snapshot.kind
    inputSnapshotPayload := some snapshot.payload
    inputSnapshotHash := some snapshot.hash }

/-- The first snapshot is stored, the same one is answered again, another one is refused. -/
def storeSnapshot (host : Js.Host) (execution : ExecutionRow) (requested : AgentInputSnapshotView)
    (stored : Option AgentInputSnapshotView) : Except HttpError (Committed AgentRunInputSnapshotResult) :=
  match stored with
  | some snapshot => do
    Js.require (snapshot.kind = requested.kind ∧ snapshot.hash = requested.hash)
      (.conflict "executionAttemptId уже связан с другим input snapshot payload")
    return (.ok ⟨true, snapshot⟩, b)
  | none => do
    Js.require (execution.status = .active) (.conflict "Input snapshot можно создать только для active execution")
    let persisted := snapshottedExecution execution requested
    let view ← inputSnapshotView host persisted
    let snapshot ← Js.orThrow view (.internal "Input snapshot did not persist")
    return (.ok ⟨false, snapshot⟩, b.writeExecution persisted)

def ensureAgentRunInputSnapshot (env : Env) (id : String) (input : AgentRunInputSnapshotInput) (now : ℤ) :
    Except HttpError (Committed AgentRunInputSnapshotResult) := do
  let requested ← normalizeInputSnapshot env.host input.kind input.payload
  let task ← b.lockTask id
  assertAgentRunFence task input.toFence
  let execution ← Js.orThrow (b.world.findExecutionByAttempt input.executionAttemptId)
    (.conflict "Durable execution must start before input snapshot")
  match snapshotConflict env.host task execution (Js.trim input.agentName) with
  | some reason => return b.blockAgentExecution task reason now
  | none =>
    match attemptClosed execution with
    | some closed => .error (.conflict closed)
    | none =>
      match inputSnapshotView env.host execution with
      | .error _ =>
        return b.blockAgentExecution task "Stored input snapshot canonical hash or payload is inconsistent" now
      | .ok stored => b.storeSnapshot env.host execution requested stored

/-! Checkpoints. -/

/-- Why the execution cannot take a checkpoint of the task. -/
def checkpointConflict (host : Js.Host) (task : TaskRow) (execution : ExecutionRow) (agentName skill : String) :
    Option String :=
  if execution.taskId ≠ task.id ∨ execution.agentName ≠ agentName then
    some "Durable execution belongs to another task or agent"
  else if execution.skill ≠ skill then some "Checkpoint skill does not match the durable execution plan"
  else if execution.taskInputHash ≠ durableTaskInputHash host task then
    some "Task changed after execution start; checkpoint is blocked"
  else
    (storedPlanConflict host execution inconsistentPlan inconsistentPlan).or
      (Jobs.solutionSearchInputSnapshotConflict host execution)

def manifestBefore (host : Js.Host) (left right : JobRow) : Prop :=
  host.localeCompare left.stepKey right.stepKey < 0 ∨
    host.localeCompare left.stepKey right.stepKey = 0 ∧ left.providerAttemptNo ≤ right.providerAttemptNo

instance (host : Js.Host) : DecidableRel (manifestBefore host) := fun left right =>
  inferInstanceAs (Decidable (host.localeCompare left.stepKey right.stepKey < 0 ∨ _ = 0 ∧ _ ≤ _))

/-- The hash of the result, which a cancelled job does not have. -/
def manifestResultHash (job : JobRow) : Except HttpError Json :=
  if job.status = .cancelled then .ok .null
  else do
    let result ← Js.orThrow (b.world.findResult job.id) (.conflict s!"LLM job {job.id} has no immutable result")
    return .str result.resultHash

/-- The evidence of a terminal job. -/
def manifestEntry (job : JobRow) : Except HttpError Json := do
  Js.require (World.isTerminal job.status)
    (.conflict s!"LLM job {job.id} is {job.status.text}; checkpoint requires terminal provider evidence")
  let resultHash ← b.manifestResultHash job
  return .obj [("jobId", .str job.id), ("stepKey", .str job.stepKey),
    ("providerAttemptNo", num job.providerAttemptNo), ("status", .str job.status.text),
    ("operationHash", .str job.operationHash), ("resultHash", resultHash)]

def terminalLlmJobManifest (host : Js.Host) (executionId : String) : Except HttpError (List Json) :=
  ((b.jobsOf executionId).insertionSort (manifestBefore host)).mapM b.manifestEntry

/-- A bridged execution has had no jobs. -/
def checkpointManifest (host : Js.Host) (executionId : String) (legacyBridge : Bool) :
    Except HttpError (List Json) :=
  if legacyBridge then .ok [] else b.terminalLlmJobManifest host executionId

/-- The row that bridges a worker which claimed before executions were started. -/
def legacyExecution (host : Js.Host) (id : String) (input : Fence) (skill inputHash newExecutionId : String) :
    ExecutionRow where
  id := newExecutionId
  taskId := id
  executionAttemptId := input.executionAttemptId
  agentName := Js.trim input.agentName
  skill
  status := .active
  taskInputHash := inputHash
  workflowVersion := 1
  executionPlan := Jobs.ExecutionPlan.json ⟨1, []⟩
  executionPlanHash := (Jobs.ExecutionPlan.json ⟨1, []⟩).canonicalHash host
  inputSnapshotKind := none
  inputSnapshotPayload := none
  inputSnapshotHash := none

/-- What a checkpoint is hashed to; a bridged one has no plan of its own. -/
def checkpointHash (host : Js.Host) (id : String) (execution : ExecutionRow) (schemaVersion : ℕ) (checkpoint : Json) :
    String :=
  (Json.obj ([("schemaVersion", num schemaVersion), ("taskId", .str id),
    ("executionAttemptId", .str execution.executionAttemptId), ("agentName", .str execution.agentName),
    ("skill", .str execution.skill), ("taskInputHash", .str execution.taskInputHash)] ++
    (if schemaVersion = 1 then [] else [("executionPlanHash", Json.str execution.executionPlanHash)]) ++
    [("checkpoint", checkpoint)])).canonicalHash host

def readyColumns (columns : ExecutionColumns) (kind : CheckpointKind) (payload : Json) (hash : String) :
    ExecutionColumns :=
  { columns with
    checkpointKind := some kind
    checkpointPayload := some payload
    checkpointHash := some hash }

/-- The execution as its checkpoint leaves it. -/
def makeReady (execution : ExecutionRow) (columns : ExecutionColumns) : Board :=
  (b.writeExecution { execution with status := .ready }).setExecutionColumns execution.id columns

/-- The first checkpoint is stored, the same one is answered again, another one is refused. -/
def storeCheckpoint (host : Js.Host) (id : String) (input : AgentRunCheckpointInput) (execution : ExecutionRow)
    (legacyBridge : Bool) (manifest : List Json) : Except HttpError (Committed AgentRunCheckpointResult) :=
  let requested := checkpointPayload input
  let payload := if legacyBridge then (Json.obj requested).canonical
    else (Json.obj (requested ++ [("llmJobs", .arr manifest)])).canonical
  let hash := checkpointHash host id execution (if legacyBridge then 1 else 2) payload
  let columns := b.executionColumns execution.id
  match execution.status with
  | .ready => do
    let legacyHash := checkpointHash host id execution 1 (.obj requested)
    Js.require (columns.schemaVersion = 1 ∧ manifest = [] ∧ columns.checkpointHash = some legacyHash ∨
        columns.checkpointHash = some hash)
      (.conflict "executionAttemptId уже связан с другим checkpoint payload")
    let view ← checkpointView execution columns
    return (.ok ⟨true, view⟩, b)
  | .active => do
    let stored := readyColumns columns input.kind payload hash
    let view ← checkpointView execution stored
    return (.ok ⟨false, view⟩, b.makeReady execution stored)
  | .committed => .error (.conflict "Результат этой попытки уже committed")
  | .abandoned => .error (.conflict "Эта попытка была abandoned владельцем")

def checkpointExecution (env : Env) (id : String) (input : AgentRunCheckpointInput) (task : TaskRow)
    (execution : ExecutionRow) (legacyBridge : Bool) (now : ℤ) :
    Except HttpError (Committed AgentRunCheckpointResult) :=
  match checkpointConflict env.host task execution (Js.trim input.agentName) (Js.trim input.skill) with
  | some reason => .ok (b.blockAgentExecution task reason now)
  | none => do
    let manifest ← b.checkpointManifest env.host execution.id legacyBridge
    b.storeCheckpoint env.host id input execution legacyBridge manifest

/-- What a checkpoint checks before it looks at the task. -/
def checkCheckpoint (input : AgentRunCheckpointInput) : Except HttpError Unit := do
  Js.require (Js.trim input.skill ≠ "") (.badRequest "skill не может быть пустым")
  let action := normalizedOptionalText input.action
  Js.require (input.kind = .proposal → action.isSome) (.badRequest "proposal обязан содержать action")
  Js.require (action.all fun a => Js.length a ≤ 512) (.badRequest "action не может быть длиннее 512 символов")

def checkpointAgentRun (env : Env) (id : String) (input : AgentRunCheckpointInput) (now createdAt : ℤ)
    (newExecutionId : String) : Except HttpError (Committed AgentRunCheckpointResult) := do
  checkCheckpoint input
  let task ← b.lockTask id
  assertAgentRunFence task input.toFence
  match b.world.findExecutionByAttempt input.executionAttemptId with
  | some existing => b.checkpointExecution env id input task existing false now
  | none => do
    let created := legacyExecution env.host id input.toFence (Js.trim input.skill)
      (durableTaskInputHash env.host task) newExecutionId
    let inserted ← b.insertExecution created { schemaVersion := 1, startedAt := now, createdAt }
    inserted.checkpointExecution env id input task created true now

/-! Release. -/

/-- `like 'task:…:execution:…:%'`. -/
def attemptPrefix (id executionAttemptId : String) : String := s!"task:{id}:execution:{executionAttemptId}:"

/-- A spend of the key prefix that was neither denied nor released. -/
def hasStartedSpend (id executionAttemptId : String) : Bool :=
  b.world.spends.any fun s =>
    (attemptPrefix id executionAttemptId).toList.isPrefixOf s.requestKey.toList && s.status ≠ .denied &&
      s.status ≠ .released

/-- The execution whose jobs a release looks at. -/
def durableExecution (executionAttemptId : String) : Option ExecutionRow :=
  (b.world.findExecutionByAttempt executionAttemptId).filter (·.status = .active)

def durableJobs (executionAttemptId : String) : List JobRow :=
  match b.durableExecution executionAttemptId with
  | some execution => b.jobsOf execution.id
  | none => []

def lostJob (job : JobRow) (now : ℤ) : JobRow :=
  { job with
    status := .unknown
    requestPayload := none
    unknownAt := some now
    lastError := some "Worker lost durable completion response"
    updatedAt := now }

/-- What a release finds out before it decides. -/
structure ReleaseEvidence where
  durableBudgetRetry : Bool
  safeBudgetRetry : Bool
  safeRouteRetry : Bool
  durableOutcomeKnown : Bool

def releaseEvidence (id executionAttemptId : String) (reason : Option ReleaseReason) : ReleaseEvidence :=
  let jobs := b.durableJobs executionAttemptId
  let durableBudgetRetry := reason = some .budgetDenied && jobs.any (·.status = .waitingBudget)
  { durableBudgetRetry
    safeBudgetRetry := reason = some .budgetDenied && !durableBudgetRetry && !b.hasStartedSpend id executionAttemptId
    safeRouteRetry := reason = some .routeUnavailable &&
      (b.world.findExecutionByAttempt executionAttemptId).isNone && jobs.isEmpty
    durableOutcomeKnown := !jobs.isEmpty && jobs.all fun job => World.isTerminal job.status }

def shouldBlock (evidence : ReleaseEvidence) : Option ReleaseReason → Bool
  | none => false
  | some .executionUnknown => !evidence.durableOutcomeKnown
  | some .workflowChanged => true
  | some .unsupported => true
  | some .skillFailed => true
  | some .routeUnavailable => !evidence.safeRouteRetry
  | some .budgetDenied => !evidence.safeBudgetRetry && !evidence.durableBudgetRetry
  | some .actionCapped => false

def blockedReason (safeRouteRetry : Bool) (detailText : Option String) : Option ReleaseReason → String
  | some .executionUnknown =>
    "execution_unknown: " ++ detailText.getD "исход предыдущей metered-попытки неизвестен"
  | some .workflowChanged =>
    "workflow_changed: " ++ detailText.getD "immutable LLM workflow больше не совпадает с runtime"
  | some .routeUnavailable =>
    "route_unavailable: " ++ (if safeRouteRetry then detailText.getD "required metered route пока не настроен"
      else "release rejected after durable execution start; owner retry required")
  | some .budgetDenied => detailText.getD "budget denial после уже начатой metered-попытки"
  | some .unsupported => detailText.getD "у агента нет подходящего навыка; нужен owner retry"
  | some .skillFailed => detailText.getD
      "навык не дал результата (ответ модели не по контракту или провайдер отклонил вызов); нужен owner retry"
  | some .actionCapped => detailText.getD "исход предыдущей metered-попытки неизвестен"
  | none => detailText.getD "исход предыдущей metered-попытки неизвестен"

def nextTashkentDay (now : ℤ) : ℤ := Clock.tashkentDayStartOf now + Clock.DAY_MS

/-- The task without its run. -/
def releasedRun (row : TaskRow) : TaskRow :=
  { row with
    status := .todo
    agentRunId := none
    agentRunClaimedAt := none }

/-- The task to be claimed again, but not before the moment. -/
def retriedLater (row : TaskRow) (retryAt : ℤ) : TaskRow :=
  { row with
    agentExecutionRetryAt := some retryAt
    agentExecutionBlockedAt := none
    agentExecutionBlockedReason := none }

/-- The task as a release leaves it. -/
def releasedTask (row : TaskRow) (reason : Option ReleaseReason) (evidence : ReleaseEvidence)
    (detail : Option String) (now : ℤ) : TaskRow :=
  let released := releasedRun row
  let detailText := (detail.map fun d => Js.take 900 (Js.trim d)).filter (· ≠ "")
  if evidence.durableBudgetRetry then retriedLater released (nextTashkentDay now)
  else if evidence.safeBudgetRetry then
    { retriedLater released (nextTashkentDay now) with agentExecutionAttemptId := none }
  else if reason = some .actionCapped then retriedLater released (nextTashkentDay now)
  else if evidence.safeRouteRetry then retriedLater released (now + AGENT_ROUTE_UNAVAILABLE_BACKOFF_MS)
  else if shouldBlock evidence reason then
    { released with
      agentExecutionBlockedAt := some now
      agentExecutionBlockedReason := some (blockedReason evidence.safeRouteRetry detailText reason) }
  else released

/-- A worker that lost the outcome leaves its dispatching jobs unknown. -/
def loseDispatches (executionAttemptId : String) (now : ℤ) : Board :=
  match b.durableExecution executionAttemptId with
  | some execution =>
    { b with world := { b.world with jobs := b.world.jobs.map fun job =>
      if job.taskAgentExecutionId = execution.id ∧ job.status = .dispatching then lostJob job now else job } }
  | none => b

def releaseAgentRun (id agentName runId executionAttemptId : String) (reason : Option ReleaseReason)
    (detail : Option String) (now : ℤ) : Except HttpError (Committed (Option TaskRow)) := do
  let task ← b.lockTask id
  if HoldsRun task agentName runId executionAttemptId then
    let after := if reason = some .executionUnknown then b.loseDispatches executionAttemptId now else b
    let released := releasedTask task reason (after.releaseEvidence id executionAttemptId reason) detail now
    return (.ok (some released), after.writeTask released)
  else return (.ok none, b)

end Board

end Mydon.Tasks
