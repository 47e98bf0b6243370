import Mydon.Jobs.Contract
import Mydon.Ledger.Settlement

/-! The tables behind task LLM jobs, and the checks of one operation that only read
them. -/

namespace Mydon.Jobs

open Mydon.Lib
open Js (Json HttpError)
open Ledger (Metadata LedgerEnv Spends ReserveDto SettleDto BudgetAction BudgetSnapshot)

inductive JobStatus
  | waitingBudget
  | ready
  | dispatching
  | succeeded
  | rejected
  | unknown
  | cancelled
  deriving DecidableEq

def JobStatus.text : JobStatus → String
  | .waitingBudget => "waiting_budget"
  | .ready => "ready"
  | .dispatching => "dispatching"
  | .succeeded => "succeeded"
  | .rejected => "rejected"
  | .unknown => "unknown"
  | .cancelled => "cancelled"

inductive OwnerKind
  | human
  | agent
  deriving DecidableEq

def OwnerKind.text : OwnerKind → String
  | .human => "human"
  | .agent => "agent"

inductive TaskStatus
  | todo
  | inProgress
  | done
  | cancelled
  deriving DecidableEq

inductive ExecutionStatus
  | active
  | ready
  | committed
  | abandoned
  deriving DecidableEq

def ExecutionStatus.text : ExecutionStatus → String
  | .active => "active"
  | .ready => "ready"
  | .committed => "committed"
  | .abandoned => "abandoned"

structure TaskRow where
  id : String
  title : String
  description : Option String
  ownerKind : OwnerKind
  ownerRef : Option String
  domain : Option String
  entityId : Option String
  priority : String
  due : Option ℤ
  source : Option String
  createdBy : Option String
  agentSkill : Option String
  runOptions : Option Metadata
  status : TaskStatus
  agentRunId : Option String
  agentRunClaimedAt : Option ℤ
  agentExecutionAttemptId : Option String
  agentExecutionRetryAt : Option ℤ
  agentExecutionBlockedAt : Option ℤ
  agentExecutionBlockedReason : Option String

structure ExecutionRow where
  id : String
  taskId : String
  executionAttemptId : String
  agentName : String
  skill : String
  status : ExecutionStatus
  taskInputHash : String
  workflowVersion : ℕ
  executionPlan : Json
  executionPlanHash : String
  inputSnapshotKind : Option String
  inputSnapshotPayload : Option Json
  inputSnapshotHash : Option String

structure JobRow where
  id : String
  taskAgentExecutionId : String
  stepKey : String
  providerAttemptNo : ℕ
  kind : JobKind
  feature : String
  adapter : String
  adapterVersion : ℕ
  endpointProfile : String
  provider : String
  model : String
  inputTokenCeiling : ℕ
  outputTokenCeiling : ℕ
  jobKey : String
  operationHash : String
  requestPayload : Option Json
  spendId : Option String
  status : JobStatus
  dispatchCount : ℕ
  dispatchToken : Option String
  dispatchRunId : Option String
  dispatchGrantedAt : Option ℤ
  dispatchDeadlineAt : Option ℤ
  unknownAt : Option ℤ
  completedAt : Option ℤ
  lastError : Option String
  updatedAt : ℤ

inductive Decision
  | granted
  | denied
  deriving DecidableEq

structure AuthorizationRow where
  jobId : String
  day : ℤ
  spendId : String
  decision : Decision
  deriving DecidableEq

structure ResultRow where
  jobId : String
  kind : ResultKind
  payload : Json
  resultHash : String
  receivedAt : ℤ

structure World where
  tasks : List TaskRow
  executions : List ExecutionRow
  jobs : List JobRow
  authorizations : List AuthorizationRow
  results : List ResultRow
  spends : Spends

structure EnsureDto where
  agentName : String
  runId : String
  executionAttemptId : String
  stepKey : String
  providerAttemptNo : ℕ
  kind : JobKind
  feature : String
  adapter : String
  adapterVersion : ℕ
  endpointProfile : String
  provider : String
  model : String
  inputTokenCeiling : ℕ
  outputTokenCeiling : ℕ
  requestPayload : Json

structure ClaimDto where
  agentName : String
  runId : String
  executionAttemptId : String
  dispatchToken : String

/-- `outcome = none` is the outcome `unknown`. -/
structure CompleteDto where
  dispatchToken : String
  outcome : Option ResultKind
  result : Option Json

structure StoredResult where
  kind : ResultKind
  payload : Json
  resultHash : String

structure Denial where
  action : BudgetAction
  reason : String
  budget : BudgetSnapshot

structure EnsureResponse where
  jobId : String
  status : JobStatus
  operationHash : String
  result : Option StoredResult
  denial : Option Denial

structure ClaimResponse where
  granted : Bool
  replay : Bool
  status : JobStatus
  operationHash : String
  requestPayload : Option Json
  result : Option StoredResult

structure CompleteResponse where
  status : JobStatus
  replay : Bool
  result : Option StoredResult

def DISPATCH_GRANT_MS : ℤ := 2 * 60000

/-! Rows. -/

namespace World

variable (w : World)

def findTask (id : String) : Option TaskRow := Table.lookup TaskRow.id w.tasks id

def findExecution (id : String) : Option ExecutionRow := Table.lookup ExecutionRow.id w.executions id

def findExecutionByAttempt (attemptId : String) : Option ExecutionRow :=
  Table.lookup ExecutionRow.executionAttemptId w.executions attemptId

def findJob (id : String) : Option JobRow := Table.lookup JobRow.id w.jobs id

def findResult (jobId : String) : Option ResultRow := Table.lookup ResultRow.jobId w.results jobId

def writeJob (job : JobRow) : World := { w with jobs := Table.write JobRow.id w.jobs job }

def writeTask (task : TaskRow) : World := { w with tasks := Table.write TaskRow.id w.tasks task }

/-- The spends linked from jobs, which the ledger keeps for them. -/
def taskJobSpends : List String := w.jobs.filterMap (·.spendId)

end World

/-- The execution, step and number that a job is the physical attempt of. -/
def JobRow.attempt (job : JobRow) : String × String × ℕ :=
  (job.taskAgentExecutionId, job.stepKey, job.providerAttemptNo)

def World.findAttempt (w : World) (attempt : String × String × ℕ) : Option JobRow :=
  Table.lookup JobRow.attempt w.jobs attempt

/-! What a task and its execution are hashed to. -/

def textOrNull (value : Option String) : Json := (value.map Json.str).getD .null

/-- The options, where there are any. -/
def presentRunOptions (row : TaskRow) : Option Metadata := row.runOptions.filter (!·.isEmpty)

def durableTaskInputHash (host : Js.Host) (row : TaskRow) : String :=
  (Json.obj ([("schemaVersion", num 1), ("id", .str row.id), ("title", .str row.title),
    ("description", textOrNull row.description), ("ownerKind", .str row.ownerKind.text),
    ("ownerRef", textOrNull row.ownerRef), ("domain", textOrNull row.domain),
    ("entityId", textOrNull row.entityId), ("priority", .str row.priority),
    ("due", textOrNull (row.due.map Clock.isoText)), ("source", textOrNull row.source),
    ("createdBy", textOrNull row.createdBy)] ++
    Ledger.entry "agentSkill" .str (row.agentSkill.filter (· ≠ "")) ++
    Ledger.entry "runOptions" .obj (presentRunOptions row))).canonicalHash host

/-- The kind of the stored snapshot; `none` where it is absent or inconsistent. -/
def inputSnapshotKind (host : Js.Host) (row : ExecutionRow) : Option String :=
  match row.inputSnapshotKind, row.inputSnapshotPayload, row.inputSnapshotHash with
  | some kind, some payload, some hash =>
    ((normalizeInputSnapshot host kind payload).filter (·.2 = hash)).map Prod.fst
  | _, _, _ => none

def solutionSearchInputSnapshotConflict (host : Js.Host) (row : ExecutionRow) : Option String :=
  if row.skill ≠ "find-solution" then none
  else if inputSnapshotKind host row = some "solution-search-v1" then none
  else some "find-solution requires a consistent solution-search-v1 input snapshot"

def solutionRankSnapshotConflict (host : Js.Host) (execution : ExecutionRow) (kind : JobKind)
    (stepKey feature : String) : Option String :=
  if kind ≠ .chat ∨ stepKey ≠ "find-solution:rank" ∨ Js.trim feature ≠ "find-solution:rank" then none
  else if execution.skill ≠ "find-solution" then some "find-solution:rank requires a find-solution execution"
  else solutionSearchInputSnapshotConflict host execution

/-! Fences and plans. -/

def fenceConflict (row : TaskRow) (agentName runId executionAttemptId : String) : Option String :=
  if row.ownerKind ≠ .agent ∨ row.ownerRef ≠ some (Js.trim agentName) ∨ row.agentRunId ≠ some runId ∨
      row.agentExecutionAttemptId ≠ some executionAttemptId ∨ row.status = .done ∨ row.status = .cancelled then
    some "Agent run fence is stale or task is closed"
  else none

/-- The stored plan, or `inconsistent` where its version or hash is not the execution's. -/
def checkedPlan (host : Js.Host) (execution : ExecutionRow) (inconsistent : String) :
    Except String ExecutionPlan := do
  let plan ← parseStoredTaskLlmExecutionPlan host execution.executionPlan
  if execution.workflowVersion ≠ plan.version ∨ plan.json.canonicalHash host ≠ execution.executionPlanHash then
    .error inconsistent
  else .ok plan

def planConflict (host : Js.Host) (execution : ExecutionRow) (input : EnsureDto) : Option String :=
  match checkedPlan host execution "Workflow plan version or canonical hash is inconsistent" with
  | .error reason => some reason
  | .ok plan =>
    match plan.steps.find? (·.stepKey = input.stepKey) with
    | none => some s!"Step {input.stepKey} is not allowlisted by the execution plan"
    | some step =>
      if step.kind ≠ input.kind ∨ step.feature ≠ Js.trim input.feature ∨ step.adapter ≠ Js.trim input.adapter ∨
          step.adapterVersion ≠ input.adapterVersion ∨ step.endpointProfile ≠ Js.trim input.endpointProfile ∨
          step.provider ≠ host.toLowerCase (Js.trim input.provider) then
        some s!"Step {input.stepKey} route differs from the execution plan"
      else if step.models[input.providerAttemptNo - 1]? ≠ some (Js.trim input.model) then
        some s!"Attempt {input.providerAttemptNo} model differs from the execution plan"
      else none

def storedJobPlanConflict (host : Js.Host) (execution : ExecutionRow) (job : JobRow) : Option String :=
  match checkedPlan host execution "Stored workflow plan version or canonical hash is inconsistent" with
  | .error reason => some reason
  | .ok plan =>
    let differs := some "Stored LLM job no longer matches its immutable execution plan"
    match plan.steps.find? (·.stepKey = job.stepKey) with
    | none => differs
    | some step =>
      if step.kind ≠ job.kind ∨ step.feature ≠ job.feature ∨ step.adapter ≠ job.adapter ∨
          step.adapterVersion ≠ job.adapterVersion ∨ step.endpointProfile ≠ job.endpointProfile ∨
          step.provider ≠ job.provider ∨ step.models[job.providerAttemptNo - 1]? ≠ some job.model then
        differs
      else none

/-- The digest of a physical operation and its exact provider body. -/
def hashOperation (host : Js.Host) (execution : ExecutionRow) (stepKey : String) (providerAttemptNo : ℕ)
    (adapter : String) (adapterVersion : ℕ) (provider endpointProfile : String) (requestPayload : Json) : String :=
  (Json.obj [("schemaVersion", num 1), ("executionId", .str execution.id),
    ("workflowVersion", num execution.workflowVersion), ("stepKey", .str stepKey),
    ("providerAttemptNo", num providerAttemptNo), ("adapter", .str adapter),
    ("adapterVersion", num adapterVersion), ("provider", .str provider),
    ("endpointProfile", .str endpointProfile), ("requestPayload", requestPayload)]).canonicalHash host

def operationHash (host : Js.Host) (execution : ExecutionRow) (input : EnsureDto) (requestPayload : Json) :
    String :=
  hashOperation host execution input.stepKey input.providerAttemptNo (Js.trim input.adapter) input.adapterVersion
    (host.toLowerCase (Js.trim input.provider)) (Js.trim input.endpointProfile) requestPayload

/-! The provider payload of a chat or of an embedding. -/

inductive PayloadSource
  | new
  | stored
  deriving DecidableEq

def inputTokenCeiling (text : String) (protocolOverheadTokens : ℕ) : ℕ :=
  Js.byteLength text + protocolOverheadTokens

mutual

/-- `String(value)`. -/
def jsText (host : Js.Host) : Json → String
  | .null => "null"
  | .bool b => if b then "true" else "false"
  | .num n => host.numberText n
  | .str s => s
  | .arr items => ",".intercalate (jsItems host items)
  | .obj _ => "[object Object]"

def jsItems (host : Js.Host) : List Json → List String
  | [] => []
  | .null :: items => "" :: jsItems host items
  | item :: items => jsText host item :: jsItems host items

end

def contentText (host : Js.Host) (message : Json) : String :=
  match message.get? "content" with
  | some value => jsText host value
  | none => "undefined"

def isText (value : Option Json) (text : String) : Bool :=
  match value with
  | some (.str s) => s = text
  | _ => false

def isChatRole (value : Option Json) : Bool :=
  isText value "system" || isText value "user" || isText value "assistant"

def assertMessage (message : Json) : Except HttpError Unit :=
  match message with
  | .obj entries =>
    Js.require ((∀ e ∈ entries, e.1 = "role" ∨ e.1 = "content") ∧ isChatRole (message.get? "role") ∧
        ((message.get? "content").bind Json.asString).isSome)
      (.badRequest "requestPayload.messages contains unsupported fields")
  | _ => badRequest "requestPayload.messages contains a non-object message"

/-- `/^gpt-5\.6(?:-|$)/`. -/
def isGpt56 (model : String) : Bool :=
  "gpt-5.6".toList.isPrefixOf model.toList && (model.toList.drop 7).head?.all (· == '-')

def OPENAI_GPT_56_REASONING_EFFORTS : List String := ["none", "low", "medium", "high", "xhigh", "max"]

def assertReasoningEffort (model : String) : Option Json → Except HttpError Unit
  | none => .ok ()
  | some effort => do
    Js.require (isGpt56 (Js.trim model))
      (.badRequest "requestPayload.reasoning_effort is supported only for GPT-5.6 OpenAI models")
    Js.require (OPENAI_GPT_56_REASONING_EFFORTS.any fun e => isText (some effort) e)
      (.badRequest "requestPayload.reasoning_effort must be one of: none, low, medium, high, xhigh, max")

def assertOpenAiChat (model : String) (outputTokenCeiling : ℕ) (payload : Json) : Except HttpError Unit := do
  Js.require (¬ ((payload.get? "max_completion_tokens").isSome ∧ (payload.get? "max_tokens").isSome))
    (.badRequest "Stored OpenAI requestPayload cannot contain both token ceiling fields")
  Js.require (payload.get? "max_tokens").isNone
    (.badRequest "Stored legacy OpenAI requestPayload.max_tokens cannot be dispatched safely; owner retry is required")
  Js.require (isNumber (payload.get? "max_completion_tokens") outputTokenCeiling)
    (.badRequest "requestPayload.max_completion_tokens must equal outputTokenCeiling for provider openai")
  Js.require (isText (payload.get? "service_tier") "default")
    (.badRequest "requestPayload.service_tier must equal default for provider openai")
  assertReasoningEffort model (payload.get? "reasoning_effort")

def assertChatPayload (host : Js.Host) (openAi : Bool) (model : String) (inputCeiling outputCeiling : ℕ)
    (payload : Json) : Except HttpError Unit := do
  let (systemMessage, userMessage) ← match payload.get? "messages" with
    | some (.arr [systemMessage, userMessage]) => .ok (systemMessage, userMessage)
    | _ => badRequest "chat requestPayload requires exactly system and user messages"
  Js.require (isText (systemMessage.get? "role") "system" ∧ isText (userMessage.get? "role") "user")
    (.badRequest "chat requestPayload message order must be system then user")
  let serverInputCeiling :=
    inputTokenCeiling (contentText host systemMessage ++ "\n\n" ++ contentText host userMessage) 2048
  Js.require (inputCeiling = serverInputCeiling)
    (.badRequest "inputTokenCeiling does not match the exact chat payload")
  assertMessage systemMessage
  assertMessage userMessage
  if openAi then assertOpenAiChat model outputCeiling payload
  else
    Js.require (isNumber (payload.get? "max_tokens") outputCeiling)
      (.badRequest "requestPayload.max_tokens must equal outputTokenCeiling")

def assertEmbeddingPayload (inputCeiling outputCeiling : ℕ) (payload : Json) : Except HttpError Unit := do
  let input ← match payload.get? "input" with
    | some (.str s) =>
      if s = "" then badRequest "embedding requestPayload.input must be a non-empty string" else .ok s
    | _ => badRequest "embedding requestPayload.input must be a non-empty string"
  Js.require (inputCeiling = inputTokenCeiling input 256)
    (.badRequest "inputTokenCeiling does not match the exact embedding payload")
  Js.require (outputCeiling = 0) (.badRequest "embedding outputTokenCeiling must be zero")

def allowedKeys (kind : JobKind) (openAi : Bool) (source : PayloadSource) : List String :=
  match kind with
  | .embedding => ["model", "input"]
  | .chat =>
    if openAi then
      ["model", "messages", "max_completion_tokens", "reasoning_effort", "service_tier"] ++
        (if source = .stored then ["max_tokens"] else [])
    else ["model", "messages", "max_tokens"]

def payloadKeys : Json → List String
  | .obj entries => entries.map Prod.fst
  | _ => []

def assertProviderPayload (host : Js.Host) (kind : JobKind) (provider model : String)
    (inputCeiling outputCeiling : ℕ) (payload : Json) (source : PayloadSource) : Except HttpError Unit := do
  let officialOpenAiChat := kind = .chat && host.toLowerCase (Js.trim provider) = "openai"
  match (payloadKeys payload).find? (· ∉ allowedKeys kind officialOpenAiChat source) with
  | some unknownKey => badRequest s!"requestPayload.{unknownKey} is not allowlisted"
  | none => do
    Js.require (isText (payload.get? "model") (Js.trim model))
      (.badRequest "requestPayload.model must equal the planned model")
    match kind with
    | .chat => assertChatPayload host officialOpenAiChat model inputCeiling outputCeiling payload
    | .embedding => assertEmbeddingPayload inputCeiling outputCeiling payload

def errorMessage : HttpError → String
  | .badRequest message => message
  | .notFound message => message
  | .conflict message => message
  | .forbidden message => message
  | .internal message => message

/-- The stored body, once it still hashes to the operation; otherwise the reason. -/
def verifiedStoredPayload (host : Js.Host) (execution : ExecutionRow) (job : JobRow) : Except String Json :=
  Except.mapError errorMessage do
    let stored ← Js.orThrow job.requestPayload (.conflict "Stored provider payload is missing")
    let payload ← assertBoundedProviderPayload host stored
    assertProviderPayload host job.kind job.provider job.model job.inputTokenCeiling job.outputTokenCeiling payload
      .stored
    Js.require (hashOperation host execution job.stepKey job.providerAttemptNo job.adapter job.adapterVersion
        job.provider job.endpointProfile payload = job.operationHash)
      (.conflict "Stored task LLM operation hash does not match its payload")
    return payload

/-- One payload for the first authorization and for the one before the wire. -/
def reservePayload (taskId : String) (execution : ExecutionRow) (job : JobRow) (requestKey : String) :
    ReserveDto where
  requestKey := requestKey
  traceKey := some s!"task:{taskId}:execution:{execution.executionAttemptId}"
  consumer := if job.kind = .embedding then .embeddings else .agents
  feature := job.feature
  agentName := some execution.agentName
  provider := job.provider
  model := job.model
  inputTokenCeiling := job.inputTokenCeiling
  outputTokenCeiling := job.outputTokenCeiling
  metadata := some [("taskId", .str taskId), ("executionAttemptId", .str execution.executionAttemptId),
    ("taskLlmJobId", .str job.id), ("stepKey", .str job.stepKey),
    ("providerAttemptNo", num job.providerAttemptNo), ("operationHash", .str job.operationHash)]

def jobMismatch (host : Js.Host) (job : JobRow) (input : EnsureDto) (jobKey operationHash : String) :
    Option String :=
  if job.jobKey ≠ jobKey ∨ job.operationHash ≠ operationHash ∨ job.kind ≠ input.kind ∨
      job.feature ≠ Js.trim input.feature ∨ job.adapter ≠ Js.trim input.adapter ∨
      job.adapterVersion ≠ input.adapterVersion ∨ job.endpointProfile ≠ Js.trim input.endpointProfile ∨
      job.provider ≠ host.toLowerCase (Js.trim input.provider) ∨ job.model ≠ Js.trim input.model ∨
      job.inputTokenCeiling ≠ input.inputTokenCeiling ∨ job.outputTokenCeiling ≠ input.outputTokenCeiling then
    some "Existing task LLM job differs from the requested physical operation"
  else none

/-- Why a fallback attempt may not begin yet. -/
def fallbackConflict (w : World) (executionId stepKey : String) (providerAttemptNo : ℕ) : Option String :=
  if providerAttemptNo = 1 then none
  else
    match w.findAttempt (executionId, stepKey, providerAttemptNo - 1) with
    | none => some "Fallback attempt cannot skip the preceding provider attempt"
    | some prior =>
      if prior.status ≠ .rejected then
        some s!"Fallback attempt is forbidden while the preceding job is {prior.status.text}"
      else none

/-! Settlement of a result. -/

def naturalField (value : Json) (key : String) : Option ℕ :=
  match value.get? key with
  | some (.num n) => some n.num.toNat
  | _ => none

def usageOf (payload : Json) : Option Ledger.TokenUsage :=
  match payload.get? "usage" with
  | some (.obj entries) =>
    let usage := Json.obj entries
    some ⟨(naturalField usage "inputTokens").getD 0, (naturalField usage "outputTokens").getD 0,
      naturalField usage "cacheReadInputTokens", naturalField usage "cacheCreationInputTokens",
      naturalField usage "cacheCreation5mInputTokens", naturalField usage "cacheCreation1hInputTokens",
      naturalField usage "codeExecutionRequests"⟩
  | _ => none

def errorText (payload : Json) : String := ((payload.get? "error").bind Json.asString).getD "undefined"

def taskLlmSettlementDto (job : JobRow) (kind : ResultKind) (payload : Json) : SettleDto where
  outcome := match kind with
    | .success => .success
    | .providerRejection => .providerError
  usage := usageOf payload
  providerRequestId := (payload.get? "providerRequestId").bind Json.asString
  resolvedModel := (payload.get? "resolvedModel").bind Json.asString
  providerReportedUsd := match payload.get? "providerReportedUsd" with
    | some (.num n) => some n
    | _ => none
  reason := match kind with
    | .success => none
    | .providerRejection => some (errorText payload)
  metadata := some [("taskLlmJobId", .str job.id), ("operationHash", .str job.operationHash)]

end Mydon.Jobs
