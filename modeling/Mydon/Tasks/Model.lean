import Mydon.Jobs.Service

/-! Tasks that agents run: the rows around the LLM jobs, what a worker sends and is
answered, and the payloads that a checkpoint and a commit store. -/

namespace Mydon.Tasks

open Mydon.Lib
open Js (Json HttpError)
open Jobs (World TaskRow ExecutionRow JobRow TaskStatus num badRequest)
open Ledger (Metadata LedgerEnv)

inductive Invocation
  | assigned
  | scheduled
  deriving DecidableEq

inductive CheckpointKind
  | noSignal
  | proposal
  deriving DecidableEq

def CheckpointKind.text : CheckpointKind → String
  | .noSignal => "no_signal"
  | .proposal => "proposal"

inductive OutcomeKind
  | noSignal
  | noChange
  | approvalRequested
  | executed
  deriving DecidableEq

def OutcomeKind.text : OutcomeKind → String
  | .noSignal => "no_signal"
  | .noChange => "no_change"
  | .approvalRequested => "approval_requested"
  | .executed => "executed"

/-- `outcome.kind === "approval_requested" || outcome.kind === "executed"`. -/
def OutcomeKind.isAction : OutcomeKind → Bool
  | .approvalRequested => true
  | .executed => true
  | .noSignal => false
  | .noChange => false

inductive Tier
  | T0
  | T1
  | T2
  | T3
  | T4
  deriving DecidableEq

def Tier.text : Tier → String
  | .T0 => "T0"
  | .T1 => "T1"
  | .T2 => "T2"
  | .T3 => "T3"
  | .T4 => "T4"

inductive ReleaseReason
  | budgetDenied
  | executionUnknown
  | workflowChanged
  | routeUnavailable
  | actionCapped
  | unsupported
  | skillFailed
  deriving DecidableEq

inductive Quality
  | excellent
  | accepted
  | redo
  deriving DecidableEq

/-- The columns of a task that no LLM job reads. -/
structure TaskColumns where
  agentRunGeneration : ℕ := 0
  resultNote : Option String := none
  quality : Option Quality := none
  completedAt : Option ℤ := none
  closedBy : Option String := none

/-- The columns of an execution that no LLM job reads. -/
structure ExecutionColumns where
  schemaVersion : ℕ := 1
  startedAt : ℤ := 0
  createdAt : ℤ := 0
  checkpointKind : Option CheckpointKind := none
  checkpointPayload : Option Json := none
  checkpointHash : Option String := none
  outcomePayload : Option Json := none
  outcomeHash : Option String := none
  approvalId : Option String := none
  committedAt : Option ℤ := none
  abandonedAt : Option ℤ := none
  abandonReason : Option String := none

structure EventRow where
  source : String
  type : String
  payload : Json
  clientKey : Option String
  occurredAt : ℤ

structure ApprovalRow where
  id : String
  agent : String
  action : String
  tier : Tier
  payload : Json
  clientKey : Option String

structure DeliveryRow where
  id : String
  key : String
  taskAgentExecutionId : String
  destination : String
  payload : Json
  payloadHash : String

/-- The tables of the task service. The rows of tasks and executions are split in two: what the
LLM jobs share is in their world, the other columns are found by the id of the row. -/
structure Board where
  world : World
  taskColumns : String → TaskColumns
  executionColumns : String → ExecutionColumns
  events : List EventRow
  approvals : List ApprovalRow
  deliveries : List DeliveryRow

structure Env where
  host : Js.Host
  agentDailyActionCap : ℤ

/-! Inputs and answers. -/

structure Fence where
  agentName : String
  runId : String
  executionAttemptId : String

structure AgentRunStartInput extends Fence where
  claimedTaskInputHash : String
  skill : String
  workflowVersion : ℕ
  plan : Json

structure AgentRunInputSnapshotInput extends Fence where
  kind : String
  payload : Json

structure AgentRunCheckpointInput extends Fence where
  skill : String
  kind : CheckpointKind
  action : Option String
  facts : Option Json
  next : Option (List String)

structure AgentRunCommitInput extends Fence where
  kind : OutcomeKind
  note : String
  action : Option String
  facts : Option Json
  next : Option (List String)
  tier : Option Tier
  memorySignature : Option String
  executionDetail : Option String

structure AgentInputSnapshotView where
  kind : String
  payload : Json
  hash : String

structure AgentCheckpointView where
  id : String
  executionAttemptId : String
  skill : String
  kind : CheckpointKind
  action : Option String
  facts : Option Json
  next : Option (List String)
  taskInputHash : String
  checkpointHash : Option String
  createdAt : String

structure AgentExecutionView where
  id : String
  status : Jobs.ExecutionStatus
  skill : String
  workflowVersion : ℕ
  plan : Jobs.ExecutionPlan
  planHash : String
  taskInputHash : String
  startedAt : String
  inputSnapshot : Option AgentInputSnapshotView
  checkpoint : Option AgentCheckpointView

structure TaskInput where
  title : String
  description : Option String
  domain : Option String
  agentSkill : Option String
  runOptions : Option Metadata

structure ClaimedAgentRun where
  row : TaskRow
  agentRunGeneration : ℕ
  taskInputHash : String
  taskInput : TaskInput
  agentExecution : Option AgentExecutionView

structure AgentRunStartResult where
  replay : Bool
  execution : AgentExecutionView

structure AgentRunInputSnapshotResult where
  replay : Bool
  snapshot : AgentInputSnapshotView

structure AgentRunCheckpointResult where
  replay : Bool
  checkpoint : AgentCheckpointView

inductive CommitStatus
  | done
  | todo
  | blocked
  deriving DecidableEq

structure AgentRunCommitResult where
  committed : Bool
  capped : Bool
  replay : Bool
  taskId : String
  executionAttemptId : String
  status : CommitStatus
  resultNote : Option String := none
  approvalId : Option String := none
  outboxDeliveryId : Option String := none
  retryAt : Option String := none

/-! Payloads. -/

def normalizedOptionalText (value : Option String) : Option String := (value.map Js.trim).filter (· ≠ "")

def normalizedNext (value : Option (List String)) : Option (List String) :=
  (value.map fun items => (items.map Js.trim).filter (· ≠ "")).filter (!·.isEmpty)

def textItems (items : List String) : Json := .arr (items.map .str)

/-- `action`, `facts` and `next`, where they are given. -/
def proposalEntries (action facts next : Option Json) : Metadata :=
  Ledger.entry "action" id action ++ Ledger.entry "facts" id facts ++ Ledger.entry "next" id next

def checkpointPayload (input : AgentRunCheckpointInput) : Metadata :=
  ("kind", .str input.kind.text) :: proposalEntries ((normalizedOptionalText input.action).map .str) input.facts
    ((normalizedNext input.next).map textItems)

/-- The outcome of a run, as its commit stores and reads it. -/
structure CommitPayload where
  kind : OutcomeKind
  note : String
  action : Option String
  facts : Option Json
  next : Option (List String)
  tier : Option Tier
  memorySignature : Option String
  executionDetail : Option String

def commitPayload (input : AgentRunCommitInput) : CommitPayload where
  kind := input.kind
  note := Js.trim input.note
  action := normalizedOptionalText input.action
  facts := input.facts.map Json.canonical
  next := normalizedNext input.next
  tier := input.tier
  memorySignature := normalizedOptionalText input.memorySignature
  executionDetail := normalizedOptionalText input.executionDetail

def CommitPayload.json (outcome : CommitPayload) : Json :=
  .obj ([("kind", .str outcome.kind.text), ("note", .str outcome.note)] ++
    proposalEntries (outcome.action.map .str) outcome.facts (outcome.next.map textItems) ++
    Ledger.entry "tier" (fun t => .str (Tier.text t)) outcome.tier ++
    Ledger.entry "memorySignature" .str outcome.memorySignature ++
    Ledger.entry "executionDetail" .str outcome.executionDetail)

/-- `jsonObject`. -/
def jsonObject (value : Option Json) : Metadata :=
  match value with
  | some (.obj entries) => entries
  | _ => []

/-- What is compared of a checkpoint and of an outcome. -/
def CommitPayload.proposal (outcome : CommitPayload) : Json :=
  .obj (proposalEntries (outcome.action.map .str) outcome.facts (outcome.next.map textItems))

def checkpointProposal (payload : Option Json) : Json :=
  let checkpoint := Json.obj (jsonObject payload)
  .obj (proposalEntries (checkpoint.get? "action") (checkpoint.get? "facts") (checkpoint.get? "next"))

def textsOf (value : Json) : Option (List String) :=
  match value with
  | .arr items => some (items.filterMap Json.asString)
  | _ => none

/-! Input snapshots. -/

mutual

/-- The first key that a public snapshot may not have. -/
def forbiddenKey (host : Js.Host) : Json → Option String
  | .arr items => forbiddenKeyIn host items
  | .obj entries => forbiddenKeyOf host entries
  | .null => none
  | .bool _ => none
  | .num _ => none
  | .str _ => none

def forbiddenKeyIn (host : Js.Host) : List Json → Option String
  | [] => none
  | item :: items => (forbiddenKey host item).or (forbiddenKeyIn host items)

def forbiddenKeyOf (host : Js.Host) : Metadata → Option String
  | [] => none
  | (key, item) :: entries =>
    if Jobs.isForbiddenPublicKey host key then some key
    else (forbiddenKey host item).or (forbiddenKeyOf host entries)

end

def normalizeInputSnapshot (host : Js.Host) (kind : String) (payload : Json) :
    Except HttpError AgentInputSnapshotView := do
  let normalizedKind := Js.trim kind
  Js.require (Js.length normalizedKind ≠ 0 ∧ Js.length normalizedKind ≤ 128)
    (.badRequest "input snapshot kind должен содержать от 1 до 128 символов")
  let canonicalPayload ← match payload with
    | .obj entries => .ok (Json.obj entries).canonical
    | _ => badRequest "input snapshot payload должен быть plain JSON object"
  match forbiddenKey host payload with
  | some key => badRequest s!"input snapshot содержит запрещённое поле {key}"
  | none => do
    Js.require (Jobs.jsonByteLength host canonicalPayload ≤ Jobs.AGENT_RUN_INPUT_SNAPSHOT_MAX_BYTES)
      (.badRequest "input snapshot payload превышает 64 KiB")
    return ⟨normalizedKind, canonicalPayload, (Json.obj [("schemaVersion", num 1), ("kind", .str normalizedKind),
      ("payload", canonicalPayload)]).canonicalHash host⟩

def inputSnapshotView (host : Js.Host) (row : ExecutionRow) : Except HttpError (Option AgentInputSnapshotView) :=
  match row.inputSnapshotKind, row.inputSnapshotPayload, row.inputSnapshotHash with
  | none, none, none => .ok none
  | some kind, some payload, some hash => do
    let snapshot ← normalizeInputSnapshot host kind payload
    Js.require (snapshot.hash = hash) (.internal "Stored input snapshot canonical hash is inconsistent")
    return some snapshot
  | _, _, _ => .error (.internal "Stored input snapshot fields are inconsistent")

/-! Views. -/

def checkpointView (row : ExecutionRow) (columns : ExecutionColumns) : Except HttpError AgentCheckpointView :=
  let payload := Json.obj (jsonObject columns.checkpointPayload)
  match columns.checkpointKind with
  | none => .error (.internal "Неизвестный checkpoint kind null")
  | some kind =>
    .ok {
      id := row.id
      executionAttemptId := row.executionAttemptId
      skill := row.skill
      kind
      action := (payload.get? "action").bind Json.asString
      facts := (payload.get? "facts").map fun facts => .obj (jsonObject (some facts))
      next := (payload.get? "next").bind textsOf
      taskInputHash := row.taskInputHash
      checkpointHash := columns.checkpointHash
      createdAt := Clock.isoText columns.createdAt }

def executionView (host : Js.Host) (row : ExecutionRow) (columns : ExecutionColumns) :
    Except HttpError AgentExecutionView := do
  let inputSnapshot ← inputSnapshotView host row
  let plan ← (Jobs.parseStoredTaskLlmExecutionPlan host row.executionPlan).mapError .conflict
  let checkpoint ← if row.status = .ready ∨ row.status = .committed then (checkpointView row columns).map some
    else .ok none
  return {
    id := row.id
    status := row.status
    skill := row.skill
    workflowVersion := row.workflowVersion
    plan
    planHash := row.executionPlanHash
    taskInputHash := row.taskInputHash
    startedAt := Clock.isoText columns.startedAt
    inputSnapshot
    checkpoint }

def taskInputOf (row : TaskRow) : TaskInput where
  title := row.title
  description := row.description.filter (· ≠ "")
  domain := row.domain.filter (· ≠ "")
  agentSkill := row.agentSkill.filter (· ≠ "")
  runOptions := Jobs.presentRunOptions row

/-! The report that an action sends. -/

def secretFactWords : List (List Char) :=
  ["token", "secret", "password", "passphrase", "authorization", "cookie", "apikey", "api_key", "api-key"].map
    String.toList

def isSecretFactKey (key : String) : Bool :=
  Js.delimitedWord (fun c => c == '_' || c == '-') secretFactWords true
    ((Jobs.splitCamel (Jobs.splitAcronyms key.toList)).map Js.lowerAscii)

mutual

def redactReportSecrets : Json → Json
  | .arr items => .arr (redactItems items)
  | .obj entries => .obj (redactEntries entries)
  | .null => .null
  | .bool b => .bool b
  | .num n => .num n
  | .str s => .str s

def redactItems : List Json → List Json
  | [] => []
  | item :: items => redactReportSecrets item :: redactItems items

def redactEntries : Metadata → Metadata
  | [] => []
  | (key, value) :: entries =>
    (key, if isSecretFactKey key then .str "[REDACTED]" else redactReportSecrets value) :: redactEntries entries

end

def reportFact (host : Js.Host) (value : Json) : String :=
  match redactReportSecrets value with
  | .str s => s
  | .null => "null"
  | .num n => host.numberText n
  | .bool b => if b then "true" else "false"
  | .arr items => (Json.arr items).canonical.stringify host
  | .obj entries => (Json.obj entries).canonical.stringify host

def reportDay (createdAt : ℤ) : String :=
  let (year, month, day) := Clock.civil (Clock.tashkentDay createdAt)
  Clock.padStart 2 day ++ "." ++ Clock.padStart 2 month ++ "." ++ Clock.padStart 4 year

def notionReportPayload (host : Js.Host) (execution : ExecutionRow) (createdAt : ℤ) (executed : Bool)
    (action : String) (facts : Metadata) : Json :=
  let sorted := facts.insertionSort Json.keyLE
  let bullets := (sorted.filter fun entry => !isSecretFactKey entry.1).map fun (key, value) =>
    Json.str (key ++ ": " ++ reportFact host value)
  let closing :=
    if executed then
      s!"Навык: {execution.skill}. Агент исполнил действие в пределах действующего порога автономии."
    else s!"Навык: {execution.skill}. Решение принимает владелец — агент только предлагает."
  (Json.obj [("report", .obj [
    ("title", .str (Js.take 80 action ++ " — " ++ reportDay createdAt)),
    ("author", .str execution.agentName),
    ("blocks", .arr [
      .obj [("heading", .str "Что нашёл"), ("paragraphs", .arr [.str action])],
      .obj [("heading", .str "На чём это основано"), ("bullets", .arr bullets)],
      .obj [("paragraphs", .arr [.str closing])]])])]).canonical

example : isSecretFactKey "botApiKey" = true ∧ isSecretFactKey "monkey" = false := by decide

end Mydon.Tasks
