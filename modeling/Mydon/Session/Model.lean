import Mydon.Jobs.Answers

/-! The session of an agent's task: `runAttempt` between the calls that it makes of Core and of the
provider. It asks the provider once, and repeats only a claim or a completion that may be lost. -/

namespace Mydon.Session

open Mydon.Jobs
open Js (Json HttpError)
open Ledger (BudgetAction BudgetSnapshot LedgerEnv)

structure TaskLlmFence where
  taskId : String
  agentName : String
  runId : String
  executionAttemptId : String

structure AttemptRoute where
  kind : JobKind
  feature : String
  model : String
  providerAttemptNo : ℕ
  inputTokenCeiling : ℕ
  outputTokenCeiling : ℕ
  requestPayload : Json

/-- What a call of Core may throw: an answer other than a success, or no answer. -/
inductive CallError
  | http (status : ℕ) (path : String)
  | other (message : String)

def CallError.message : CallError → String
  | .http status path => s!"Core ответил {status} на {path}"
  | .other message => message

def retryableExactResponse : CallError → Bool
  | .http status _ => 500 ≤ status
  | .other _ => true

inductive SessionError
  | replayBlocked (requestKey message : String)
  | ledgerUnavailable (message : String)
  | budgetDenied (action : BudgetAction) (reason : String) (budget : BudgetSnapshot)

inductive ProviderOutcome
  | success
  | providerRejection
  | unknown
  deriving DecidableEq

/-- The fields of a chat's or an embedding's result that a completion reads. -/
structure ProviderResult where
  text : Option String
  vector : Option (List Json)
  usage : Option Json
  providerRequestId : Option String
  resolvedModel : Option String
  costUsd : Option ℚ
  statusCode : Option ℚ
  error : Option String

/-- Where `runAttempt` is: before which call, or how it ended. -/
inductive Phase
  | ensuring
  | claiming (ensured : EnsureResponse) (dispatchToken : String) (recovery : Bool)
  | dispatching (jobId dispatchToken : String) (payload : Json)
  /-- `provider` is what the provider threw or its outcome. -/
  | completing (jobId : String) (input : CompleteDto) (provider : Except String ProviderOutcome) (recovery : Bool)
  | returned (jobId : String) (result : StoredResult)
  | threw (error : SessionError)
  | crashed

/-- A run of `runAttempt`, with the token that it draws. -/
structure TaskLlmSession where
  fence : TaskLlmFence
  step : ExecutionPlanStep
  route : AttemptRoute
  token : Option String
  phase : Phase

/-! Shapes of the answers. -/

def isHexDigit (c : Char) : Bool := Js.isDigit c || ('a' ≤ Js.lowerAscii c && Js.lowerAscii c ≤ 'f')

/-- `UUID_PATTERN.test(s)`. -/
def isUuid (s : String) : Bool :=
  let groups := s.toList.splitOn '-'
  groups.map List.length = [8, 4, 4, 4, 12] && groups.all fun group => group.all isHexDigit

def validEnsure (r : EnsureResponse) : Bool := isUuid r.jobId && isHex64 r.operationHash.toList

def isRecord : Json → Bool
  | .obj _ => true
  | _ => false

def validClaim (r : ClaimResponse) : Bool :=
  r.requestPayload.all isRecord && isHex64 r.operationHash.toList && (!r.granted || r.requestPayload.any isRecord)

namespace TaskLlmSession

variable (σ : TaskLlmSession)

def ensureInput : EnsureDto where
  agentName := σ.fence.agentName
  runId := σ.fence.runId
  executionAttemptId := σ.fence.executionAttemptId
  stepKey := σ.step.stepKey
  providerAttemptNo := σ.route.providerAttemptNo
  kind := σ.route.kind
  feature := σ.route.feature
  adapter := σ.step.adapter
  adapterVersion := σ.step.adapterVersion
  endpointProfile := σ.step.endpointProfile
  provider := σ.step.provider
  model := σ.route.model
  inputTokenCeiling := σ.route.inputTokenCeiling
  outputTokenCeiling := σ.route.outputTokenCeiling
  requestPayload := σ.route.requestPayload

def claimInput (dispatchToken : String) : ClaimDto where
  agentName := σ.fence.agentName
  runId := σ.fence.runId
  executionAttemptId := σ.fence.executionAttemptId
  dispatchToken

def ensurePath : String := s!"/tasks/{σ.fence.taskId}/agent-run/llm-jobs/ensure"

def claimPath (jobId : String) : String := s!"/tasks/{σ.fence.taskId}/agent-run/llm-jobs/{jobId}/claim-dispatch"

def completePath (jobId : String) : String := s!"/tasks/{σ.fence.taskId}/agent-run/llm-jobs/{jobId}/complete"

def blocked (message : String) : Option String → SessionError
  | some jobId => .replayBlocked s!"task:{σ.fence.taskId}:llm-job:{jobId}" message
  | none => .replayBlocked s!"task:{σ.fence.taskId}:execution:{σ.fence.executionAttemptId}" message

/-- The result of a job that is over; `none` of any other. -/
def terminalResult (status : JobStatus) (result : Option StoredResult) (jobId : String) :
    Except SessionError (Option StoredResult) :=
  match status, result with
  | .succeeded, none => .error (σ.blocked "terminal job succeeded не содержит result" jobId)
  | .rejected, none => .error (σ.blocked "terminal job rejected не содержит result" jobId)
  | .succeeded, some result =>
    if result.kind = .success then .ok (some result) else .error (σ.blocked "succeeded job содержит rejection" jobId)
  | .rejected, some result =>
    if result.kind = .providerRejection then .ok (some result)
    else .error (σ.blocked "rejected job содержит success" jobId)
  | _, _ => .ok none

/-- A job that is not over is claimed if it is ready. -/
def ensuredOpen (r : EnsureResponse) (dispatchToken : String) : Phase :=
  match r.status, r.denial with
  | .waitingBudget, none =>
    .threw (.ledgerUnavailable s!"Core вернул waiting_budget без denial для job {r.jobId}")
  | .waitingBudget, some denial => .threw (.budgetDenied denial.action denial.reason denial.budget)
  | .ready, _ => .claiming r dispatchToken false
  | status, _ => .threw (σ.blocked s!"job уже в состоянии {status.text}" r.jobId)

/-- Core's conflict is told apart from a job that it does not confirm. -/
def ensured (dispatchToken : String) : Except CallError EnsureResponse → Phase
  | .error e =>
    match e with
    | .http 409 _ => .threw (σ.blocked "ensure operation hash mismatch" none)
    | e => .threw (.ledgerUnavailable s!"Core не подтвердил durable LLM job: {e.message}")
  | .ok r =>
    if validEnsure r = false then
      .threw (.ledgerUnavailable
        "Core не подтвердил durable LLM job: Core вернул невалидный durable LLM ensure response")
    else
      match σ.terminalResult r.status r.result r.jobId with
      | .error e => .threw e
      | .ok (some result) => .returned r.jobId result
      | .ok none => σ.ensuredOpen r dispatchToken

/-- A claim of a job that is not over leads to the provider if it is granted. -/
def claimedOpen (ensured : EnsureResponse) (dispatchToken : String) (r : ClaimResponse) : Phase :=
  match r.requestPayload with
  | some payload =>
    if r.granted = false ∨ r.status ≠ .dispatching then
      .threw (σ.blocked "Core не вернул exact dispatch grant" ensured.jobId)
    else if r.operationHash ≠ ensured.operationHash then
      .threw (σ.blocked "operationHash изменился между ensure и claim" ensured.jobId)
    else .dispatching ensured.jobId dispatchToken payload
  | none => .threw (σ.blocked "Core не вернул exact dispatch grant" ensured.jobId)

def claimed (ensured : EnsureResponse) (dispatchToken : String) (recovery : Bool) :
    Except CallError ClaimResponse → Phase
  | .error e =>
    if recovery then
      .threw (σ.blocked
        s!"dispatch claim response потерян и exact recovery не подтвердила grant: {e.message}" ensured.jobId)
    else if retryableExactResponse e = false then .threw (σ.blocked "dispatch claim отклонён Core" ensured.jobId)
    else .claiming ensured dispatchToken true
  | .ok r =>
    if validClaim r = false then
      .threw (σ.blocked "Core вернул невалидный durable dispatch claim response" ensured.jobId)
    else
      match σ.terminalResult r.status r.result ensured.jobId with
      | .error e => .threw e
      | .ok (some result) => .returned ensured.jobId result
      | .ok none => σ.claimedOpen ensured dispatchToken r

/-- What is common to the completions of both kinds. -/
def completionCommon (result : ProviderResult) : List (String × Json) :=
  Ledger.entry "usage" id result.usage ++
    Ledger.entry "providerRequestId" .str (result.providerRequestId.filter (· ≠ "")) ++
    Ledger.entry "resolvedModel" .str (result.resolvedModel.filter (· ≠ "")) ++
    Ledger.entry "providerReportedUsd" .num result.costUsd

/-- A completion without evidence is one of an unknown outcome. -/
def completion (host : Js.Host) (dispatchToken : String) (outcome : ProviderOutcome) (result : ProviderResult) :
    CompleteDto :=
  match outcome with
  | .unknown => ⟨dispatchToken, none, none⟩
  | .providerRejection =>
    match result.statusCode with
    | none => ⟨dispatchToken, none, none⟩
    | some statusCode =>
      ⟨dispatchToken, some .providerRejection, some (.obj (completionCommon result ++
        [("error", .str (result.error.getD s!"provider rejected with {host.numberText statusCode}")),
          ("statusCode", .num statusCode)]))⟩
  | .success =>
    match result.text, result.vector with
    | some text, _ => ⟨dispatchToken, some .success, some (.obj (completionCommon result ++ [("text", .str text)]))⟩
    | none, some vector =>
      ⟨dispatchToken, some .success, some (.obj (completionCommon result ++ [("vector", .arr vector)]))⟩
    | none, none => ⟨dispatchToken, none, none⟩

/-- After the provider's answer there is only the completion left. -/
def answered (host : Js.Host) (jobId dispatchToken : String) : Except String (ProviderOutcome × ProviderResult) → Phase
  | .error message => .completing jobId ⟨dispatchToken, none, none⟩ (.error message) false
  | .ok (outcome, result) => .completing jobId (completion host dispatchToken outcome result) (.ok outcome) false

def completedWith (jobId : String) (provider : Except String ProviderOutcome) (r : CompleteResponse) : Phase :=
  match provider with
  | .error message => .threw (σ.blocked s!"provider dispatch завершился неизвестно: {message}" jobId)
  | .ok .unknown => .threw (σ.blocked "provider outcome неизвестен; automatic retry запрещён" jobId)
  | .ok _ =>
    match σ.terminalResult r.status r.result jobId with
    | .error e => .threw e
    | .ok (some result) => .returned jobId result
    | .ok none => .threw (σ.blocked "Core не вернул durable terminal result" jobId)

def completed (jobId : String) (input : CompleteDto) (provider : Except String ProviderOutcome) (recovery : Bool) :
    Except CallError CompleteResponse → Phase
  | .error e =>
    if recovery then
      .threw (σ.blocked s!"provider уже ответил, но exact complete recovery не подтверждена: {e.message}" jobId)
    else if retryableExactResponse e = false then .threw (σ.blocked "durable complete отклонён Core" jobId)
    else .completing jobId input provider true
  | .ok r => σ.completedWith jobId provider r

end TaskLlmSession

end Mydon.Session
