import Mydon.Jobs.Model

/-! Ensure, claim and complete, each one transaction over the tables. A transaction
that throws is rolled back; one that ends in a durable conflict is committed, with
its task blocked, and reported as a conflict after that. -/

namespace Mydon.Jobs

open Mydon.Lib
open Js (Json HttpError)
open Ledger (LedgerEnv ReserveResponse)

/-- What a transaction commits: the answer, or the reason of a durable conflict. -/
abbrev Committed (α : Type) := Except String α × World

namespace World

variable (w : World)

def ledgerEnv (env : LedgerEnv) : LedgerEnv := { env with taskJobSpends := w.taskJobSpends }

def lockTask (id : String) : Except HttpError TaskRow :=
  Js.orThrow (w.findTask id) (.notFound s!"Task {id} not found")

def lockJob (id : String) : Except HttpError JobRow :=
  Js.orThrow (w.findJob id) (.notFound s!"LLM job {id} not found")

def blockedTask (before : TaskRow) (reason : String) (now : ℤ) : TaskRow :=
  { before with
    status := .todo
    agentRunId := none
    agentRunClaimedAt := none
    agentExecutionRetryAt := none
    agentExecutionBlockedAt := some now
    agentExecutionBlockedReason := some (Js.take 1000 reason) }

def blockTask {α : Type} (before : TaskRow) (reason : String) (now : ℤ) : Committed α :=
  (.error (Js.take 1000 reason), w.writeTask (blockedTask before reason now))

/-- The job as an expired dispatch leaves it. -/
def expiredJob (job : JobRow) (now : ℤ) : JobRow :=
  { job with
    status := .unknown
    requestPayload := none
    unknownAt := some now
    lastError := some "Dispatch grant expired without durable completion"
    updatedAt := now }

def expireDispatchIfNeeded (job : JobRow) (now : ℤ) : JobRow × World :=
  if job.status = .dispatching ∧ job.dispatchDeadlineAt.any (· ≤ now) then
    (expiredJob job now, w.writeJob (expiredJob job now))
  else (job, w)

def resultView (row : ResultRow) : StoredResult := ⟨row.kind, row.payload.canonical, row.resultHash⟩

def resultProperty (job : JobRow) : Except HttpError (Option StoredResult) :=
  if job.status = .succeeded ∨ job.status = .rejected then
    (Js.orThrow (w.findResult job.id) (.conflict s!"Terminal LLM job {job.id} has no result")).map fun row =>
      some (resultView row)
  else .ok none

def jobResponse (job : JobRow) : Except HttpError EnsureResponse :=
  (w.resultProperty job).map fun result => ⟨job.id, job.status, job.operationHash, result, none⟩

/-! Ensure. -/

/-- The execution that a new job belongs to, or why the task is blocked. -/
def ensureGate (host : Js.Host) (task : TaskRow) (input : EnsureDto) : Except String ExecutionRow :=
  match (w.findExecutionByAttempt input.executionAttemptId).filter fun e =>
      e.taskId = task.id && e.agentName = Js.trim input.agentName with
  | none => .error "Durable execution is missing or belongs to another task"
  | some execution =>
    if execution.status ≠ .active then
      .error s!"Execution is {execution.status.text}; new LLM jobs are forbidden"
    else if execution.taskInputHash ≠ durableTaskInputHash host task then
      .error "Task input changed after execution start"
    else
      match (planConflict host execution input).or
          (solutionRankSnapshotConflict host execution input.kind input.stepKey input.feature) with
      | some conflict => .error conflict
      | none => .ok execution

/-- The job as it is first inserted. -/
def newJob (host : Js.Host) (execution : ExecutionRow) (input : EnsureDto)
    (requestPayload : Json) (jobKey operationHash newJobId : String) (now : ℤ) : JobRow where
  id := newJobId
  taskAgentExecutionId := execution.id
  stepKey := input.stepKey
  providerAttemptNo := input.providerAttemptNo
  kind := input.kind
  feature := Js.trim input.feature
  adapter := Js.trim input.adapter
  adapterVersion := input.adapterVersion
  endpointProfile := Js.trim input.endpointProfile
  provider := host.toLowerCase (Js.trim input.provider)
  model := Js.trim input.model
  inputTokenCeiling := input.inputTokenCeiling
  outputTokenCeiling := input.outputTokenCeiling
  jobKey
  operationHash
  requestPayload := some requestPayload
  spendId := none
  status := .waitingBudget
  dispatchCount := 0
  dispatchToken := none
  dispatchRunId := none
  dispatchGrantedAt := none
  dispatchDeadlineAt := none
  unknownAt := none
  completedAt := none
  lastError := none
  updatedAt := now

/-- `insert`, under the table's unique keys and its check of the attempt number. -/
def insertJob (job : JobRow) : Except HttpError World := do
  Js.require (∀ j ∈ w.jobs, j.id ≠ job.id) (.internal "duplicate key value: agent_task_llm_job_pkey")
  Js.require (∀ j ∈ w.jobs, j.jobKey ≠ job.jobKey) (.internal "duplicate key value: agent_task_llm_job_job_key")
  Js.require (∀ j ∈ w.jobs, j.attempt ≠ job.attempt)
    (.internal "duplicate key value: agent_task_llm_job_execution_step_attempt_key")
  Js.require (0 < job.providerAttemptNo ∧ 0 < job.adapterVersion)
    (.internal "violates check constraint: agent_task_llm_job_attempt_version_positive")
  return { w with jobs := w.jobs ++ [job] }

/-- The job of the attempt, found or inserted, or why the task is blocked. -/
def ensureJob (host : Js.Host) (execution : ExecutionRow) (input : EnsureDto) (requestPayload : Json)
    (newJobId : String) (now : ℤ) : Except HttpError (Except String (JobRow × World)) :=
  let hash := operationHash host execution input requestPayload
  let jobKey := s!"task-llm:{execution.id}:{input.stepKey}:{input.providerAttemptNo}"
  match w.findAttempt (execution.id, input.stepKey, input.providerAttemptNo) with
  | some job =>
    match jobMismatch host job input jobKey hash with
    | some mismatch => .ok (.error mismatch)
    | none => .ok (.ok (job, w))
  | none =>
    match fallbackConflict w execution.id input.stepKey input.providerAttemptNo with
    | some conflict => .ok (.error conflict)
    | none =>
      let job := newJob host execution input requestPayload jobKey hash newJobId now
      (w.insertJob job).map fun w' => .ok (job, w')

def findAuthorization (jobId : String) (day : ℤ) : Option AuthorizationRow :=
  w.authorizations.find? fun a => a.jobId = jobId && a.day = day

/-- The request key of the job's reserve on a day: that of the day's authorization, where there is one. -/
def authorizationKey (job : JobRow) (ledgerDay : ℤ) : Except String String :=
  match w.findAuthorization job.id ledgerDay with
  | none => .ok s!"{job.jobKey}:day:{Clock.dayText ledgerDay}"
  | some authorization =>
    match (Ledger.findSpend w.spends authorization.spendId).filter (·.day = ledgerDay) with
    | none => .error "Daily LLM authorization lost or mismatched its spend"
    | some spend => .ok spend.requestKey

def insertAuthorization (row : AuthorizationRow) : Except HttpError World := do
  Js.require (∀ a ∈ w.authorizations, ¬ (a.jobId = row.jobId ∧ a.day = row.day))
    (.internal "duplicate key value: agent_task_llm_authorization_job_day_key")
  Js.require (∀ a ∈ w.authorizations, a.spendId ≠ row.spendId)
    (.internal "duplicate key value: agent_task_llm_authorization_spend_key")
  Js.require (row.decision = .granted → ∀ a ∈ w.authorizations, ¬ (a.jobId = row.jobId ∧ a.decision = .granted))
    (.internal "duplicate key value: agent_task_llm_authorization_job_granted_key")
  return { w with authorizations := w.authorizations ++ [row] }

/-- The job as its authorization leaves it. -/
def readyJob (job : JobRow) (spendId : String) (now : ℤ) : JobRow :=
  { job with
    spendId := some spendId
    status := .ready
    updatedAt := now }

/-- What the decision of the ledger does to the job. -/
def applyDecision (task : TaskRow) (job : JobRow) (spendId : String) (response : ReserveResponse) (now : ℤ) :
    Except HttpError (Committed EnsureResponse) :=
  match response with
  | .refused status action reason _ budget =>
    if status ≠ .denied then
      .ok (w.blockTask task s!"LLM authorization replay is blocked with status {status.text}" now)
    else .ok (.ok ⟨job.id, .waitingBudget, job.operationHash, none, some ⟨action, reason, budget⟩⟩, w)
  | .allowed _ _ _ => do
    Js.require (∀ j ∈ w.jobs, j.id ≠ job.id → j.spendId ≠ some spendId)
      (.internal "duplicate key value: agent_task_llm_job_spend_key")
    let ready := readyJob job spendId now
    let answer ← (w.writeJob ready).jobResponse ready
    return (.ok answer, w.writeJob ready)

def decisionOf : ReserveResponse → Decision
  | .allowed _ _ _ => .granted
  | .refused _ _ _ _ _ => .denied

/-- Link the job to the decision of the day, then apply it. -/
def recordAuthorization (task : TaskRow) (job : JobRow) (day : ℤ) (requestKey : String)
    (response : ReserveResponse) (now : ℤ) : Except HttpError (Committed EnsureResponse) := do
  let spend ← Js.orThrow (Ledger.findKey w.spends requestKey)
    (.internal "LLM ledger did not persist its authorization decision")
  if spend.day ≠ day then return w.blockTask task "LLM ledger day changed outside its stable lock" now
  else
    match w.findAuthorization job.id day with
    | some authorization =>
      if authorization.spendId ≠ spend.id ∨ authorization.decision ≠ decisionOf response then
        return w.blockTask task "Stored daily LLM authorization is inconsistent" now
      else w.applyDecision task job spend.id response now
    | none => do
      let w' ← w.insertAuthorization ⟨job.id, spend.day, spend.id, decisionOf response⟩
      w'.applyDecision task job spend.id response now

/-- The first integrity error among the keys that the reserve asks for. -/
def authorizationError (job : JobRow) (clock : List ℤ) : Option String :=
  match clock with
  | [] => none
  | first :: clock =>
    (Ledger.keyedDays first clock).findSome? fun day =>
      match w.authorizationKey job day with
      | .error message => some message
      | .ok _ => none

def keyForDay (job : JobRow) (day : ℤ) : String :=
  match w.authorizationKey job day with
  | .ok key => key
  | .error _ => ""

/-- Reserve for a waiting job; `none` where the reserve still waits for its locks. -/
def authorize (env : LedgerEnv) (task : TaskRow) (execution : ExecutionRow) (job : JobRow) (now : ℤ)
    (clock : List ℤ) (newSpendId : String) : Option (Except HttpError (Committed EnsureResponse)) :=
  match w.authorizationError job clock with
  | some message => some (.ok (w.blockTask task message now))
  | none =>
    let dto := reservePayload task.id execution job s!"{job.jobKey}:day:{Clock.dayText (Clock.tashkentDay now)}"
    (Ledger.reserveCall (w.ledgerEnv env) clock dto (some (w.keyForDay job))).map fun (at_, day, request) => do
      let (response, spends) ← Ledger.reserveAt (w.ledgerEnv env) w.spends at_ day request newSpendId
      { w with spends }.recordAuthorization task job day (w.keyForDay job day) response now

/-- The task, held by the run that calls. -/
def fencedTask (taskId agentName runId executionAttemptId : String) : Except HttpError TaskRow := do
  let task ← w.lockTask taskId
  match fenceConflict task agentName runId executionAttemptId with
  | some conflict => .error (.conflict conflict)
  | none => return task

/-- What an ensure checks before it looks at the execution: the bounded body, and the task. -/
def checkEnsure (env : LedgerEnv) (taskId : String) (input : EnsureDto) : Except HttpError (Json × TaskRow) := do
  let requestPayload ← assertBoundedProviderPayload env.host input.requestPayload
  assertProviderPayload env.host input.kind input.provider input.model input.inputTokenCeiling
    input.outputTokenCeiling requestPayload .new
  Js.require (input.inputTokenCeiling + input.outputTokenCeiling ≤ 100000000)
    (.badRequest "Combined token ceiling exceeds 100000000")
  let task ← w.fencedTask taskId input.agentName input.runId input.executionAttemptId
  return (requestPayload, task)

def ensure (env : LedgerEnv) (taskId : String) (input : EnsureDto) (now : ℤ) (clock : List ℤ)
    (newJobId newSpendId : String) : Option (Except HttpError (Committed EnsureResponse)) :=
  match w.checkEnsure env taskId input with
  | .error e => some (.error e)
  | .ok (requestPayload, task) =>
    match w.ensureGate env.host task input with
    | .error reason => some (.ok (w.blockTask task reason now))
    | .ok execution =>
      match w.ensureJob env.host execution input requestPayload newJobId now with
      | .error e => some (.error e)
      | .ok (.error reason) => some (.ok (w.blockTask task reason now))
      | .ok (.ok (job, w)) =>
        let (job, w) := w.expireDispatchIfNeeded job now
        if job.status ≠ .waitingBudget then some ((w.jobResponse job).map fun answer => (.ok answer, w))
        else w.authorize env task execution job now clock newSpendId

/-! Claim. -/

def claimExecution (host : Js.Host) (task : TaskRow) (input : ClaimDto) : Except String ExecutionRow :=
  match (w.findExecutionByAttempt input.executionAttemptId).filter fun e =>
      e.taskId = task.id && e.agentName = Js.trim input.agentName with
  | none => .error "Durable execution is missing or mismatched"
  | some execution =>
    if execution.status ≠ .active ∨ execution.taskInputHash ≠ durableTaskInputHash host task then
      .error "Execution or task input changed before dispatch"
    else .ok execution

/-- The verified body of a job that may be dispatched, or why the task is blocked. -/
def claimBody (host : Js.Host) (execution : ExecutionRow) (job : JobRow) : Except String (Option Json) :=
  if job.taskAgentExecutionId ≠ execution.id then .error "LLM job belongs to another execution"
  else
    match (storedJobPlanConflict host execution job).or
        (solutionRankSnapshotConflict host execution job.kind job.stepKey job.feature) with
    | some conflict => .error conflict
    | none =>
      if job.status = .ready ∨ job.status = .dispatching then (verifiedStoredPayload host execution job).map some
      else .ok none

/-- The job as a granted dispatch leaves it. -/
def dispatchingJob (job : JobRow) (input : ClaimDto) (now : ℤ) : JobRow :=
  { job with
    status := .dispatching
    dispatchCount := 1
    dispatchToken := some input.dispatchToken
    dispatchRunId := some input.runId
    dispatchGrantedAt := some now
    dispatchDeadlineAt := some (now + DISPATCH_GRANT_MS)
    updatedAt := now }

/-- The dispatch of a ready job, once the ledger has answered the repeated reserve. -/
def grantDispatch (task : TaskRow) (job : JobRow) (spendId requestKey : String) (body : Option Json)
    (input : ClaimDto) (now : ℤ) (response : ReserveResponse) : Except HttpError (Committed ClaimResponse) :=
  match response with
  | .refused _ _ reason _ _ => .ok (w.blockTask task s!"LLM dispatch reauthorization denied: {reason}" now)
  | .allowed _ reservation _ =>
    if reservation.replay = false ∨ reservation.id ≠ spendId ∨ reservation.requestKey ≠ requestKey then
      .ok (w.blockTask task "LLM dispatch reauthorization did not exact-replay the original spend" now)
    else do
      Js.require (job.dispatchCount = 0) (.conflict "Provider dispatch grant was already consumed")
      return (.ok ⟨true, false, .dispatching, job.operationHash, body, none⟩,
        w.writeJob (dispatchingJob job input now))

/-- The first dispatch of a ready job repeats the reserve that authorised it. -/
def dispatchReady (env : LedgerEnv) (task : TaskRow) (execution : ExecutionRow) (job : JobRow)
    (body : Option Json) (input : ClaimDto) (now : ℤ) (clock : List ℤ) (newSpendId : String) :
    Option (Except HttpError (Committed ClaimResponse)) :=
  match job.spendId with
  | none => some (.ok (w.blockTask task "Ready LLM job has no ledger spend" now))
  | some spendId =>
    match Ledger.findSpend w.spends spendId with
    | none => some (.ok (w.blockTask task "Ready LLM job lost its ledger spend" now))
    | some spend =>
      let dto := reservePayload task.id execution job spend.requestKey
      (Ledger.reserveCall (w.ledgerEnv env) clock dto none).map fun (at_, day, request) => do
        let (response, spends) ← Ledger.reserveAt (w.ledgerEnv env) w.spends at_ day request newSpendId
        { w with spends }.grantDispatch task job spendId spend.requestKey body input now response

/-- A claim of a job that has been dispatched before. -/
def claimAgain (job : JobRow) (expiredNow : Bool) (body : Option Json) (input : ClaimDto) :
    Except HttpError (Committed ClaimResponse) :=
  let another := "Provider dispatch was already granted to another token"
  if job.dispatchToken ≠ some input.dispatchToken then
    if expiredNow then .ok (.error another, w) else .error (.conflict another)
  else if job.status = .dispatching then
    .ok (.ok ⟨true, true, .dispatching, job.operationHash, body, none⟩, w)
  else
    (w.resultProperty job).map fun result =>
      (.ok ⟨false, true, job.status, job.operationHash, none, result⟩, w)

/-- The claim of a job, as it is after a possible expiry. -/
def claimJob (env : LedgerEnv) (task : TaskRow) (execution : ExecutionRow) (job : JobRow) (expiredNow : Bool)
    (body : Option Json) (input : ClaimDto) (now : ℤ) (clock : List ℤ) (newSpendId : String) :
    Option (Except HttpError (Committed ClaimResponse)) :=
  match job.status with
  | .succeeded | .rejected | .unknown | .dispatching => some (w.claimAgain job expiredNow body input)
  | .waitingBudget | .cancelled => some (.ok (.ok ⟨false, false, job.status, job.operationHash, none, none⟩, w))
  | .ready => w.dispatchReady env task execution job body input now clock newSpendId

def claimDispatch (env : LedgerEnv) (taskId jobId : String) (input : ClaimDto) (now : ℤ) (clock : List ℤ)
    (newSpendId : String) : Option (Except HttpError (Committed ClaimResponse)) :=
  match w.fencedTask taskId input.agentName input.runId input.executionAttemptId with
  | .error e => some (.error e)
  | .ok task =>
    match w.claimExecution env.host task input with
    | .error reason => some (.ok (w.blockTask task reason now))
    | .ok execution =>
      match w.lockJob jobId with
      | .error e => some (.error e)
      | .ok before =>
        match claimBody env.host execution before with
        | .error reason => some (.ok (w.blockTask task reason now))
        | .ok body =>
          let (job, w) := w.expireDispatchIfNeeded before now
          w.claimJob env task execution job (before.status = .dispatching && job.status = .unknown) body input now
            clock newSpendId

/-! Complete. -/

/-- The job as an ambiguous outcome leaves it. -/
def unknownJob (job : JobRow) (now : ℤ) : JobRow :=
  { job with
    status := .unknown
    requestPayload := none
    unknownAt := some now
    lastError := some "Provider outcome is ambiguous"
    updatedAt := now }

def completeUnknown (job : JobRow) (now : ℤ) : Except HttpError (Committed CompleteResponse) :=
  match job.status with
  | .unknown => .ok (.ok ⟨.unknown, true, none⟩, w)
  | .dispatching => .ok (.ok ⟨.unknown, false, none⟩, w.writeJob (unknownJob job now))
  | status => .error (.conflict s!"LLM job is {status.text}; unknown completion conflicts")

def resultHash (host : Js.Host) (jobId : String) (kind : ResultKind) (payload : Json) : String :=
  (Json.obj [("schemaVersion", num 1), ("jobId", .str jobId), ("kind", .str kind.text),
    ("payload", payload)]).canonicalHash host

/-- The job as its result leaves it. -/
def completedJob (job : JobRow) (kind : ResultKind) (payload : Json) (now : ℤ) : JobRow :=
  { job with
    status := match kind with
      | .success => .succeeded
      | .providerRejection => .rejected
    requestPayload := none
    completedAt := some now
    lastError := match kind with
      | .success => none
      | .providerRejection => some (errorText payload)
    updatedAt := now }

def isTerminal (status : JobStatus) : Bool :=
  status = .succeeded || status = .rejected || status = .cancelled

/-- A task blocked for an unknown outcome is freed once all its jobs are terminal. -/
def unblockTask (host : Js.Host) (task : TaskRow) (execution : ExecutionRow) : World :=
  let jobs := w.jobs.filter (·.taskAgentExecutionId = execution.id)
  if execution.status = .active ∧ task.status = .todo ∧
      task.agentExecutionAttemptId = some execution.executionAttemptId ∧ task.agentExecutionBlockedAt.isSome ∧
      (task.agentExecutionBlockedReason.any fun reason => "execution_unknown:".toList.isPrefixOf reason.toList) ∧
      execution.taskInputHash = durableTaskInputHash host task ∧ jobs ≠ [] ∧
      jobs.all fun job => isTerminal job.status then
    w.writeTask { task with
      status := .todo
      agentExecutionRetryAt := none
      agentExecutionBlockedAt := none
      agentExecutionBlockedReason := none }
  else w

/-- The first result of a dispatched job: stored, settled with the ledger, and final. -/
def storeResult (env : LedgerEnv) (task : TaskRow) (execution : ExecutionRow) (job : JobRow) (kind : ResultKind)
    (payload : Json) (now detectedAt : ℤ) : Except HttpError (Committed CompleteResponse) := do
  Js.require (job.status = .dispatching ∨ job.status = .unknown)
    (.conflict s!"LLM job is {job.status.text}; completion is not accepted")
  let spendId ← Js.orThrow job.spendId (.conflict "Dispatched LLM job has no ledger reservation")
  let created : ResultRow := ⟨job.id, kind, payload, resultHash env.host job.id kind payload, now⟩
  let (_, spends) ← Ledger.settleInTx (w.ledgerEnv env) w.spends detectedAt spendId
    (taskLlmSettlementDto job kind payload) true
  let completed := completedJob job kind payload now
  let after := { w with results := w.results ++ [created], spends }.writeJob completed
  return (.ok ⟨completed.status, false, some (resultView created)⟩, after.unblockTask env.host task execution)

def completeResult (env : LedgerEnv) (task : TaskRow) (execution : ExecutionRow) (job : JobRow)
    (kind : ResultKind) (result : Json) (now detectedAt : ℤ) : Except HttpError (Committed CompleteResponse) := do
  let payload ← normalizeTaskLlmResultPayload env.host job.kind kind result
  match w.findResult job.id with
  | some stored =>
    if stored.kind ≠ kind ∨ stored.resultHash ≠ resultHash env.host job.id kind payload then
      return (.error "LLM job already has different immutable result evidence", w)
    else return (.ok ⟨job.status, true, some (resultView stored)⟩, w)
  | none => w.storeResult env task execution job kind payload now detectedAt

/-- The task, execution and job of a completion by the owner of the dispatch grant. -/
def completionOwner (taskId jobId dispatchToken : String) :
    Except HttpError (TaskRow × ExecutionRow × JobRow) := do
  let job ← w.lockJob jobId
  let task ← w.lockTask taskId
  let execution ← Js.orThrow ((w.findExecution job.taskAgentExecutionId).filter (·.taskId = taskId))
    (.notFound s!"LLM job {jobId} not found")
  Js.require (job.dispatchToken = some dispatchToken ∧ job.dispatchCount = 1)
    (.conflict "Completion does not own the provider dispatch grant")
  return (task, execution, job)

/-- `detectedAt` is the moment that the settlement takes for its own. -/
def complete (env : LedgerEnv) (taskId jobId : String) (input : CompleteDto) (now detectedAt : ℤ) :
    Except HttpError (Committed CompleteResponse) :=
  match input.outcome, input.result with
  | none, some _ => badRequest "unknown completion cannot contain a result"
  | some kind, none => badRequest s!"{kind.text} completion requires result evidence"
  | none, none => do
    let (_, _, job) ← w.completionOwner taskId jobId input.dispatchToken
    w.completeUnknown job now
  | some kind, some result => do
    let (task, execution, job) ← w.completionOwner taskId jobId input.dispatchToken
    w.completeResult env task execution job kind result now detectedAt

end World

end Mydon.Jobs
