import Mydon.Jobs.Runs
import Mydon.Tasks.Commit
import Mydon.Tasks.Owner

/-! Runs of the task service: the calls of workers, of people and of the LLM jobs, in any
order. What a call can do to the tables is said once, as `Effect`. -/

namespace Mydon.Tasks

open Mydon.Lib
open Js (Json HttpError)
open Jobs (World TaskRow ExecutionRow JobRow TaskStatus durableTaskInputHash)
open Ledger (LedgerEnv)

/-- The calls of the LLM job service. -/
inductive JobCall
  | ensure (ledger : LedgerEnv) (taskId : String) (input : Jobs.EnsureDto) (now : ℤ) (clock : List ℤ)
    (newJobId newSpendId : String)
  | claimDispatch (ledger : LedgerEnv) (taskId jobId : String) (input : Jobs.ClaimDto) (now : ℤ) (clock : List ℤ)
    (newSpendId : String)
  | complete (ledger : LedgerEnv) (taskId jobId : String) (input : Jobs.CompleteDto) (now detectedAt : ℤ)

def JobCall.action : JobCall → Jobs.Action
  | .ensure ledger taskId input now clock newJobId newSpendId =>
    .ensure ledger taskId input now clock newJobId newSpendId
  | .claimDispatch ledger taskId jobId input now clock newSpendId =>
    .claimDispatch ledger taskId jobId input now clock newSpendId
  | .complete ledger taskId jobId input now detectedAt => .complete ledger taskId jobId input now detectedAt

def JobCall.now : JobCall → ℤ
  | .ensure _ _ _ now _ _ _ => now
  | .claimDispatch _ _ _ _ now _ _ => now
  | .complete _ _ _ _ now _ => now

inductive Action
  | createTask (row : TaskRow) (now : ℤ)
  | claimAgentRun (id agentName : String) (now : ℤ) (invocation : Invocation) (runId newAttemptId : String)
  | heartbeatAgentRun (id agentName runId : String) (now : ℤ)
  | startAgentRun (id : String) (input : AgentRunStartInput) (now createdAt : ℤ) (newExecutionId : String)
  | ensureAgentRunInputSnapshot (id : String) (input : AgentRunInputSnapshotInput) (now : ℤ)
  | checkpointAgentRun (id : String) (input : AgentRunCheckpointInput) (now createdAt : ℤ) (newExecutionId : String)
  | commitAgentRun (id : String) (input : AgentRunCommitInput) (ids : CommitIds) (now : ℤ)
  | releaseAgentRun (id agentName runId executionAttemptId : String) (reason : Option ReleaseReason)
    (detail : Option String) (now : ℤ)
  | retryBlockedAgentExecution (ledger : LedgerEnv) (id : String) (now : ℤ)
  | setStatus (ledger : LedgerEnv) (id : String) (status : TaskStatus) (actorRef : String)
    (resultNote expectedAgentRunId : Option String) (now : ℤ)
  | edit (id : String) (patch : EditPatch) (actor : Actor) (before : TaskRow) (now : ℤ)
  | rate (id : String) (quality : Quality) (actor : Actor) (now : ℤ)
  | jobs (call : JobCall)

def Action.now : Action → ℤ
  | .createTask _ now => now
  | .claimAgentRun _ _ now _ _ _ => now
  | .heartbeatAgentRun _ _ _ now => now
  | .startAgentRun _ _ now _ _ => now
  | .ensureAgentRunInputSnapshot _ _ now => now
  | .checkpointAgentRun _ _ now _ _ => now
  | .commitAgentRun _ _ _ now => now
  | .releaseAgentRun _ _ _ _ _ _ now => now
  | .retryBlockedAgentExecution _ _ now => now
  | .setStatus _ _ _ _ _ _ now => now
  | .edit _ _ _ _ now => now
  | .rate _ _ _ now => now
  | .jobs call => call.now

inductive Answer
  | failed (error : HttpError)
  | created
  | claimed (run : Option ClaimedAgentRun)
  | renewed (renewed : Bool)
  | started (result : AgentRunStartResult)
  | snapshotted (result : AgentRunInputSnapshotResult)
  | checkpointed (result : AgentRunCheckpointResult)
  | committed (result : AgentRunCommitResult)
  | released (row : Option TaskRow)
  | task (row : TaskRow)
  | jobs (answer : Jobs.Answer)

/-- A task as its row is first inserted: no run, no attempt. -/
def newTask (row : TaskRow) : TaskRow :=
  { row with
    status := .todo
    agentRunId := none
    agentRunClaimedAt := none
    agentExecutionAttemptId := none
    agentExecutionRetryAt := none
    agentExecutionBlockedAt := none
    agentExecutionBlockedReason := none }

namespace Board

variable (b : Board)

def createTask (row : TaskRow) : Except HttpError Board := do
  Js.require (∀ t ∈ b.world.tasks, t.id ≠ row.id) (.internal "duplicate key value: task_pkey")
  return { b with world := { b.world with tasks := b.world.tasks ++ [newTask row] } }

end Board

/-- A transaction that throws is rolled back; a durable conflict is committed and then reported. -/
def settle {α : Type} (b : Board) (answer : α → Answer) : Except HttpError (Committed α) → Answer × Board
  | .ok (.ok a, b') => (answer a, b')
  | .ok (.error reason, b') => (.failed (.conflict reason), b')
  | .error e => (.failed e, b)

/-- A transaction that knows no durable conflict. -/
def commit {α : Type} (b : Board) (answer : α → Answer) : Except HttpError (α × Board) → Answer × Board
  | .ok (a, b') => (answer a, b')
  | .error e => (.failed e, b)

def perform (env : Env) (b : Board) : Action → Answer × Board
  | .createTask row _ => commit b (fun _ => .created) ((b.createTask row).map fun b' => ((), b'))
  | .claimAgentRun id agentName now invocation runId newAttemptId =>
    settle b .claimed (.ok (b.claimAgentRun env id agentName now invocation runId newAttemptId))
  | .heartbeatAgentRun id agentName runId now =>
    let (renewed, b') := b.heartbeatAgentRun id agentName runId now
    (.renewed renewed, b')
  | .startAgentRun id input now createdAt newExecutionId =>
    settle b .started (b.startAgentRun env id input now createdAt newExecutionId)
  | .ensureAgentRunInputSnapshot id input now => settle b .snapshotted (b.ensureAgentRunInputSnapshot env id input now)
  | .checkpointAgentRun id input now createdAt newExecutionId =>
    settle b .checkpointed (b.checkpointAgentRun env id input now createdAt newExecutionId)
  | .commitAgentRun id input ids now => settle b .committed (b.commitAgentRun env id input ids now)
  | .releaseAgentRun id agentName runId executionAttemptId reason detail now =>
    settle b .released (b.releaseAgentRun id agentName runId executionAttemptId reason detail now)
  | .retryBlockedAgentExecution ledger id now => commit b .task (b.retryBlockedAgentExecution env ledger id now)
  | .setStatus ledger id status actorRef resultNote expectedAgentRunId now =>
    commit b .task (b.setStatus ledger id status actorRef resultNote expectedAgentRunId now)
  | .edit id patch actor before now => commit b .task (b.edit id patch actor before now)
  | .rate id quality actor now => commit b .task (b.rate id quality actor now)
  | .jobs call =>
    let (answer, world) := Jobs.perform b.world call.action
    (.jobs answer, { b with world })

def next (env : Env) (b : Board) (action : Action) (b' : Board) : Prop := b' = (perform env b action).2

abbrev TaskStep := Step Board Action

def answer (env : Env) (e : TaskStep) : Answer := (perform env e.before e.action).1

def emptyBoard : Board := ⟨Jobs.emptyWorld, fun _ => {}, fun _ => {}, [], [], []⟩

/-- The run that a list of actions takes from a board. -/
def runOf (env : Env) (b : Board) (actions : List Action) : List TaskStep × Board :=
  runActions (fun b a => (perform env b a).2) b actions

theorem run_runOf (env : Env) (b : Board) (actions : List Action) :
    Run (next env) b (runOf env b actions).1 (runOf env b actions).2 := run_runActions _ b actions

end Mydon.Tasks
