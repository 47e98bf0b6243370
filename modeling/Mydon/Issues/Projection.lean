import Mydon.Lib.Matching
import Mydon.Lib.Run
import Mydon.Tasks.Model

/-! Operational issues: what a scan observes, kept as one issue and one task for each identity. The
services that project their reports onto the task board share this lifecycle. -/

namespace Mydon.Issues

open Mydon.Lib
open Js (Json HttpError)
open Lib.Matching (Plan Rules)
open Jobs (TaskStatus OwnerKind)
open Tasks (EventRow Quality)

inductive IssueStatus
  | «open»
  | resolved
  deriving DecidableEq

/-- A row of `operational_issue`; `K` are the kinds that the service projects. -/
structure IssueRow (K : Type) where
  id : String
  kind : K
  fingerprint : String
  scopeDate : String
  scopeKey : String
  status : IssueStatus
  episode : ℕ
  taskId : String
  payload : Json
  firstSeenAt : ℤ
  lastSeenAt : ℤ
  resolvedAt : Option ℤ

/-- A row of `task`, with the columns that close it. -/
structure TaskRow extends Jobs.TaskRow where
  clientKey : Option String
  completedAt : Option ℤ
  closedBy : Option String
  confirmedAt : Option ℤ
  confirmedBy : Option String
  resultNote : Option String
  quality : Option Quality
  remindedAt : Option ℤ
  redoNotifiedAt : Option ℤ
  assignNotifiedAt : Option ℤ

structure Observation (K α : Type) where
  kind : K
  fingerprint : String
  scopeDate : String
  scopeKey : String
  serial : String
  items : List α
  payload : Json

structure ExistingIssue (K : Type) where
  id : String
  taskId : String
  taskTitle : String
  kind : K
  fingerprint : String
  scopeKey : String
  status : IssueStatus
  episode : ℕ
  taskStatus : TaskStatus
  taskOwnerKind : OwnerKind
  taskOwnerRef : Option String
  payload : Json

namespace ExistingIssue

variable {K : Type} (e : ExistingIssue K)

def isOpen : Bool := e.status = .open

/-- The issue was resolved, or its task closed by hand. -/
def isOver : Bool := e.status = .resolved || e.taskStatus = .done || e.taskStatus = .cancelled

end ExistingIssue

structure TransitionEventItem (K : Type) where
  title : String
  taskId : String
  kind : K
  fingerprint : String
  episode : ℕ

structure Presentation where
  title : String
  description : String
  entityId : Option String

/-- `MachineIndex`: names and first cards by canonical serial. -/
structure MachineIndex where
  nameBySerial : String → Option String
  firstIdBySerial : String → Option String

structure ReconcileResult where
  observed : ℕ
  created : ℕ
  reopened : ℕ
  resolved : ℕ
  unchanged : ℕ
  retained : ℕ
  staleSkipped : Bool

/-- The tables of one projection, with its watermark. -/
structure Desk (K : Type) where
  issues : List (IssueRow K)
  tasks : List TaskRow
  events : List EventRow
  watermark : Option ℤ

/-- What a service says of its own: texts, keys and the outcome of a resolution. -/
structure Wording (K α ρ : Type) where
  source : String
  openedEvent : String
  resolvedEvent : String
  present : Observation K α → Presentation
  clientKey : Observation K α → String
  /-- The key of a task that is refreshed or reopened. -/
  keptKey : Observation K α → Option String → Option String
  reopenOwner : ExistingIssue K → Option String
  resultNote : ρ → String
  identity : TransitionEventItem K → String
  itemJson : TransitionEventItem K → Json
  itemLE : TransitionEventItem K → TransitionEventItem K → Bool

/-- The random ids of the rows that a call inserts, by the identity that they are for. -/
structure NewIds (K : Type) where
  taskId : K → String → String
  issueId : K → String → String

variable {K α ρ : Type}

/-! Rows. -/

def createdTask (w : Wording K α ρ) (o : Observation K α) (taskId : String) (due : ℤ) : TaskRow where
  id := taskId
  title := (w.present o).title
  description := some (w.present o).description
  ownerKind := .human
  ownerRef := none
  domain := some "vendhub"
  entityId := (w.present o).entityId
  priority := "high"
  due := some due
  source := some w.source
  createdBy := some w.source
  agentSkill := none
  runOptions := none
  status := .todo
  agentRunId := none
  agentRunClaimedAt := none
  agentExecutionAttemptId := none
  agentExecutionRetryAt := none
  agentExecutionBlockedAt := none
  agentExecutionBlockedReason := none
  clientKey := some (w.clientKey o)
  completedAt := none
  closedBy := none
  confirmedAt := none
  confirmedBy := none
  resultNote := none
  quality := none
  remindedAt := none
  redoNotifiedAt := none
  assignNotifiedAt := none

def createdIssue (o : Observation K α) (issueId taskId : String) (now : ℤ) : IssueRow K where
  id := issueId
  kind := o.kind
  fingerprint := o.fingerprint
  scopeDate := o.scopeDate
  scopeKey := o.scopeKey
  status := .open
  episode := 1
  taskId
  payload := o.payload
  firstSeenAt := now
  lastSeenAt := now
  resolvedAt := none

def refreshedIssue (o : Observation K α) (now : ℤ) (row : IssueRow K) : IssueRow K :=
  { row with
    scopeDate := o.scopeDate
    scopeKey := o.scopeKey
    payload := o.payload
    lastSeenAt := now }

def refreshedTask (w : Wording K α ρ) (o : Observation K α) (row : TaskRow) : TaskRow :=
  { row with
    title := (w.present o).title
    description := some (w.present o).description
    domain := some "vendhub"
    entityId := (w.present o).entityId
    priority := "high"
    source := some w.source
    createdBy := some w.source
    clientKey := w.keptKey o row.clientKey }

/-- `episode` is the one after the episode that was read. -/
def reopenedIssue (o : Observation K α) (episode : ℕ) (now : ℤ) (row : IssueRow K) : IssueRow K :=
  { row with
    status := .open
    episode
    scopeDate := o.scopeDate
    scopeKey := o.scopeKey
    payload := o.payload
    lastSeenAt := now
    resolvedAt := none }

def reopenedTask (w : Wording K α ρ) (o : Observation K α) (ownerRef : Option String) (due : ℤ) (row : TaskRow) :
    TaskRow :=
  { row with
    title := (w.present o).title
    description := some (w.present o).description
    ownerKind := .human
    ownerRef
    agentRunId := none
    agentExecutionAttemptId := none
    agentExecutionRetryAt := none
    agentExecutionBlockedAt := none
    agentExecutionBlockedReason := none
    agentRunClaimedAt := none
    domain := some "vendhub"
    entityId := (w.present o).entityId
    status := .todo
    priority := "high"
    due := some due
    source := some w.source
    createdBy := some w.source
    clientKey := w.keptKey o row.clientKey
    completedAt := none
    closedBy := none
    confirmedAt := none
    confirmedBy := none
    resultNote := none
    quality := none
    remindedAt := none
    redoNotifiedAt := none
    assignNotifiedAt := none }

def resolvedIssue (now : ℤ) (row : IssueRow K) : IssueRow K :=
  { row with
    status := .resolved
    resolvedAt := some now }

def resolvedTask (w : Wording K α ρ) (outcome : ρ) (now : ℤ) (row : TaskRow) : TaskRow :=
  { row with
    status := .done
    completedAt := some now
    closedBy := some s!"system:{w.source}"
    confirmedAt := some now
    confirmedBy := some s!"system:{w.source}"
    resultNote := some (w.resultNote outcome)
    quality := some .accepted }

/-- The day after today at ten, Tashkent time. -/
def issueDue (now : ℤ) : ℤ := Clock.tashkentDayStartOf now + 34 * 3600000

/-- The items that a payload holds, of those that can be read. -/
def payloadItems (read : Json → Option α) (payload : Json) : List α :=
  match payload.get? "items" with
  | some (.arr items) => items.filterMap read
  | _ => []

/-! Events. -/

def EVENT_SAMPLE_LIMIT : ℕ := 20

/-- What the items of an event are, in one order. -/
def transitionIdentity (identity : TransitionEventItem K → String) (items : List (TransitionEventItem K)) : String :=
  String.intercalate "|" ((items.map identity).insertionSort fun a b => Js.before b a = false)

def transitionEventKey (host : Js.Host) (source : String) (identity : TransitionEventItem K → String) (type : String)
    (items : List (TransitionEventItem K)) : String :=
  s!"{source}:{type}:{host.sha256 (transitionIdentity identity items)}"

def transitionEventPayload (w : Wording K α ρ) (items : List (TransitionEventItem K)) (reopened : Option ℕ) : Json :=
  let sorted := items.insertionSort fun a b => w.itemLE a b = true
  .obj ([("count", .num sorted.length)] ++ Ledger.entry "reopened" (fun n => .num (n : ℕ)) reopened ++
    [("items", .arr ((sorted.take EVENT_SAMPLE_LIMIT).map w.itemJson)),
      ("omitted", .num (sorted.length - EVENT_SAMPLE_LIMIT : ℕ))])

namespace Desk

variable (d : Desk K)

/-- The issues that the call reads, each with its task. -/
def existing (relevant : IssueRow K → Bool) : List (ExistingIssue K) :=
  (d.issues.filter relevant).filterMap fun i => (d.tasks.find? (·.id = i.taskId)).map fun t => {
    id := i.id
    taskId := i.taskId
    taskTitle := t.title
    kind := i.kind
    fingerprint := i.fingerprint
    scopeKey := i.scopeKey
    status := i.status
    episode := i.episode
    taskStatus := t.status
    taskOwnerKind := t.ownerKind
    taskOwnerRef := t.ownerRef
    payload := i.payload }

/-- A task and its issue, under the unique keys of their tables. -/
def create [DecidableEq K] (w : Wording K α ρ) (ids : NewIds K) (now : ℤ) (o : Observation K α) : Except HttpError (Desk K) := do
  let taskId := ids.taskId o.kind o.fingerprint
  let issueId := ids.issueId o.kind o.fingerprint
  Js.require (∀ t ∈ d.tasks, t.id ≠ taskId ∧ t.clientKey ≠ some (w.clientKey o))
    (.internal "duplicate key value: task_client_key")
  Js.require (∀ i ∈ d.issues, i.id ≠ issueId ∧ ¬ (i.kind = o.kind ∧ i.fingerprint = o.fingerprint) ∧ i.taskId ≠ taskId)
    (.internal "duplicate key value: operational_issue_kind_fingerprint_key")
  return { d with
    tasks := d.tasks ++ [createdTask w o taskId (issueDue now)]
    issues := d.issues ++ [createdIssue o issueId taskId now] }

def updateBoth (issueId taskId : String) (f : IssueRow K → IssueRow K) (g : TaskRow → TaskRow) : Desk K :=
  { d with
    issues := Table.update IssueRow.id d.issues issueId f
    tasks := Table.update (fun t : TaskRow => t.id) d.tasks taskId g }

def refresh (w : Wording K α ρ) (now : ℤ) (t : ExistingIssue K × Observation K α) : Desk K :=
  d.updateBoth t.1.id t.1.taskId (refreshedIssue t.2 now) (refreshedTask w t.2)

def reopen (w : Wording K α ρ) (now : ℤ) (t : ExistingIssue K × Observation K α) : Desk K :=
  d.updateBoth t.1.id t.1.taskId (reopenedIssue t.2 (t.1.episode + 1) now)
    (reopenedTask w t.2 (w.reopenOwner t.1) (issueDue now))

def resolve (w : Wording K α ρ) (now : ℤ) (t : ExistingIssue K × ρ) : Desk K :=
  d.updateBoth t.1.id t.1.taskId (resolvedIssue now) (resolvedTask w t.2 now)

end Desk

/-- What is announced as opened. -/
def openedItems (w : Wording K α ρ) (ids : NewIds K) (p : Plan (Observation K α) (ExistingIssue K) ρ) :
    List (TransitionEventItem K) :=
  p.create.map (fun o => ⟨(w.present o).title, ids.taskId o.kind o.fingerprint, o.kind, o.fingerprint, 1⟩) ++
    p.reopen.map fun t => ⟨(w.present t.2).title, t.1.taskId, t.2.kind, t.1.fingerprint, t.1.episode + 1⟩

def resolvedItems (p : Plan (Observation K α) (ExistingIssue K) ρ) : List (TransitionEventItem K) :=
  p.resolve.map fun t => ⟨t.1.taskTitle, t.1.taskId, t.1.kind, t.1.fingerprint, t.1.episode⟩

def openedEventRow (host : Js.Host) (w : Wording K α ρ) (items : List (TransitionEventItem K)) (reopened : ℕ)
    (occurredAt : ℤ) : Option EventRow :=
  if items.isEmpty then none
  else
    some ⟨w.source, w.openedEvent, transitionEventPayload w items (some reopened),
      some (transitionEventKey host w.source w.identity w.openedEvent items), occurredAt⟩

def resolvedEventRow (host : Js.Host) (w : Wording K α ρ) (items : List (TransitionEventItem K)) (occurredAt : ℤ) :
    Option EventRow :=
  if items.isEmpty then none
  else
    some ⟨w.source, w.resolvedEvent, transitionEventPayload w items none,
      some (transitionEventKey host w.source w.identity w.resolvedEvent items), occurredAt⟩

/-- An event whose key is already there is not inserted again. -/
def insertEvent (events : List EventRow) : Option EventRow → List EventRow
  | none => events
  | some row => if events.any (·.clientKey = row.clientKey) then events else events ++ [row]

namespace Desk

variable (d : Desk K)

/-- The plan, carried out on the rows. -/
def carryOut [DecidableEq K] (w : Wording K α ρ) (ids : NewIds K) (now : ℤ) (p : Plan (Observation K α) (ExistingIssue K) ρ) :
    Except HttpError (Desk K) := do
  let created ← p.create.foldlM (fun d o => d.create w ids now o) d
  let refreshed := p.refresh.foldl (fun d t => d.refresh w now t) created
  let reopened := p.reopen.foldl (fun d t => d.reopen w now t) refreshed
  return p.resolve.foldl (fun d t => d.resolve w now t) reopened

/-- One call of the projection. A scan that is not later than the last accepted one is skipped. -/
def reconcile [DecidableEq K] (host : Js.Host) (w : Wording K α ρ) (observed : ℕ)
    (plan : List (ExistingIssue K) → Plan (Observation K α) (ExistingIssue K) ρ) (relevant : IssueRow K → Bool)
    (ids : NewIds K) (now occurredAt : ℤ) : Except HttpError (ReconcileResult × Desk K) :=
  if d.watermark.any (now ≤ ·) then .ok (⟨observed, 0, 0, 0, 0, 0, true⟩, d)
  else do
    let p := plan (d.existing relevant)
    let carried ← d.carryOut w ids now p
    let opened := insertEvent carried.events (openedEventRow host w (openedItems w ids p) p.reopen.length occurredAt)
    let events := insertEvent opened (resolvedEventRow host w (resolvedItems p) occurredAt)
    return (⟨observed, p.create.length, p.reopen.length, p.resolve.length, p.refresh.length,
      p.retained.length, false⟩, { carried with events, watermark := some now })

end Desk

end Mydon.Issues
