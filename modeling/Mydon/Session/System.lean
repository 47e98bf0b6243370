import Mydon.Session.Model

/-! Any number of sessions over one Core. A call may be lost before its effect or after it, and a
session may stop at any point. -/

namespace Mydon.Session

open Mydon.Lib
open Mydon.Jobs (World JobStatus EnsureResponse ClaimResponse CompleteResponse StoredResult StoredFor Answer ExecutionPlanStep
  Sound KeepsBodies Persists)
open Js (Json HttpError)
open Ledger (LedgerEnv)

/-- A call of the provider. -/
structure Invocation where
  session : ℕ
  jobId : String
  payload : Json

structure System where
  core : World
  sessions : ℕ → Option TaskLlmSession
  invocations : List Invocation

/-- What becomes of a call to Core. -/
inductive Loss
  | none
  | before (error : CallError)
  | after (error : CallError)

inductive Action
  /-- Whatever else happens in Core. -/
  | core (action : Jobs.Action)
  | start (i : ℕ) (fence : TaskLlmFence) (step : ExecutionPlanStep) (route : AttemptRoute)
  | crash (i : ℕ)
  | ensure (i : ℕ) (env : LedgerEnv) (now : ℤ) (clock : List ℤ) (newJobId newSpendId dispatchToken : String) (loss : Loss)
  | claim (i : ℕ) (env : LedgerEnv) (now : ℤ) (clock : List ℤ) (newSpendId : String) (loss : Loss)
  | dispatch (i : ℕ) (host : Js.Host) (reply : Except String (ProviderOutcome × ProviderResult))
  | complete (i : ℕ) (env : LedgerEnv) (now detectedAt : ℤ) (loss : Loss)

def statusCode : HttpError → ℕ
  | .badRequest _ => 400
  | .notFound _ => 404
  | .conflict _ => 409
  | .forbidden _ => 403
  | .internal _ => 500

/-- A call that gets no answer of its kind: Core's error, or a wait that the client gives up. -/
def failure (path : String) : Answer → CallError
  | .failed e => .http (statusCode e) path
  | _ => .other "This operation was aborted"

def ensureReply (path : String) : Answer → Except CallError EnsureResponse
  | .ensured r => .ok r
  | answer => .error (failure path answer)

def claimReply (path : String) : Answer → Except CallError ClaimResponse
  | .claimed r => .ok r
  | answer => .error (failure path answer)

def completeReply (path : String) : Answer → Except CallError CompleteResponse
  | .completed r => .ok r
  | answer => .error (failure path answer)

/-- What the client gets of a call, and what the call leaves of Core. -/
def call {α : Type} (w : World) (action : Jobs.Action) (reply : Answer → Except CallError α) :
    Loss → Except CallError α × World
  | .none => (reply (Jobs.perform w action).1, (Jobs.perform w action).2)
  | .before e => (.error e, w)
  | .after e => (.error e, (Jobs.perform w action).2)

namespace TaskLlmSession

variable (σ : TaskLlmSession) (w : World)

def callEnsure (env : LedgerEnv) (now : ℤ) (clock : List ℤ) (newJobId newSpendId : String) (loss : Loss) :
    Except CallError EnsureResponse × World :=
  call w (.ensure env σ.fence.taskId σ.ensureInput now clock newJobId newSpendId) (ensureReply σ.ensurePath) loss

def callClaim (jobId dispatchToken : String) (env : LedgerEnv) (now : ℤ) (clock : List ℤ) (newSpendId : String)
    (loss : Loss) : Except CallError ClaimResponse × World :=
  call w (.claimDispatch env σ.fence.taskId jobId (σ.claimInput dispatchToken) now clock newSpendId)
    (claimReply (σ.claimPath jobId)) loss

def callComplete (jobId : String) (input : Jobs.CompleteDto) (env : LedgerEnv) (now detectedAt : ℤ) (loss : Loss) :
    Except CallError CompleteResponse × World :=
  call w (.complete env σ.fence.taskId jobId input now detectedAt) (completeReply (σ.completePath jobId)) loss

end TaskLlmSession

namespace System

variable (s : System)

def setSession (i : ℕ) (σ : TaskLlmSession) : System := { s with sessions := Function.update s.sessions i (some σ) }

def setCore (core : World) : System := { s with core }

/-- One action, where it is enabled. -/
def step : Action → Option System
  | .core action => some (s.setCore (Jobs.perform s.core action).2)
  | .start i fence step route =>
    match s.sessions i with
    | none => some (s.setSession i ⟨fence, step, route, none, .ensuring⟩)
    | some _ => none
  | .crash i => (s.sessions i).map fun σ => s.setSession i { σ with phase := .crashed }
  | .ensure i env now clock newJobId newSpendId dispatchToken loss =>
    (s.sessions i).bind fun σ =>
      match σ.phase with
      | .ensuring =>
        let (reply, core) := σ.callEnsure s.core env now clock newJobId newSpendId loss
        some ((s.setCore core).setSession i
          { σ with token := some dispatchToken, phase := σ.ensured dispatchToken reply })
      | _ => none
  | .claim i env now clock newSpendId loss =>
    (s.sessions i).bind fun σ =>
      match σ.phase with
      | .claiming ensured dispatchToken recovery =>
        let (reply, core) := σ.callClaim s.core ensured.jobId dispatchToken env now clock newSpendId loss
        some ((s.setCore core).setSession i { σ with phase := σ.claimed ensured dispatchToken recovery reply })
      | _ => none
  | .dispatch i host reply =>
    (s.sessions i).bind fun σ =>
      match σ.phase with
      | .dispatching jobId dispatchToken payload =>
        some { s.setSession i { σ with phase := TaskLlmSession.answered host jobId dispatchToken reply } with
          invocations := s.invocations ++ [⟨i, jobId, payload⟩] }
      | _ => none
  | .complete i env now detectedAt loss =>
    (s.sessions i).bind fun σ =>
      match σ.phase with
      | .completing jobId input provider recovery =>
        let (reply, core) := σ.callComplete s.core jobId input env now detectedAt loss
        some ((s.setCore core).setSession i { σ with phase := σ.completed jobId input provider recovery reply })
      | _ => none

end System

/-- The random token that a session draws for its dispatch. -/
def Action.draws : Action → Option String
  | .ensure _ _ _ _ _ _ dispatchToken _ => some dispatchToken
  | _ => none

def Enabled (s : System) (a : Action) (s' : System) : Prop := s.step a = some s'

/-- A token is drawn that no session has drawn before. -/
def DrawsFresh (s : System) : Action → Prop
  | .ensure _ _ _ _ _ _ dispatchToken _ => ∀ i σ, s.sessions i = some σ → σ.token ≠ some dispatchToken
  | _ => True

def Next (s : System) (a : Action) (s' : System) : Prop := DrawsFresh s a ∧ Enabled s a s'

/-- Before the first session. -/
structure Fresh (s : System) : Prop where
  core : s.core = Jobs.emptyWorld
  sessions : ∀ i, s.sessions i = none
  invocations : s.invocations = []

/-- What a session gets to see of a job in a step, other than a grant of its own. -/
def observed (s : System) : Action → Option (ℕ × String × JobStatus)
  | .ensure i env now clock newJobId newSpendId _ loss =>
    (s.sessions i).bind fun σ =>
      match (σ.callEnsure s.core env now clock newJobId newSpendId loss).1 with
      | .ok r => some (i, r.jobId, r.status)
      | .error _ => none
  | .claim i env now clock newSpendId loss =>
    (s.sessions i).bind fun σ =>
      match σ.phase with
      | .claiming ensured dispatchToken _ =>
        match (σ.callClaim s.core ensured.jobId dispatchToken env now clock newSpendId loss).1 with
        | .ok r => if r.granted then none else some (i, ensured.jobId, r.status)
        | .error _ => none
      | _ => none
  | _ => none

/-! What a session makes of an answer. -/

section
variable {σ : TaskLlmSession} {dispatchToken jobId : String} {result : Option StoredResult}

theorem terminalResult_eq_some {status : JobStatus} {shown : StoredResult}
    (h : σ.terminalResult status result jobId = .ok (some shown)) :
    result = some shown ∧ (status = .succeeded ∨ status = .rejected) := by
  unfold TaskLlmSession.terminalResult at h
  split at h
  · cases h
  · cases h
  · split_ifs at h
    cases h
    exact ⟨rfl, .inl rfl⟩
  · split_ifs at h
    cases h
    exact ⟨rfl, .inr rfl⟩
  · cases h

/-- A session waits for a claim only of a job that it saw ready. -/
theorem ensured_cases (σ : TaskLlmSession) (dispatchToken : String) (reply : Except CallError EnsureResponse) :
    (∃ e, σ.ensured dispatchToken reply = .threw e) ∨
      (∃ r result, reply = .ok r ∧ r.result = some result ∧ (r.status = .succeeded ∨ r.status = .rejected) ∧
        σ.ensured dispatchToken reply = .returned r.jobId result) ∨
      ∃ r, reply = .ok r ∧ r.status = .ready ∧ σ.ensured dispatchToken reply = .claiming r dispatchToken false := by
  rcases reply with e | r
  · unfold TaskLlmSession.ensured
    split
    · rename_i heq
      cases heq
      split <;> exact .inl ⟨_, rfl⟩
    · rename_i heq
      cases heq
  · unfold TaskLlmSession.ensured
    dsimp only
    split_ifs
    · exact .inl ⟨_, rfl⟩
    · rcases ht : σ.terminalResult r.status r.result r.jobId with e | _ | shown
      · exact .inl ⟨_, rfl⟩
      · dsimp only
        unfold TaskLlmSession.ensuredOpen
        split
        · exact .inl ⟨_, rfl⟩
        · exact .inl ⟨_, rfl⟩
        · exact .inr (.inr ⟨r, rfl, ‹_›, rfl⟩)
        · exact .inl ⟨_, rfl⟩
      · obtain ⟨hr, hstatus⟩ := terminalResult_eq_some ht
        exact .inr (.inl ⟨r, shown, rfl, hr, hstatus, rfl⟩)

/-- A session goes to the provider only with a grant, and with the body of the grant. -/
theorem claimed_cases (σ : TaskLlmSession) (ensured : EnsureResponse) (dispatchToken : String) (recovery : Bool)
    (reply : Except CallError ClaimResponse) :
    (∃ e, σ.claimed ensured dispatchToken recovery reply = .threw e) ∨
      (∃ r result, reply = .ok r ∧ r.result = some result ∧ (r.status = .succeeded ∨ r.status = .rejected) ∧
        σ.claimed ensured dispatchToken recovery reply = .returned ensured.jobId result) ∨
      ((∃ e, reply = .error e) ∧ σ.claimed ensured dispatchToken recovery reply = .claiming ensured dispatchToken true) ∨
      ∃ r payload, reply = .ok r ∧ r.granted = true ∧ r.requestPayload = some payload ∧
        σ.claimed ensured dispatchToken recovery reply = .dispatching ensured.jobId dispatchToken payload := by
  rcases reply with e | r
  · unfold TaskLlmSession.claimed
    dsimp only
    split_ifs
    · exact .inl ⟨_, rfl⟩
    · exact .inl ⟨_, rfl⟩
    · exact .inr (.inr (.inl ⟨⟨e, rfl⟩, rfl⟩))
  · unfold TaskLlmSession.claimed
    dsimp only
    split_ifs
    · exact .inl ⟨_, rfl⟩
    · rcases ht : σ.terminalResult r.status r.result ensured.jobId with e | _ | shown
      · exact .inl ⟨_, rfl⟩
      · dsimp only
        unfold TaskLlmSession.claimedOpen
        split
        · rename_i payload hpayload
          split_ifs with hgranted hhash
          · exact .inl ⟨_, rfl⟩
          · exact .inl ⟨_, rfl⟩
          · rw [not_or, Bool.not_eq_false] at hgranted
            exact .inr (.inr (.inr ⟨r, payload, rfl, hgranted.1, hpayload, rfl⟩))
        · exact .inl ⟨_, rfl⟩
      · obtain ⟨hr, hstatus⟩ := terminalResult_eq_some ht
        exact .inr (.inl ⟨r, shown, rfl, hr, hstatus, rfl⟩)

theorem completed_cases (σ : TaskLlmSession) (jobId : String) (input : Jobs.CompleteDto)
    (provider : Except String ProviderOutcome) (recovery : Bool) (reply : Except CallError CompleteResponse) :
    (∃ e, σ.completed jobId input provider recovery reply = .threw e) ∨
      (∃ r result, reply = .ok r ∧ r.result = some result ∧
        σ.completed jobId input provider recovery reply = .returned jobId result) ∨
      σ.completed jobId input provider recovery reply = .completing jobId input provider true := by
  rcases reply with e | r
  · unfold TaskLlmSession.completed
    dsimp only
    split_ifs
    · exact .inl ⟨_, rfl⟩
    · exact .inl ⟨_, rfl⟩
    · exact .inr (.inr rfl)
  · unfold TaskLlmSession.completed TaskLlmSession.completedWith
    dsimp only
    split
    · exact .inl ⟨_, rfl⟩
    · exact .inl ⟨_, rfl⟩
    · rcases ht : σ.terminalResult r.status r.result jobId with e | _ | shown
      · exact .inl ⟨_, rfl⟩
      · exact .inl ⟨_, rfl⟩
      · exact .inr (.inl ⟨r, shown, rfl, (terminalResult_eq_some ht).1, rfl⟩)

end

/-! What a call does to Core. -/

/-- Core before and after something that may have happened in it. -/
def CoreMove (w w' : World) : Prop := w' = w ∨ ∃ action, w' = (Jobs.perform w action).2

section
variable {w w' : World} {σ : TaskLlmSession} {env : LedgerEnv} {now detectedAt : ℤ} {clock : List ℤ}
  {jobId newJobId newSpendId dispatchToken : String} {loss : Loss}

theorem CoreMove.sound (h : CoreMove w w') (hs : Sound w) : Sound w' := by
  rcases h with rfl | ⟨action, rfl⟩
  · exact hs
  · exact Jobs.sound_next hs rfl

theorem CoreMove.persists (h : CoreMove w w') (hs : Sound w) : Persists w.tables w'.tables := by
  rcases h with rfl | ⟨action, rfl⟩
  · exact .refl _
  · exact Jobs.persists_run (Run.step .start rfl) hs

theorem CoreMove.keepsBodies (h : CoreMove w w') (hs : Sound w) : KeepsBodies w w' := by
  rcases h with rfl | ⟨action, rfl⟩
  · exact .of_jobs_eq rfl
  · exact Jobs.perform_keepsBodies hs.tables.ids action

theorem coreMove_call {α : Type} (action : Jobs.Action) (reply : Answer → Except CallError α) :
    CoreMove w (call w action reply loss).2 := by
  rcases loss with _ | e | e
  · exact .inr ⟨action, rfl⟩
  · exact .inl rfl
  · exact .inr ⟨action, rfl⟩

theorem call_eq_ok {α : Type} {action : Jobs.Action} {reply : Answer → Except CallError α} {a : α}
    (h : (call w action reply loss).1 = .ok a) :
    reply (Jobs.perform w action).1 = .ok a ∧ (call w action reply loss).2 = (Jobs.perform w action).2 := by
  rcases loss with _ | e | e
  · exact ⟨h, rfl⟩
  · cases h
  · cases h

/-- An answer of its kind is what the transaction committed. -/
theorem commit_eq {α : Type} (answer : α → Answer) (reply : Answer → Except CallError α) {r : α}
    (hok : ∀ a, reply (answer a) = .ok a) (hfailed : ∀ e, ∃ e', reply (.failed e) = .error e')
    {x : Except HttpError (Jobs.Committed α)} (h : reply (Jobs.commit w answer x).1 = .ok r) :
    x = .ok (.ok r, (Jobs.commit w answer x).2) := by
  rcases x with e | ⟨reason | a, w₁⟩
  · obtain ⟨e', he⟩ := hfailed e
    rw [show (Jobs.commit w answer (.error e)).1 = .failed e from rfl, he] at h
    cases h
  · obtain ⟨e', he⟩ := hfailed (.conflict reason)
    rw [show (Jobs.commit w answer (.ok (.error reason, w₁))).1 = .failed (.conflict reason) from rfl, he] at h
    cases h
  · rw [show (Jobs.commit w answer (.ok (.ok a, w₁))).1 = answer a from rfl, hok] at h
    cases h
    rfl

theorem commitIfReady_eq {α : Type} (answer : α → Answer) (reply : Answer → Except CallError α) {r : α}
    (hok : ∀ a, reply (answer a) = .ok a) (hfailed : ∀ e, ∃ e', reply (.failed e) = .error e')
    (hwaiting : ∃ e', reply .waiting = .error e') {x : Option (Except HttpError (Jobs.Committed α))}
    (h : reply (Jobs.commitIfReady w answer x).1 = .ok r) : x = some (.ok (.ok r, (Jobs.commitIfReady w answer x).2)) := by
  rcases x with _ | x
  · obtain ⟨e', he⟩ := hwaiting
    rw [show (Jobs.commitIfReady w answer none).1 = .waiting from rfl, he] at h
    cases h
  · exact congrArg some (commit_eq answer reply hok hfailed h)

theorem callEnsure_eq_ok {r : EnsureResponse}
    (h : (σ.callEnsure w env now clock newJobId newSpendId loss).1 = .ok r) :
    w.ensure env σ.fence.taskId σ.ensureInput now clock newJobId newSpendId =
      some (.ok (.ok r, (σ.callEnsure w env now clock newJobId newSpendId loss).2)) := by
  obtain ⟨hreply, hcore⟩ := call_eq_ok h
  unfold TaskLlmSession.callEnsure
  rw [hcore]
  exact commitIfReady_eq .ensured (ensureReply σ.ensurePath) (fun _ => rfl) (fun _ => ⟨_, rfl⟩) ⟨_, rfl⟩ hreply

theorem callClaim_eq_ok {r : ClaimResponse}
    (h : (σ.callClaim w jobId dispatchToken env now clock newSpendId loss).1 = .ok r) :
    w.claimDispatch env σ.fence.taskId jobId (σ.claimInput dispatchToken) now clock newSpendId =
      some (.ok (.ok r, (σ.callClaim w jobId dispatchToken env now clock newSpendId loss).2)) := by
  obtain ⟨hreply, hcore⟩ := call_eq_ok h
  unfold TaskLlmSession.callClaim
  rw [hcore]
  exact commitIfReady_eq .claimed (claimReply (σ.claimPath jobId)) (fun _ => rfl) (fun _ => ⟨_, rfl⟩) ⟨_, rfl⟩ hreply

theorem callComplete_eq_ok {input : Jobs.CompleteDto} {r : CompleteResponse}
    (h : (σ.callComplete w jobId input env now detectedAt loss).1 = .ok r) :
    w.complete env σ.fence.taskId jobId input now detectedAt =
      .ok (.ok r, (σ.callComplete w jobId input env now detectedAt loss).2) := by
  obtain ⟨hreply, hcore⟩ := call_eq_ok h
  unfold TaskLlmSession.callComplete
  rw [hcore]
  exact commit_eq .completed (completeReply (σ.completePath jobId)) (fun _ => rfl) (fun _ => ⟨_, rfl⟩) hreply

/-- The dispatch of the job was granted to the token. -/
def GrantedTo (w : World) (jobId dispatchToken : String) : Prop :=
  ∃ job ∈ w.jobs, job.id = jobId ∧ job.status.isDispatched = true ∧ job.dispatchToken = some dispatchToken

theorem GrantedTo.move (h : GrantedTo w jobId dispatchToken) (hmove : CoreMove w w') (hs : Sound w) :
    GrantedTo w' jobId dispatchToken := by
  obtain ⟨job, hjob, hid, hdispatched, htoken⟩ := h
  obtain ⟨job', hjob', hf⟩ := (hmove.persists hs).jobs job hjob
  obtain ⟨hdispatched', htoken'⟩ := hf.dispatched hdispatched
  exact ⟨job', hjob', hf.same.id.trans hid, hdispatched', htoken'.trans htoken⟩

theorem StoredFor.move {result : StoredResult} (h : StoredFor w jobId result) (hmove : CoreMove w w') (hs : Sound w) :
    StoredFor w' jobId result := by
  obtain ⟨row, hrow, hid, hview⟩ := h
  exact ⟨row, (hmove.persists hs).results row hrow, hid, hview⟩

/-- A job is granted to one token. -/
theorem GrantedTo.token_eq {dispatchToken' : String} (h : GrantedTo w jobId dispatchToken)
    (h' : GrantedTo w jobId dispatchToken') (hs : Sound w) : dispatchToken = dispatchToken' := by
  obtain ⟨job, hjob, hid, _, htoken⟩ := h
  obtain ⟨job', hjob', hid', _, htoken'⟩ := h'
  obtain rfl : job = job' := Table.eq_of_key_eq hs.tables.ids hjob hjob' (hid.trans hid'.symm)
  exact Option.some.inj (htoken.symm.trans htoken')

theorem callClaim_granted {r : ClaimResponse}
    (h : (σ.callClaim w jobId dispatchToken env now clock newSpendId loss).1 = .ok r) (hg : r.granted = true) :
    GrantedTo (σ.callClaim w jobId dispatchToken env now clock newSpendId loss).2 jobId dispatchToken := by
  obtain ⟨_, _, hgrant⟩ := Jobs.claimDispatch_eq_some (callClaim_eq_ok h)
  obtain ⟨job, hjob, hid, hstatus, htoken⟩ := (hgrant r rfl hg).1.after
  exact ⟨job, hjob, hid, by rw [hstatus]; rfl, htoken⟩

end

end Mydon.Session
