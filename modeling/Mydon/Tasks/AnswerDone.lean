import Mydon.Tasks.CommitOnce

/-! The answer of a commit against the row of its task. A replay is answered from the execution alone, so it
says `done` of a task that has been reopened since. -/

namespace Mydon.Tasks

open Mydon.Lib
open Js (Json HttpError)
open Jobs (World TaskRow ExecutionRow JobRow TaskStatus)
open Ledger (LedgerEnv)
open Board

/-- The task of a committed attempt is taken back from done: by a status that is not refused, or by a redo. -/
def Reopens (b : Board) (a : Action) : Prop :=
  ∃ t x, b.world.findTask t.id = some t ∧ t.status = .done ∧ x ∈ b.world.executions ∧ x.taskId = t.id ∧
    x.status = .committed ∧
    ((∃ ledger status actorRef note expected now, a = .setStatus ledger t.id status actorRef note expected now ∧
        status ≠ .done ∧ checkStatus t status (expected.filter (· ≠ "")) = .ok ()) ∨
      ∃ actor now, a = .rate t.id .redo actor now ∧ assertCan actor .tasksConfirm = .ok () ∧
        isManagedOperationalTaskSource t.source = false)

/-- Whenever a commit answers that the task is done, it is. -/
def AnswersDone (env : Env) (steps : List TaskStep) : Prop :=
  ∀ e ∈ steps, ∀ id input ids now result, e.action = .commitAgentRun id input ids now →
    answer env e = .committed result → result.committed = true → result.status = .done →
    ∃ t, e.after.world.findTask id = some t ∧ t.status = .done

/-- The task of a committed execution is done. -/
def Closed (b : Board) : Prop :=
  ∀ x ∈ b.world.executions, x.status = .committed → ∃ t, b.world.findTask x.taskId = some t ∧ t.status = .done

section
variable {env : Env} {b b' : Board} {a : Action} {id : String} {t : TaskRow} {steps : List TaskStep}

theorem ok_of_commit {α : Type} {answer : α → Answer} {x : Except HttpError (α × Board)}
    (h : (commit b answer x).2 ≠ b) : ∃ r, x = .ok r := by
  rcases x with error | r
  · exact absurd rfl h
  · exact ⟨r, rfl⟩

/-- A refused status and a refused redo leave the board as it is. -/
theorem reopens_of_next (hnext : next env b a b') (hne : b' ≠ b) (ht : b.world.findTask t.id = some t)
    (hdone : t.status = .done) {x : ExecutionRow} (hx : x ∈ b.world.executions) (hown : x.taskId = t.id)
    (hst : x.status = .committed)
    (ha : Reopening t.id a) : Reopens b a := by
  refine ⟨t, x, ht, hdone, hx, hown, hst, ?_⟩
  have hlock : b.lockTask t.id = .ok t := Js.orThrow_eq_ok.mpr ht
  unfold next at hnext
  subst hnext
  rcases ha with ⟨ledger, status, actorRef, note, expected, now, rfl, hstatus⟩ | ⟨actor, now, rfl⟩
  · obtain ⟨r, hr⟩ := ok_of_commit hne
    obtain ⟨before, hbefore, hr⟩ := Js.bind_eq_ok.mp hr
    obtain rfl := Except.ok.inj (hlock.symm.trans hbefore)
    obtain ⟨u, hcheck, -⟩ := Js.bind_eq_ok.mp hr
    exact .inl ⟨ledger, status, actorRef, note, expected, now, rfl, hstatus, hcheck⟩
  · obtain ⟨r, hr⟩ := ok_of_commit hne
    obtain ⟨u, hcan, hr⟩ := Js.bind_eq_ok.mp hr
    obtain ⟨before, hbefore, hr⟩ := Js.bind_eq_ok.mp hr
    obtain rfl := Except.ok.inj (hlock.symm.trans hbefore)
    obtain ⟨_, _, hr⟩ := Js.bind_eq_ok.mp hr
    obtain ⟨_, hmanaged, _⟩ := Js.bind_eq_ok.mp hr
    refine .inr ⟨actor, now, rfl, hcan, ?_⟩
    have hnot := Js.require_eq_ok.mp hmanaged
    exact Bool.eq_false_iff.mpr fun hm => hnot ⟨hm, rfl⟩

theorem Closed.next (hclosed : Closed b) (hc : Coherent b) (hnext : next env b a b') (hkept : ¬ Reopens b a) :
    Closed b' := by
  intro x' hx' hst
  rcases (next_effect hnext).execution_of_after hc.toKeyed hx' with ⟨x, hx, hid, hchange⟩ | hinserted
  · by_cases hbefore : x.status = .committed
    · obtain ⟨rfl, -⟩ := hchange.of_committed hbefore
      obtain ⟨t, ht, hdone⟩ := hclosed x' hx hbefore
      have htid : t.id = x'.taskId := Table.key_of_lookup ht
      obtain ⟨t', ht', -, hstays⟩ := (next_effect hnext).taskRow ht
      rcases hstays hdone with hdone' | hreopen
      · exact ⟨t', ht', hdone'⟩
      · by_cases hsame : b' = b
        · exact ⟨t, hsame ▸ ht, hdone⟩
        · rw [← htid] at hreopen ht
          exact absurd (reopens_of_next hnext hsame ht hdone hx htid.symm hbefore hreopen) hkept
    · have hc' := (next_effect hnext).coherent hc
      obtain ⟨result, hstores, -⟩ := stores_of_change hnext hc.toKeyed hc'.toKeyed hx hbefore hx' hchange hst
      obtain ⟨id, input, ids, now, -, hattempt, htogether, -⟩ := hstores.stored hnext
      obtain ⟨y, hy, hyattempt, hown, -⟩ := htogether.execution
      obtain rfl : x = y :=
        Table.eq_of_key_eq hc.attempts hx hy (hchange.key.2.1.symm.trans (hattempt.symm.trans hyattempt.symm))
      obtain ⟨t, -, ht'⟩ := htogether.task
      rw [hchange.key.2.2, hown]
      exact ⟨closedTask t, ht', rfl⟩
  · rcases hinserted.status with ⟨hactive, -⟩ | hready
    · rw [hactive] at hst
      cases hst
    · rw [hready] at hst
      cases hst

/-- What a call answers of an attempt is of its own task. -/
theorem own_of_commitAgentRun {input : AgentRunCommitInput} {ids : CommitIds} {now : ℤ}
    {r : Committed AgentRunCommitResult} (h : b.commitAgentRun env id input ids now = .ok r) :
    (commitPayload input).note ≠ "" ∧ ∃ x, b.world.findExecutionByAttempt input.executionAttemptId = some x ∧
      x.taskId = id ∧ x.agentName = Js.trim input.agentName := by
  unfold Board.commitAgentRun at h
  simp only [Js.bind_eq_ok, Js.orThrow_eq_ok] at h
  obtain ⟨_, hnote, _, _, x, hx, -⟩ := h
  obtain ⟨hx, hown⟩ := Option.filter_eq_some_iff.mp hx
  exact ⟨Js.require_eq_ok.mp hnote, x, hx, of_decide_eq_true hown⟩

/-- The task of the answer is done where every committed execution has its task done. -/
theorem Closed.answer (hclosed : Closed b) (hk : Keyed b) {input : AgentRunCommitInput} {ids : CommitIds} {now : ℤ}
    {result : AgentRunCommitResult} (hanswer : (perform env b (.commitAgentRun id input ids now)).1 = .committed result)
    (hcommitted : result.committed = true) :
    ∃ t, (perform env b (.commitAgentRun id input ids now)).2.world.findTask id = some t ∧ t.status = .done := by
  have hown : ∃ x, b.world.findExecutionByAttempt input.executionAttemptId = some x ∧ x.taskId = id := by
    rcases hr : b.commitAgentRun env id input ids now with error | r
    · simp only [perform, hr, settle] at hanswer
      cases hanswer
    · obtain ⟨-, x, hx, hid, -⟩ := own_of_commitAgentRun hr
      exact ⟨x, hx, hid⟩
  have hstep := commit_step env b id input ids now
  generalize perform env b (.commitAgentRun id input ids now) = r at hstep hanswer ⊢
  obtain ⟨reply, b'⟩ := r
  subst hanswer
  rcases hstep with ⟨x, _, hx, hattempt, hst, -⟩ | ⟨_, _, -, -, ⟨error, herror⟩ | ⟨result', hresult, hrefused⟩⟩ |
    ⟨_, _, -, -, htogether, -⟩
  · obtain ⟨y, hy, hid⟩ := hown
    obtain rfl : x = y := Table.eq_of_key_eq hk.attempts hx (Table.mem_of_lookup hy)
      (hattempt.trans (Table.key_of_lookup hy).symm)
    rw [← hid]
    exact hclosed x hx hst
  · cases herror
  · cases hresult
    rw [hrefused] at hcommitted
    cases hcommitted
  · obtain ⟨t, -, ht⟩ := htogether.task
    exact ⟨closedTask t, ht, rfl⟩

/-- Where no task of a committed attempt is reopened, a commit says `done` of tasks that are done. -/
theorem answersDone_of_kept (h : Run (next env) emptyBoard steps b)
    (hkept : ∀ e ∈ steps, ¬ Reopens e.before e.action) : AnswersDone env steps := by
  intro e he id input ids now result hact hanswer hcommitted _
  obtain ⟨earlier, later, rfl, hbefore, hnext, -⟩ := h.split he
  have hinv : Coherent e.before ∧ Closed e.before := by
    have hstep : ∀ s a s', Coherent s ∧ Closed s → next env s a s' → ¬ Reopens s a → Coherent s' ∧ Closed s' :=
      fun s a s' hinv hnext hkept => ⟨(next_effect hnext).coherent hinv.1, hinv.2.next hinv.1 hnext hkept⟩
    exact @Run.invariant_of _ _ _ _ _ _ (fun s => Coherent s ∧ Closed s) (fun e => ¬ Reopens e.before e.action) hstep
      hbefore ⟨coherent_emptyBoard, List.forall_mem_nil _⟩ fun e he => hkept e (List.mem_append_left _ he)
  obtain ⟨before, action, after⟩ := e
  dsimp only at hact hnext hinv
  subst hact
  unfold next at hnext
  subst hnext
  exact hinv.2.answer hinv.1.toKeyed hanswer hcommitted

/-! A stored commit is repeated. -/

theorem replay_ok (x : ExecutionRow) {c : ExecutionColumns} {hash attempt : String} {outcome : CommitPayload}
    {approvalId deliveryId : Option String} (hhash : c.outcomeHash = some hash)
    (hpayload : c.outcomePayload = some (outcomeJson id attempt outcome approvalId deliveryId)) :
    ∃ result, replayCommittedExecution x c hash = .ok result ∧ result.committed = true ∧ result.status = .done := by
  have hstored : Json.obj (jsonObject c.outcomePayload) = outcomeJson id attempt outcome approvalId deliveryId := by
    rw [hpayload]
    exact obj_jsonObject_canonical _
  have hinput : Json.obj (jsonObject (some outcome.json.canonical)) = outcome.json.canonical :=
    obj_jsonObject_canonical _
  have hnote : Js.orThrow (((Json.obj (jsonObject ((Json.obj (jsonObject c.outcomePayload)).get? "input"))).get?
      "note").bind Json.asString) (.internal "Committed execution не содержит сохранённый resultNote") =
      .ok outcome.note := by
    rw [hstored, get?_outcomeJson.1, hinput, note_canonical]
    rfl
  have hsame : Js.require (c.outcomeHash = some hash)
      (.conflict "Committed execution уже имеет другой outcome payload") = .ok () := Js.require_eq_ok.mpr hhash
  unfold replayCommittedExecution
  dsimp only
  rw [hsame, hnote]
  exact ⟨_, rfl, rfl, rfl⟩

/-- A commit that was stored is answered with `done` again, whatever has become of its task. -/
theorem Stores.repeated {input : AgentRunCommitInput} {ids : CommitIds} {now : ℤ}
    {result : AgentRunCommitResult} {b'' : Board} (hc : Coherent b)
    (h : Stores env ⟨b, .commitAgentRun id input ids now, b'⟩ input.executionAttemptId result)
    (hnext : next env b (.commitAgentRun id input ids now) b') (hrun : Run (next env) b' steps b'')
    (ht : (b''.world.findTask id).isSome) (ids' : CommitIds) (now' : ℤ) :
    ∃ result', perform env b'' (.commitAgentRun id input ids' now') = (.committed result', b'') ∧
      result'.committed = true ∧ result'.status = .done := by
  have hc' : Coherent b' := (next_effect hnext).coherent hc
  have hown : (commitPayload input).note ≠ "" ∧ ∃ x, b.world.findExecutionByAttempt input.executionAttemptId = some x ∧
      x.taskId = id ∧ x.agentName = Js.trim input.agentName := by
    obtain ⟨_, _, _, _, hact, _, hanswer, _⟩ := h
    cases hact
    dsimp only [answer] at hanswer
    rcases hr : b.commitAgentRun env id input ids now with error | r
    · simp only [perform, hr, settle] at hanswer
      cases hanswer
    · exact own_of_commitAgentRun hr
  obtain ⟨hnote, y, hy, hid, hagent⟩ := hown
  obtain ⟨_, _, _, _, hact, _, htogether, _⟩ := h.stored hnext
  cases hact
  obtain ⟨x, hx, hattempt, -, -, -, hx', hcolumns⟩ := htogether.execution
  obtain rfl : x = y := Table.eq_of_key_eq hc.attempts hx (Table.mem_of_lookup hy)
    (hattempt.trans (Table.key_of_lookup hy).symm)
  -- the execution and its columns are kept by every later call
  have hkept : Coherent b'' ∧ { x with status := .committed } ∈ b''.world.executions ∧
      b''.executionColumns x.id = b'.executionColumns x.id := by
    have hstep : ∀ s a s', (Coherent s ∧ { x with status := .committed } ∈ s.world.executions ∧
        s.executionColumns x.id = b'.executionColumns x.id) → next env s a s' →
        Coherent s' ∧ { x with status := .committed } ∈ s'.world.executions ∧
          s'.executionColumns x.id = b'.executionColumns x.id := by
      rintro s a s' ⟨hs, hmem, hsame⟩ hnext'
      obtain ⟨x', hx', hxid, hchange⟩ := (next_effect hnext').execution hs.toKeyed hmem
      obtain ⟨rfl, hcols⟩ := hchange.of_committed rfl
      exact ⟨(next_effect hnext').coherent hs, hx', hcols.trans hsame⟩
    exact @Run.invariant _ _ _ _ _ _ (fun s => Coherent s ∧ { x with status := .committed } ∈ s.world.executions ∧
      s.executionColumns x.id = b'.executionColumns x.id) hstep hrun ⟨hc', hx', rfl⟩
  obtain ⟨hc'', hmem, hsame⟩ := hkept
  obtain ⟨t, ht⟩ := Option.isSome_iff_exists.mp ht
  have hfind : b''.world.findExecutionByAttempt input.executionAttemptId = some { x with status := .committed } :=
    hc''.toKeyed.find.mpr ⟨hmem, hattempt⟩
  rw [hcolumns] at hsame
  have hhash : (b''.executionColumns x.id).outcomeHash = some (outcomeHash env.host id (Js.trim input.agentName)
      input.executionAttemptId (b''.executionColumns x.id) (commitPayload input)) := by
    rw [hsame]
    rfl
  obtain ⟨result', hreplay, hcommitted, hdone⟩ := replay_ok { x with status := .committed } hhash (by rw [hsame]; rfl)
  refine ⟨result', ?_, hcommitted, hdone⟩
  have hcall : b''.commitAgentRun env id input ids' now' = .ok (.ok result', b'') := by
    unfold Board.commitAgentRun
    have hlock : b''.lockTask id = .ok t := Js.orThrow_eq_ok.mpr ht
    have hthere : Js.orThrow ((b''.world.findExecutionByAttempt input.executionAttemptId).filter fun e =>
        e.taskId = id ∧ e.agentName = Js.trim input.agentName) (.conflict "Durable checkpoint этой попытки не найден") =
        .ok { x with status := .committed } := by
      rw [hfind]
      exact Js.orThrow_eq_ok.mpr (Option.filter_eq_some_iff.mpr ⟨rfl, decide_eq_true ⟨hid, hagent⟩⟩)
    refine Js.bind_eq_ok.mpr ⟨(), Js.require_eq_ok.mpr hnote, Js.bind_eq_ok.mpr ⟨t, hlock,
      Js.bind_eq_ok.mpr ⟨_, hthere, ?_⟩⟩⟩
    exact Js.bind_eq_ok.mpr ⟨result', hreplay, rfl⟩
  have hperform : perform env b'' (.commitAgentRun id input ids' now') =
      settle b'' .committed (b''.commitAgentRun env id input ids' now') := rfl
  rw [hperform, hcall]
  rfl

end

theorem answersDone_quietRun : AnswersDone workerEnv (runOf workerEnv emptyBoard quietRun).1 := by
  refine answersDone_of_kept (run_runOf workerEnv emptyBoard quietRun) fun e he => ?_
  have haction := action_mem_of_runActions he
  rintro ⟨t, x, -, -, -, -, -, ⟨_, _, _, _, _, _, heq, -⟩ | ⟨_, _, heq, -⟩⟩ <;> rw [heq] at haction <;>
    simp [quietRun] at haction

def storedCommit : Action := .commitAgentRun "task" quietCommit ⟨"approval-1", "delivery-1"⟩ 3

/-- The owner takes the task back into progress. -/
def takenBack : Action := .setStatus Ledger.sampleEnv "task" .inProgress "owner" none none 4

def repeatedCommit : Action := .commitAgentRun "task" quietCommit ⟨"approval-2", "delivery-2"⟩ 5

/-- A stored commit that is repeated after its task was taken back is answered wrong. -/
theorem not_answersDone_of_takenBack {env : Env} {steps : List TaskStep} {b : Board}
    (hrun : Run (next env) emptyBoard steps b) (hstored : (storedAnswer (perform env b storedCommit).1).isSome = true)
    (hopen : ((perform env (perform env b storedCommit).2 takenBack).2.world.findTask "task").any
      (fun t => t.status = .inProgress) = true) :
    ∃ steps b, Run (next env) emptyBoard steps b ∧ ¬ AnswersDone env steps := by
  obtain ⟨result, hresult⟩ := Option.isSome_iff_exists.mp hstored
  have hnext : next env b storedCommit (perform env b storedCommit).2 := rfl
  generalize (perform env b storedCommit).2 = b' at hopen hnext
  have hstores : Stores env ⟨b, storedCommit, b'⟩ quietCommit.executionAttemptId result :=
    ⟨"task", quietCommit, _, 3, rfl, rfl, eq_of_storedAnswer hresult⟩
  have hnext' : next env b' takenBack (perform env b' takenBack).2 := rfl
  generalize (perform env b' takenBack).2 = b'' at hopen hnext'
  obtain ⟨t, ht⟩ : ∃ t, b''.world.findTask "task" = some t := by
    rcases ht : b''.world.findTask "task" with _ | t
    · rw [ht] at hopen
      cases hopen
    · exact ⟨t, rfl⟩
  obtain ⟨result', hanswer, hcommitted, hdone⟩ := hstores.repeated (coherent_of_run hrun) hnext
    (Run.start.step hnext') (by rw [ht]; rfl) ⟨"approval-2", "delivery-2"⟩ 5
  refine ⟨_, _, ((hrun.step hnext).step hnext').step (a := repeatedCommit) rfl, fun hall => ?_⟩
  obtain ⟨t', ht', hdone'⟩ := hall _ (List.mem_append_right _ (List.mem_singleton_self _)) "task" quietCommit _ 5
    result' rfl (congrArg Prod.fst hanswer) hcommitted hdone
  have hsame : (perform env b'' repeatedCommit).2 = b'' := congrArg Prod.snd hanswer
  rw [hsame, ht] at ht'
  cases ht'
  rw [ht] at hopen
  simp [hdone'] at hopen

/-- The worker repeats its commit, and is told that the task is done, which is in progress again. -/
theorem replay_says_done : ¬ ∀ (env : Env) (steps : List TaskStep) (b : Board), Run (next env) emptyBoard steps b →
    AnswersDone env steps := by
  intro hclaim
  obtain ⟨steps, b, hrun, hnot⟩ := not_answersDone_of_takenBack
    (run_runOf workerEnv emptyBoard (quietRun.take 3)) (by decide +kernel) (by decide +kernel)
  exact hnot (hclaim workerEnv steps b hrun)

end Mydon.Tasks
