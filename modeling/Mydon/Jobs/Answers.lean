import Mydon.Jobs.Moves

/-! What the answers of the job service say of its tables: a result that is shown is stored, and a
granted dispatch carries the body that is stored for the job. A stored body is never replaced. -/

namespace Mydon.Jobs

open Mydon.Lib
open Js (Json HttpError)
open Ledger (LedgerEnv ReserveResponse)

/-- The result is the one that is stored for the job. -/
def StoredFor (w : World) (jobId : String) (result : StoredResult) : Prop :=
  ∃ row ∈ w.results, row.jobId = jobId ∧ result = World.resultView row

section
variable {w w' : World} {env : LedgerEnv} {task : TaskRow} {execution : ExecutionRow} {job : JobRow} {now : ℤ}
  {result : StoredResult}

theorem storedFor_of_resultProperty (h : w.resultProperty job = .ok (some result)) : StoredFor w job.id result := by
  unfold World.resultProperty at h
  split_ifs at h
  · obtain ⟨row, hrow, hview⟩ := Js.map_eq_ok.mp h
    have hfound : w.findResult job.id = some row := Js.orThrow_eq_ok.mp hrow
    exact ⟨row, Table.mem_of_lookup hfound, Table.key_of_lookup hfound, (Option.some.inj hview).symm⟩
  · cases h

theorem storedFor_of_jobResponse {r : EnsureResponse} (h : w.jobResponse job = .ok r) (hr : r.result = some result) :
    StoredFor w r.jobId result := by
  obtain ⟨stored, hstored, rfl⟩ := Js.map_eq_ok.mp h
  dsimp only at hr ⊢
  rw [hr] at hstored
  exact storedFor_of_resultProperty hstored

theorem applyDecision_result {spendId : String} {response : ReserveResponse} {r : Committed EnsureResponse}
    {answer : EnsureResponse} (h : w.applyDecision task job spendId response now = .ok r) (ha : r.1 = .ok answer)
    (hr : answer.result = some result) : StoredFor r.2 answer.jobId result := by
  unfold World.applyDecision at h
  rcases response with ⟨action, reservation, budget⟩ | ⟨status, action, reason, blocked, budget⟩
  · simp only [Js.bind_eq_ok] at h
    obtain ⟨_, _, found, hfound, h⟩ := h
    cases h
    cases ha
    exact storedFor_of_jobResponse hfound hr
  · dsimp only at h
    split_ifs at h
    · cases h
      cases ha
    · cases h
      cases ha
      cases hr

theorem authorize_result {clock : List ℤ} {newSpendId : String} {r : Committed EnsureResponse} {answer : EnsureResponse}
    (h : w.authorize env task execution job now clock newSpendId = some (.ok r)) (ha : r.1 = .ok answer)
    (hr : answer.result = some result) : StoredFor r.2 answer.jobId result := by
  unfold World.authorize at h
  rcases he : w.authorizationError job clock with _ | message
  · simp only [he] at h
    obtain ⟨⟨at_, day, request⟩, _, h⟩ := Option.map_eq_some_iff.mp h
    obtain ⟨⟨response, spends⟩, _, h⟩ := Js.bind_eq_ok.mp h
    unfold World.recordAuthorization at h
    obtain ⟨spend, _, h⟩ := Js.bind_eq_ok.mp h
    split_ifs at h
    · cases h
      cases ha
    · split at h
      · split_ifs at h
        · cases h
          cases ha
        · exact applyDecision_result h ha hr
      · obtain ⟨_, _, h⟩ := Js.bind_eq_ok.mp h
        exact applyDecision_result h ha hr
  · simp only [he, Option.some.injEq, Except.ok.injEq] at h
    subst h
    cases ha

theorem ensure_result {taskId : String} {input : EnsureDto} {clock : List ℤ} {newJobId newSpendId : String}
    {answer : EnsureResponse} (h : w.ensure env taskId input now clock newJobId newSpendId = some (.ok (.ok answer, w')))
    (hr : answer.result = some result) : StoredFor w' answer.jobId result := by
  unfold World.ensure at h
  split at h
  · cases h
  · rename_i requestPayload task _
    rcases hg : w.ensureGate env.host task input with reason | execution
    · simp only [hg] at h
      cases h
    · rcases hj : w.ensureJob env.host execution input requestPayload newJobId now with _ | _ | ⟨job, w₁⟩
      · simp only [hg, hj] at h
        cases h
      · simp only [hg, hj] at h
        cases h
      · simp only [hg, hj] at h
        split_ifs at h
        · obtain ⟨found, hfound, heq⟩ := Js.map_eq_ok.mp (Option.some.inj h)
          cases heq
          exact storedFor_of_jobResponse hfound hr
        · exact authorize_result h rfl hr

theorem mapError_eq_ok {ε ε' α : Type} {f : ε → ε'} {x : Except ε α} {a : α} :
    x.mapError f = .ok a ↔ x = .ok a := by
  rcases x with e | a <;> simp [Except.mapError]

/-- The body that a claim hands out is the stored one, with its keys in order. -/
theorem claimBody_eq_some {host : Js.Host} {body : Json} (h : World.claimBody host execution job = .ok (some body)) :
    ∃ stored, job.requestPayload = some stored ∧ body = stored.canonical := by
  unfold World.claimBody at h
  rw [if_neg (fun hexec => by rw [if_pos hexec] at h; cases h)] at h
  split at h
  · cases h
  · by_cases hst : job.status = .ready ∨ job.status = .dispatching
    · rw [if_pos hst] at h
      obtain ⟨payload, hverified, hbody⟩ := Js.map_eq_ok.mp h
      cases hbody
      unfold verifiedStoredPayload at hverified
      simp only [mapError_eq_ok, Js.bind_eq_ok, Js.orThrow_eq_ok] at hverified
      obtain ⟨stored, hstored, bounded, hbounded, _, _, _, _, hverified⟩ := hverified
      cases hverified
      refine ⟨stored, hstored, ?_⟩
      unfold assertBoundedProviderPayload at hbounded
      split at hbounded
      · simp only [Js.bind_eq_ok] at hbounded
        obtain ⟨_, _, _, _, hbounded⟩ := hbounded
        cases hbounded
        rfl
      · cases hbounded
    · rw [if_neg hst] at h
      cases h

/-- What a claim answers: a stored result, or a grant with the body that is stored. -/
structure ClaimAnswered (w' : World) (jobId : String) (body : Option Json) (answer : ClaimResponse) : Prop where
  result : ∀ result, answer.result = some result → StoredFor w' jobId result
  payload : answer.granted = true → answer.requestPayload = body

theorem grantDispatch_answered {spendId requestKey : String} {body : Option Json} {input : ClaimDto}
    {response : ReserveResponse} {answer : ClaimResponse}
    (h : w.grantDispatch task job spendId requestKey body input now response = .ok (.ok answer, w')) :
    ClaimAnswered w' job.id body answer := by
  unfold World.grantDispatch at h
  rcases response with ⟨action, reservation, budget⟩ | ⟨status, action, reason, blocked, budget⟩
  · dsimp only at h
    split_ifs at h
    · cases h
    · simp only [Js.bind_eq_ok] at h
      obtain ⟨_, _, h⟩ := h
      cases h
      exact ⟨fun _ hr => (by cases hr), fun _ => rfl⟩
  · cases h

theorem claimJob_answered {expiredNow : Bool} {body : Option Json} {input : ClaimDto} {clock : List ℤ}
    {newSpendId : String} {answer : ClaimResponse}
    (h : w.claimJob env task execution job expiredNow body input now clock newSpendId = some (.ok (.ok answer, w'))) :
    ClaimAnswered w' job.id body answer := by
  have hagain : w.claimAgain job expiredNow body input = .ok (.ok answer, w') →
      ClaimAnswered w' job.id body answer := by
    intro h
    unfold World.claimAgain at h
    split_ifs at h
    · cases h
    · cases h
      exact ⟨fun _ hr => (nomatch hr), fun _ => rfl⟩
    · obtain ⟨result, hresult, heq⟩ := Js.map_eq_ok.mp h
      cases heq
      refine ⟨fun shown hr => ?_, fun hg => nomatch hg⟩
      dsimp only at hr
      rw [hr] at hresult
      exact storedFor_of_resultProperty hresult
  have hidle : (.ok (.ok ⟨false, false, job.status, job.operationHash, none, none⟩, w) :
      Except HttpError (Committed ClaimResponse)) = .ok (.ok answer, w') → ClaimAnswered w' job.id body answer := by
    intro h
    cases h
    exact ⟨fun _ hr => (nomatch hr), fun hg => (nomatch hg)⟩
  unfold World.claimJob at h
  rcases hs : job.status with _ | _ | _ | _ | _ | _ | _ <;> simp only [hs, Option.some.injEq] at h hidle
  · exact hidle h
  · unfold World.dispatchReady at h
    rcases hspend : job.spendId with _ | spendId
    · simp only [hspend, Option.some.injEq] at h
      cases h
    · rcases hf : Ledger.findSpend w.spends spendId with _ | spend
      · simp only [hspend, hf, Option.some.injEq] at h
        cases h
      · simp only [hspend, hf] at h
        obtain ⟨⟨at_, day, request⟩, _, h⟩ := Option.map_eq_some_iff.mp h
        obtain ⟨⟨response, spends⟩, _, h⟩ := Js.bind_eq_ok.mp h
        obtain ⟨hresult, hpayload⟩ := grantDispatch_answered h
        exact ⟨hresult, hpayload⟩
  · exact hagain h
  · exact hagain h
  · exact hagain h
  · exact hagain h
  · exact hidle h

theorem claimDispatch_answered {taskId jobId : String} {input : ClaimDto} {clock : List ℤ} {newSpendId : String}
    {answer : ClaimResponse}
    (h : w.claimDispatch env taskId jobId input now clock newSpendId = some (.ok (.ok answer, w'))) :
    (∀ result, answer.result = some result → StoredFor w' jobId result) ∧
      (answer.granted = true → ∀ body, answer.requestPayload = some body →
        ∃ job ∈ w.jobs, job.id = jobId ∧ ∃ stored, job.requestPayload = some stored ∧ body = stored.canonical) := by
  unfold World.claimDispatch at h
  split at h
  · cases h
  · rename_i task _
    rcases hx : w.claimExecution env.host task input with reason | execution
    · simp only [hx] at h
      cases h
    · rcases hj : w.lockJob jobId with _ | before
      · simp only [hx, hj] at h
        cases h
      · have hfind : w.findJob jobId = some before := Js.orThrow_eq_ok.mp hj
        have hm : before ∈ w.jobs := Table.mem_of_lookup hfind
        obtain rfl : before.id = jobId := Table.key_of_lookup hfind
        rcases hb : World.claimBody env.host execution before with reason | body
        · simp only [hx, hj, hb] at h
          cases h
        · simp only [hx, hj, hb] at h
          obtain ⟨hresult, hpayload⟩ := claimJob_answered h
          have hid : (w.expireDispatchIfNeeded before now).1.id = before.id := by
            rcases expireDispatchIfNeeded_cases w before now with he | ⟨_, he⟩ <;> rw [he]
            rfl
          rw [hid] at hresult
          refine ⟨hresult, fun hg sent hsent => ⟨before, hm, rfl, ?_⟩⟩
          rw [hpayload hg] at hsent
          exact claimBody_eq_some (hsent ▸ hb)

theorem complete_result {taskId jobId : String} {input : CompleteDto} {detectedAt : ℤ} {answer : CompleteResponse}
    (h : w.complete env taskId jobId input now detectedAt = .ok (.ok answer, w')) (hr : answer.result = some result) :
    StoredFor w' jobId result := by
  have hunknown : ∀ job : JobRow, w.completeUnknown job now = .ok (.ok answer, w') → False := by
    intro job h
    unfold World.completeUnknown at h
    split at h <;> cases h <;> cases hr
  have hstored : ∀ (task : TaskRow) (execution : ExecutionRow) (job : JobRow) (kind : ResultKind) (body : Json),
      w.completeResult env task execution job kind body now detectedAt = .ok (.ok answer, w') →
        StoredFor w' job.id result := by
    intro task execution job kind body h
    unfold World.completeResult at h
    simp only [Js.bind_eq_ok] at h
    obtain ⟨payload, _, h⟩ := h
    rcases hf : w.findResult job.id with _ | stored
    · simp only [hf] at h
      unfold World.storeResult at h
      simp only [Js.bind_eq_ok] at h
      obtain ⟨_, _, spendId, _, ⟨closed, spends⟩, _, h⟩ := h
      cases h
      cases hr
      refine ⟨⟨job.id, kind, payload, World.resultHash env.host job.id kind payload, now⟩, ?_, rfl, rfl⟩
      have hresults : ∀ w₁ : World, (w₁.unblockTask env.host task execution).results = w₁.results := fun w₁ =>
        congrArg Tables.results (tables_unblockTask env.host)
      rw [hresults]
      exact List.mem_append_right _ (List.mem_singleton_self _)
    · simp only [hf] at h
      split_ifs at h
      · cases h
      · cases h
        cases hr
        exact ⟨stored, Table.mem_of_lookup hf, Table.key_of_lookup hf, rfl⟩
  unfold World.complete at h
  split at h
  · cases h
  · cases h
  · obtain ⟨⟨_, _, job⟩, _, h⟩ := Js.bind_eq_ok.mp h
    exact (hunknown job h).elim
  · obtain ⟨⟨task, execution, job⟩, howner, h⟩ := Js.bind_eq_ok.mp h
    have hid : job.id = jobId := Table.key_of_lookup (completionOwner_eq_ok.mp howner).1
    exact hid ▸ hstored task execution job _ _ h

/-! Bodies. -/

/-- Jobs stay, and their bodies are kept or dropped. -/
def KeepsBodies (w w' : World) : Prop :=
  ∀ job ∈ w.jobs, ∃ job' ∈ w'.jobs, job'.id = job.id ∧
    (job'.requestPayload = none ∨ job'.requestPayload = job.requestPayload)

theorem KeepsBodies.of_jobs_eq (h : w'.jobs = w.jobs) : KeepsBodies w w' := fun job hjob =>
  ⟨job, h ▸ hjob, rfl, .inr rfl⟩

theorem KeepsBodies.trans {w'' : World} (h : KeepsBodies w w') (h' : KeepsBodies w' w'') : KeepsBodies w w'' := by
  intro job hjob
  obtain ⟨job', hjob', hid, hbody⟩ := h job hjob
  obtain ⟨job'', hjob'', hid', hbody'⟩ := h' job' hjob'
  refine ⟨job'', hjob'', hid'.trans hid, ?_⟩
  rcases hbody' with hnone | hsame
  · exact .inl hnone
  · rw [hsame]
    exact hbody

theorem keepsBodies_writeJob (hids : (w.jobs.map JobRow.id).Nodup) {job' : JobRow} (hm : job ∈ w.jobs)
    (hid : job'.id = job.id) (hbody : job'.requestPayload = none ∨ job'.requestPayload = job.requestPayload) :
    KeepsBodies w (w.writeJob job') := by
  intro j hj
  by_cases hsame : j.id = job'.id
  · obtain rfl : j = job := Table.eq_of_key_eq hids hj hm (hsame.trans hid)
    exact ⟨job', Table.mem_write.mpr (.inr ⟨rfl, j, hj, hsame⟩), hid, hbody⟩
  · exact ⟨j, Table.mem_write_of_ne hj hsame, rfl, .inr rfl⟩

theorem Move.keepsBodies (h : Move w w') (hids : (w.jobs.map JobRow.id).Nodup) :
    KeepsBodies w w' ∧ (w'.jobs.map JobRow.id).Nodup := by
  have hwrite : ∀ job' : JobRow, ((w.writeJob job').jobs.map JobRow.id).Nodup := by
    intro job'
    unfold World.writeJob
    rw [Table.map_key_write]
    exact hids
  rcases h with ⟨task, reason, now, _, _⟩ | ⟨task, _, _⟩ | ⟨task, execution, job, _, _, hfresh, _, _⟩ | ⟨job, now, hm, _, _⟩ |
    ⟨job, spendId, now, hm, _⟩ | ⟨task, execution, job, input, now, _, hm, _, _⟩ | ⟨job, now, hm, _⟩ |
    ⟨job, kind, payload, now, result, hm, _⟩ | authorizations | ⟨spends, _⟩
  · exact ⟨.of_jobs_eq rfl, hids⟩
  · exact ⟨.of_jobs_eq rfl, hids⟩
  · exact ⟨fun j hj => ⟨j, List.mem_append_left _ hj, rfl, .inr rfl⟩, Table.nodup_append_singleton hids hfresh⟩
  · exact ⟨keepsBodies_writeJob hids hm rfl (.inl rfl), hwrite _⟩
  · exact ⟨keepsBodies_writeJob hids hm rfl (.inr rfl), hwrite _⟩
  · exact ⟨keepsBodies_writeJob hids hm rfl (.inr rfl), hwrite _⟩
  · exact ⟨keepsBodies_writeJob hids hm rfl (.inl rfl), hwrite _⟩
  · have hkept : KeepsBodies { w with results := w.results ++ [result] }
        ({ w with results := w.results ++ [result] }.writeJob (World.completedJob job kind payload now)) :=
      keepsBodies_writeJob hids hm rfl (.inl rfl)
    exact ⟨hkept, hwrite _⟩
  · exact ⟨.of_jobs_eq rfl, hids⟩
  · exact ⟨.of_jobs_eq rfl, hids⟩

theorem Moved.keepsBodies (h : Moved w w') (hids : (w.jobs.map JobRow.id).Nodup) : KeepsBodies w w' := by
  suffices hboth : KeepsBodies w w' ∧ (w'.jobs.map JobRow.id).Nodup from hboth.1
  induction h with
  | refl => exact ⟨.of_jobs_eq rfl, hids⟩
  | tail _ hmove ih =>
    obtain ⟨hkept, hids'⟩ := hmove.keepsBodies ih.2
    exact ⟨ih.1.trans hkept, hids'⟩

theorem perform_keepsBodies (hids : (w.jobs.map JobRow.id).Nodup) (action : Action) :
    KeepsBodies w (perform w action).2 := by
  have hsame : KeepsBodies w w := .of_jobs_eq rfl
  rcases action with ⟨env, taskId, input, now, clock, newJobId, newSpendId⟩ |
    ⟨env, taskId, jobId, input, now, clock, newSpendId⟩ | ⟨env, taskId, jobId, input, now, detectedAt⟩ | action |
    ⟨tasks, executions⟩ <;> simp only [perform]
  · exact commitIfReady_of hsame fun r hr => (ensure_moved hr).keepsBodies hids
  · exact commitIfReady_of hsame fun r hr => (claimDispatch_moved hr).keepsBodies hids
  · exact commit_of hsame fun r hr => (complete_moved hr).keepsBodies hids
  · exact .of_jobs_eq rfl
  · exact .of_jobs_eq rfl

end

end Mydon.Jobs
