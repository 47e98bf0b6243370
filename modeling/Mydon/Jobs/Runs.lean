import Mydon.Jobs.Lifecycle
import Mydon.Ledger.Runs

/-! Runs of the job service: its three operations, the ledger's own operations, and
changes of tasks and executions by others, in any order. Each step is a sequence of
lifecycle changes. -/

namespace Mydon.Jobs

open Mydon.Lib
open Js (Json HttpError)
open Ledger (LedgerEnv ReserveResponse)

inductive Action
  | ensure (env : LedgerEnv) (taskId : String) (input : EnsureDto) (now : ℤ) (clock : List ℤ)
    (newJobId newSpendId : String)
  | claimDispatch (env : LedgerEnv) (taskId jobId : String) (input : ClaimDto) (now : ℤ) (clock : List ℤ)
    (newSpendId : String)
  | complete (env : LedgerEnv) (taskId jobId : String) (input : CompleteDto) (now detectedAt : ℤ)
  | ledger (action : Ledger.Action)
  | others (tasks : List TaskRow) (executions : List ExecutionRow)

inductive Answer
  | waiting
  | failed (error : HttpError)
  | ensured (response : EnsureResponse)
  | claimed (response : ClaimResponse)
  | completed (response : CompleteResponse)
  | ledger (answer : Ledger.Answer)
  | done

/-- A transaction that throws is rolled back; a durable conflict is committed and then reported. -/
def commit {α : Type} (w : World) (answer : α → Answer) : Except HttpError (Committed α) → Answer × World
  | .ok (.ok a, w') => (answer a, w')
  | .ok (.error reason, w') => (.failed (.conflict reason), w')
  | .error e => (.failed e, w)

def commitIfReady {α : Type} (w : World) (answer : α → Answer) :
    Option (Except HttpError (Committed α)) → Answer × World
  | some result => commit w answer result
  | none => (.waiting, w)

/-- The ledger sees the task jobs of the world. -/
def linkAction (w : World) : Ledger.Action → Ledger.Action
  | .reserve env clock newId dto keyForDay => .reserve (w.ledgerEnv env) clock newId dto keyForDay
  | .settle env detectedAt id dto allow => .settle (w.ledgerEnv env) detectedAt id dto allow
  | .release env releasedAt updatedAt id reason allow =>
    .release (w.ledgerEnv env) releasedAt updatedAt id reason allow
  | .recover env now requestKey => .recover (w.ledgerEnv env) now requestKey

def perform (w : World) : Action → Answer × World
  | .ensure env taskId input now clock newJobId newSpendId =>
    commitIfReady w .ensured (w.ensure env taskId input now clock newJobId newSpendId)
  | .claimDispatch env taskId jobId input now clock newSpendId =>
    commitIfReady w .claimed (w.claimDispatch env taskId jobId input now clock newSpendId)
  | .complete env taskId jobId input now detectedAt =>
    commit w .completed (w.complete env taskId jobId input now detectedAt)
  | .ledger action =>
    let (answer, spends) := Ledger.perform w.spends (linkAction w action)
    (.ledger answer, { w with spends })
  | .others tasks executions => (.done, { w with tasks, executions })

def next (w : World) (action : Action) (w' : World) : Prop := w' = (perform w action).2

abbrev JobStep := Step World Action

def answer (e : JobStep) : Answer := (perform e.before e.action).1

/-- The run that a list of actions takes from a world. -/
def runOf (w : World) (actions : List Action) : List JobStep × World :=
  runActions (fun w a => (perform w a).2) w actions

theorem run_runOf (w : World) (actions : List Action) : Run next w (runOf w actions).1 (runOf w actions).2 :=
  run_runActions _ w actions

/-! What each part of a transaction does to the jobs and their results. -/

section
variable {w w' : World} {env : LedgerEnv} {task : TaskRow} {execution : ExecutionRow} {job : JobRow} {now : ℤ}
  {clock : List ℤ} {newSpendId : String}

theorem expireDispatchIfNeeded_cases (w : World) (job : JobRow) (now : ℤ) :
    w.expireDispatchIfNeeded job now = (job, w) ∨
      (job.status = .dispatching ∧
        w.expireDispatchIfNeeded job now = (World.expiredJob job now, w.writeJob (World.expiredJob job now))) := by
  unfold World.expireDispatchIfNeeded
  split_ifs with h
  · exact .inr ⟨h.1, rfl⟩
  · exact .inl rfl

theorem changes_expire (hm : job ∈ w.jobs) (now : ℤ) :
    (w.expireDispatchIfNeeded job now).1 ∈ (w.expireDispatchIfNeeded job now).2.jobs ∧
      (w.expireDispatchIfNeeded job now).1.id = job.id ∧
      Changes w.tables (w.expireDispatchIfNeeded job now).2.tables := by
  rcases expireDispatchIfNeeded_cases w job now with h | ⟨hst, h⟩ <;> rw [h]
  · exact ⟨hm, rfl, .refl _⟩
  · exact ⟨Table.mem_write.mpr (.inr ⟨rfl, job, hm, rfl⟩), rfl,
      .of (.advance job _ hm ⟨rfl, rfl⟩ (.lose hst rfl rfl rfl))⟩

theorem insertJob_eq_ok (h : w.insertJob job = .ok w') :
    (∀ j ∈ w.jobs, j.id ≠ job.id) ∧ (∀ j ∈ w.jobs, j.attempt ≠ job.attempt) ∧ 0 < job.providerAttemptNo ∧
      w' = { w with jobs := w.jobs ++ [job] } := by
  unfold World.insertJob at h
  simp only [Js.bind_eq_ok, Js.require_eq_ok] at h
  obtain ⟨_, hid, _, _, _, hattempt, _, hpos, h⟩ := h
  cases h
  exact ⟨hid, hattempt, hpos.1, rfl⟩

theorem fallbackConflict_eq_none {executionId stepKey : String} {n : ℕ}
    (h : fallbackConflict w executionId stepKey n = none) (hn : n ≠ 1) :
    ∃ p ∈ w.jobs, p.attempt = (executionId, stepKey, n - 1) ∧ p.status = .rejected := by
  unfold fallbackConflict at h
  rw [if_neg hn] at h
  rcases hf : w.findAttempt (executionId, stepKey, n - 1) with _ | prior
  · rw [hf] at h
    cases h
  · simp only [hf] at h
    split_ifs at h with hst
    exact ⟨prior, Table.mem_of_lookup hf, Table.key_of_lookup hf, not_not.mp hst⟩

/-- Finding or inserting the job of an attempt. -/
theorem ensureJob_eq_ok {input : EnsureDto} {requestPayload : Json} {newJobId : String}
    (h : w.ensureJob env.host execution input requestPayload newJobId now = .ok (.ok (job, w'))) :
    job ∈ w'.jobs ∧ Changes w.tables w'.tables ∧ w'.spends = w.spends := by
  unfold World.ensureJob at h
  rcases hf : w.findAttempt (execution.id, input.stepKey, input.providerAttemptNo) with _ | existing
  · simp only [hf] at h
    rcases hc : fallbackConflict w execution.id input.stepKey input.providerAttemptNo with _ | conflict
    · simp only [hc] at h
      obtain ⟨inserted, hi, heq⟩ := Js.map_eq_ok.mp h
      cases heq
      obtain ⟨hid, hattempt, _, rfl⟩ := insertJob_eq_ok hi
      exact ⟨List.mem_append_right _ (List.mem_singleton_self _),
        .of (.insert _ hid hattempt rfl rfl rfl fun hn => fallbackConflict_eq_none hc hn), rfl⟩
    · simp only [hc] at h
      cases h
  · simp only [hf] at h
    split at h
    · cases h
    · cases h
      exact ⟨Table.mem_of_lookup hf, .refl _, rfl⟩

theorem applyDecision_eq_ok {spendId : String} {response : ReserveResponse} {r : Committed EnsureResponse}
    (hm : job ∈ w.jobs) (hst : job.status = .waitingBudget)
    (h : w.applyDecision task job spendId response now = .ok r) :
    Changes w.tables r.2.tables ∧ r.2.spends = w.spends := by
  unfold World.applyDecision at h
  rcases response with ⟨action, reservation, budget⟩ | ⟨status, action, reason, blocked, budget⟩
  · simp only [Js.bind_eq_ok, Js.require_eq_ok] at h
    obtain ⟨_, _, _, _, h⟩ := h
    cases h
    exact ⟨.of (.advance job _ hm ⟨rfl, rfl⟩ (.authorize hst rfl rfl rfl)), rfl⟩
  · dsimp only at h
    split_ifs at h <;> cases h
    · exact ⟨.refl _, rfl⟩
    · exact ⟨.refl _, rfl⟩

theorem insertAuthorization_eq_ok {row : AuthorizationRow} (h : w.insertAuthorization row = .ok w') :
    w' = { w with authorizations := w.authorizations ++ [row] } := by
  unfold World.insertAuthorization at h
  simp only [Js.bind_eq_ok, Js.require_eq_ok] at h
  obtain ⟨_, _, _, _, _, _, h⟩ := h
  cases h
  rfl

theorem recordAuthorization_eq_ok {day : ℤ} {requestKey : String} {response : ReserveResponse}
    {r : Committed EnsureResponse} (hm : job ∈ w.jobs) (hst : job.status = .waitingBudget)
    (h : w.recordAuthorization task job day requestKey response now = .ok r) :
    Changes w.tables r.2.tables ∧ r.2.spends = w.spends := by
  unfold World.recordAuthorization at h
  simp only [Js.bind_eq_ok] at h
  obtain ⟨spend, _, h⟩ := h
  split_ifs at h with hday
  · cases h
    exact ⟨.refl _, rfl⟩
  · rcases ha : w.findAuthorization job.id day with _ | authorization
    · simp only [ha, Js.bind_eq_ok] at h
      obtain ⟨inserted, hi, h⟩ := h
      obtain rfl := insertAuthorization_eq_ok hi
      exact applyDecision_eq_ok (w := { w with authorizations := w.authorizations ++ [_] }) hm hst h
    · simp only [ha] at h
      split_ifs at h
      · cases h
        exact ⟨.refl _, rfl⟩
      · exact applyDecision_eq_ok hm hst h

theorem authorize_eq_some {r : Committed EnsureResponse}
    (hm : job ∈ w.jobs) (hst : job.status = .waitingBudget)
    (h : w.authorize env task execution job now clock newSpendId = some (.ok r)) :
    Changes w.tables r.2.tables ∧ Ledger.Effect w.spends r.2.spends := by
  unfold World.authorize at h
  rcases ha : w.authorizationError job clock with _ | message
  · simp only [ha] at h
    obtain ⟨⟨at_, day, request⟩, _, h⟩ := Option.map_eq_some_iff.mp h
    obtain ⟨⟨response, spends⟩, hreserve, h⟩ := Js.bind_eq_ok.mp h
    obtain ⟨hchanges, hspends⟩ := recordAuthorization_eq_ok (w := { w with spends }) hm hst h
    exact ⟨hchanges, hspends ▸ Ledger.reserveAt_effect hreserve⟩
  · simp only [ha, Option.some.injEq, Except.ok.injEq] at h
    subst h
    exact ⟨.refl _, .closing .same⟩

theorem ensure_eq_some {taskId : String} {input : EnsureDto} {newJobId newSpendId : String}
    {r : Committed EnsureResponse}
    (h : w.ensure env taskId input now clock newJobId newSpendId = some (.ok r)) :
    Changes w.tables r.2.tables ∧ Ledger.Effect w.spends r.2.spends := by
  unfold World.ensure at h
  split at h
  · cases h
  · rename_i requestPayload task _
    rcases hg : w.ensureGate env.host task input with reason | execution
    · simp only [hg, Option.some.injEq, Except.ok.injEq] at h
      subst h
      exact ⟨.refl _, .closing .same⟩
    · rcases hj : w.ensureJob env.host execution input requestPayload newJobId now with _ | _ | ⟨job, w₁⟩
      · simp only [hg, hj] at h
        cases h
      · simp only [hg, hj, Option.some.injEq, Except.ok.injEq] at h
        subst h
        exact ⟨.refl _, .closing .same⟩
      · obtain ⟨hm, hchanges, hspends⟩ := ensureJob_eq_ok hj
        obtain ⟨hm', _, hexpire⟩ := changes_expire hm now
        have hs : (w₁.expireDispatchIfNeeded job now).2.spends = w₁.spends := by
          rcases expireDispatchIfNeeded_cases w₁ job now with he | ⟨_, he⟩
          · rw [he]
          · rw [he]
            rfl
        simp only [hg, hj] at h
        split_ifs at h with hst
        · obtain ⟨answer, _, heq⟩ := Js.map_eq_ok.mp (Option.some.inj h)
          subst heq
          exact ⟨hchanges.trans hexpire, by rw [hs, hspends]; exact .closing .same⟩
        · obtain ⟨hauth, heffect⟩ := authorize_eq_some hm' (not_not.mp hst) h
          rw [hs, hspends] at heffect
          exact ⟨(hchanges.trans hexpire).trans hauth, heffect⟩

/-- A granted dispatch: the job is dispatching under the token, and was so before or was ready. -/
structure Granted (w w' : World) (jobId token : String) (replay : Bool) : Prop where
  before : ∃ job ∈ w.jobs, job.id = jobId ∧
    if replay then job.status = .dispatching ∧ job.dispatchToken = some token else job.status = .ready
  after : ∃ job ∈ w'.jobs, job.id = jobId ∧ job.status = .dispatching ∧ job.dispatchToken = some token

theorem grantDispatch_eq_ok {spendId requestKey : String} {body : Option Json} {input : ClaimDto}
    {response : ReserveResponse} {r : Committed ClaimResponse} (hm : job ∈ w.jobs) (hst : job.status = .ready)
    (h : w.grantDispatch task job spendId requestKey body input now response = .ok r) :
    Changes w.tables r.2.tables ∧ r.2.spends = w.spends ∧
      ∀ answer, r.1 = .ok answer → answer.granted = true → answer.replay = false ∧
        Granted w r.2 job.id input.dispatchToken false ∧
        ∃ action reservation budget, response = .allowed action reservation budget := by
  unfold World.grantDispatch at h
  rcases response with ⟨action, reservation, budget⟩ | ⟨status, action, reason, blocked, budget⟩
  · dsimp only at h
    split_ifs at h with hreplay
    · cases h
      exact ⟨.refl _, rfl, fun _ h => by cases h⟩
    · simp only [Js.bind_eq_ok] at h
      obtain ⟨_, _, h⟩ := h
      cases h
      refine ⟨.of (.advance job _ hm ⟨rfl, rfl⟩ (.dispatch input.dispatchToken hst rfl rfl rfl)), rfl,
        fun answer ha _ => ?_⟩
      cases ha
      exact ⟨rfl, ⟨⟨job, hm, rfl, hst⟩, _, Table.mem_write.mpr (.inr ⟨rfl, job, hm, rfl⟩), rfl, rfl, rfl⟩,
        _, _, _, rfl⟩
  · cases h
    exact ⟨.refl _, rfl, fun _ h => by cases h⟩

/-- The repeated reserve of a ready job: its moment, and what the ledger answered. -/
structure Reauthorized (env : LedgerEnv) (w : World) (job : JobRow) (clock : List ℤ) : Prop where
  allowed : ∃ spendId spend dto at_ day request newSpendId action reservation budget spends,
    job.spendId = some spendId ∧ Ledger.findSpend w.spends spendId = some spend ∧
      dto.provider = job.provider ∧ dto.requestKey = spend.requestKey ∧
      Ledger.reserveCall (w.ledgerEnv env) clock dto none = some (at_, day, request) ∧
      Ledger.reserveAt (w.ledgerEnv env) w.spends at_ day request newSpendId =
        .ok (.allowed action reservation budget, spends)

theorem dispatchReady_eq_some {body : Option Json} {input : ClaimDto}
    {r : Committed ClaimResponse} (hm : job ∈ w.jobs) (hst : job.status = .ready)
    (h : w.dispatchReady env task execution job body input now clock newSpendId = some (.ok r)) :
    Changes w.tables r.2.tables ∧ Ledger.Effect w.spends r.2.spends ∧
      ∀ answer, r.1 = .ok answer → answer.granted = true → answer.replay = false ∧
        Granted w r.2 job.id input.dispatchToken false ∧ Reauthorized env w job clock := by
  unfold World.dispatchReady at h
  rcases hs : job.spendId with _ | spendId
  · simp only [hs, Option.some.injEq, Except.ok.injEq] at h
    subst h
    exact ⟨.refl _, .closing .same, fun _ h => nomatch h⟩
  · rcases hf : Ledger.findSpend w.spends spendId with _ | spend
    · simp only [hs, hf, Option.some.injEq, Except.ok.injEq] at h
      subst h
      exact ⟨.refl _, .closing .same, fun _ h => nomatch h⟩
    · simp only [hs, hf] at h
      obtain ⟨⟨at_, day, request⟩, hcall, h⟩ := Option.map_eq_some_iff.mp h
      obtain ⟨⟨response, spends⟩, hreserve, h⟩ := Js.bind_eq_ok.mp h
      obtain ⟨hchanges, hspends, hgrant⟩ := grantDispatch_eq_ok (w := { w with spends }) hm hst h
      refine ⟨hchanges, hspends ▸ Ledger.reserveAt_effect hreserve, fun answer ha hg => ?_⟩
      obtain ⟨hreplay, hgranted, action, reservation, budget, rfl⟩ := hgrant answer ha hg
      exact ⟨hreplay, ⟨hgranted.before, hgranted.after⟩, ⟨spendId, spend, _, at_, day, request, newSpendId, action,
        reservation, budget, spends, hs, hf, rfl, rfl, hcall, hreserve⟩⟩

theorem claimAgain_eq_ok {expiredNow : Bool} {body : Option Json} {input : ClaimDto}
    {r : Committed ClaimResponse} (h : w.claimAgain job expiredNow body input = .ok r) :
    r.2 = w ∧ ∀ answer, r.1 = .ok answer → answer.granted = true → answer.replay = true ∧
      job.status = .dispatching ∧ job.dispatchToken = some input.dispatchToken := by
  unfold World.claimAgain at h
  split_ifs at h with htoken hexpired hst
  · cases h
    exact ⟨rfl, fun _ h => nomatch h⟩
  · cases h
    refine ⟨rfl, fun answer ha _ => ?_⟩
    cases ha
    exact ⟨rfl, hst, not_not.mp htoken⟩
  · obtain ⟨result, _, rfl⟩ := Js.map_eq_ok.mp h
    refine ⟨rfl, fun answer ha hg => ?_⟩
    cases ha
    cases hg

/-- What a claim of the job writes, and what it grants. -/
abbrev Claimed (env : LedgerEnv) (w : World) (job : JobRow) (input : ClaimDto) (clock : List ℤ) (r : Committed ClaimResponse) :
    Prop :=
  Changes w.tables r.2.tables ∧ Ledger.Effect w.spends r.2.spends ∧
    ∀ answer, r.1 = .ok answer → answer.granted = true →
      Granted w r.2 job.id input.dispatchToken answer.replay ∧
      (answer.replay = true → job.status = .dispatching) ∧
      (answer.replay = false → job.status = .ready ∧ Reauthorized env w job clock)

theorem claimJob_eq_some {expiredNow : Bool} {body : Option Json} {input : ClaimDto}
    {r : Committed ClaimResponse} (hm : job ∈ w.jobs)
    (h : w.claimJob env task execution job expiredNow body input now clock newSpendId = some (.ok r)) :
    Claimed env w job input clock r := by
  have hagain : w.claimAgain job expiredNow body input = .ok r →
      Claimed env w job input clock r := by
    intro h
    obtain ⟨hw, hgrant⟩ := claimAgain_eq_ok h
    rw [Claimed, hw]
    refine ⟨.refl _, .closing .same, fun answer ha hg => ?_⟩
    obtain ⟨hreplay, hst, htoken⟩ := hgrant answer ha hg
    rw [hreplay]
    exact ⟨⟨⟨job, hm, rfl, hst, htoken⟩, job, hm, rfl, hst, htoken⟩, fun _ => hst, fun h => nomatch h⟩
  have hidle : r = (.ok ⟨false, false, job.status, job.operationHash, none, none⟩, w) →
      Claimed env w job input clock r := by
    rintro rfl
    refine ⟨.refl _, .closing .same, fun answer ha hg => ?_⟩
    cases ha
    cases hg
  unfold World.claimJob at h
  rcases hs : job.status with _ | _ | _ | _ | _ | _ | _ <;> simp only [hs, Option.some.injEq] at h hagain hidle
  · exact hidle (Except.ok.inj h).symm
  · obtain ⟨hchanges, heffect, hgrant⟩ := dispatchReady_eq_some hm hs h
    refine ⟨hchanges, heffect, fun answer ha hg => ?_⟩
    obtain ⟨hreplay, hgranted, hauth⟩ := hgrant answer ha hg
    rw [hreplay]
    exact ⟨hgranted, fun h => (nomatch h), fun _ => ⟨hs, hauth⟩⟩
  · exact hagain h
  · exact hagain h
  · exact hagain h
  · exact hagain h
  · exact hidle (Except.ok.inj h).symm

theorem claimDispatch_eq_some {taskId jobId : String} {input : ClaimDto}
    {r : Committed ClaimResponse}
    (h : w.claimDispatch env taskId jobId input now clock newSpendId = some (.ok r)) :
    Changes w.tables r.2.tables ∧ Ledger.Effect w.spends r.2.spends ∧
      ∀ answer, r.1 = .ok answer → answer.granted = true →
        Granted w r.2 jobId input.dispatchToken answer.replay ∧
        (answer.replay = false → ∃ job ∈ w.jobs, job.id = jobId ∧ job.status = .ready ∧
          Reauthorized env w job clock) := by
  unfold World.claimDispatch at h
  split at h
  · cases h
  · rename_i task _
    rcases hx : w.claimExecution env.host task input with reason | execution
    · simp only [hx, Option.some.injEq, Except.ok.injEq] at h
      subst h
      exact ⟨.refl _, .closing .same, fun _ h => nomatch h⟩
    · rcases hj : w.lockJob jobId with _ | before
      · simp only [hx, hj] at h
        cases h
      · have hfind : w.findJob jobId = some before := Js.orThrow_eq_ok.mp hj
        have hm : before ∈ w.jobs := Table.mem_of_lookup hfind
        obtain rfl : before.id = jobId := Table.key_of_lookup hfind
        rcases hb : World.claimBody env.host execution before with reason | body
        · simp only [hx, hj, hb, Option.some.injEq, Except.ok.injEq] at h
          subst h
          exact ⟨.refl _, .closing .same, fun _ h => nomatch h⟩
        · simp only [hx, hj, hb] at h
          obtain ⟨hm', _, hexpire⟩ := changes_expire hm now
          rcases expireDispatchIfNeeded_cases w before now with he | ⟨hst, he⟩ <;>
            rw [he] at h hm' hexpire <;> obtain ⟨hchanges, heffect, hgrant⟩ := claimJob_eq_some hm' h
          · refine ⟨hchanges, heffect, fun answer ha hg => ?_⟩
            obtain ⟨hgranted, _, hready⟩ := hgrant answer ha hg
            exact ⟨hgranted, fun hr => ⟨before, hm, rfl, hready hr⟩⟩
          · -- an expired job is unknown, so nothing is granted on it
            refine ⟨hexpire.trans hchanges, heffect, fun answer ha hg => ?_⟩
            obtain ⟨_, hagain, hready⟩ := hgrant answer ha hg
            rcases hr : answer.replay with _ | _
            · cases (hready hr).1
            · cases hagain hr

theorem completionOwner_eq_ok {taskId jobId token : String} :
    w.completionOwner taskId jobId token = .ok (task, execution, job) ↔
      w.findJob jobId = some job ∧ w.findTask taskId = some task ∧
        w.findExecution job.taskAgentExecutionId = some execution ∧ execution.taskId = taskId ∧
        job.dispatchToken = some token ∧ job.dispatchCount = 1 := by
  unfold World.completionOwner World.lockJob World.lockTask
  simp only [Js.bind_eq_ok, Js.orThrow_eq_ok, Js.require_eq_ok, Option.filter_eq_some_iff, decide_eq_true_eq]
  constructor
  · rintro ⟨job, hj, task, ht, execution, ⟨he, hid⟩, _, ⟨htoken, hcount⟩, h⟩
    cases h
    exact ⟨hj, ht, he, hid, htoken, hcount⟩
  · rintro ⟨hj, ht, he, hid, htoken, hcount⟩
    exact ⟨job, hj, task, ht, execution, ⟨he, hid⟩, (), ⟨htoken, hcount⟩, rfl⟩

theorem tables_unblockTask (host : Js.Host) : (w.unblockTask host task execution).tables = w.tables := by
  unfold World.unblockTask
  dsimp only
  split_ifs <;> rfl

theorem spends_unblockTask (host : Js.Host) : (w.unblockTask host task execution).spends = w.spends := by
  unfold World.unblockTask
  dsimp only
  split_ifs <;> rfl

/-- The first result of a job is stored and settled. -/
theorem storeResult_eq_ok {kind : ResultKind} {payload : Json} {detectedAt : ℤ} {r : Committed CompleteResponse}
    (hm : job ∈ w.jobs) (hnone : w.findResult job.id = none)
    (h : w.storeResult env task execution job kind payload now detectedAt = .ok r) :
    Changes w.tables r.2.tables ∧ Ledger.Effect w.spends r.2.spends ∧
      ∃ answer, r.1 = .ok answer ∧ answer.replay = false := by
  unfold World.storeResult at h
  simp only [Js.bind_eq_ok, Js.require_eq_ok, Js.orThrow_eq_ok] at h
  obtain ⟨_, hst, spendId, _, ⟨closed, spends⟩, hsettle, h⟩ := h
  cases h
  rw [tables_unblockTask, spends_unblockTask]
  refine ⟨.of (.complete job _ ⟨job.id, kind, payload, _, now⟩ hm ⟨rfl, rfl⟩ hst ?_ rfl rfl rfl
    (Table.lookup_eq_none_iff.mp hnone)), .closing (Ledger.settleInTx_closing hsettle), _, rfl, rfl⟩
  rcases kind <;> rfl

theorem completeUnknown_eq_ok {r : Committed CompleteResponse} (hm : job ∈ w.jobs)
    (h : w.completeUnknown job now = .ok r) :
    Changes w.tables r.2.tables ∧ r.2.spends = w.spends := by
  unfold World.completeUnknown at h
  rcases hs : job.status with _ | _ | _ | _ | _ | _ | _ <;> simp only [hs, Except.ok.injEq] at h
  · cases h
  · cases h
  · subst h
    exact ⟨.of (.advance job _ hm ⟨rfl, rfl⟩ (.lose hs rfl rfl rfl)), rfl⟩
  · cases h
  · cases h
  · subst h
    exact ⟨.refl _, rfl⟩
  · cases h

theorem completeResult_eq_ok {kind : ResultKind} {result : Json} {detectedAt : ℤ}
    {r : Committed CompleteResponse} (hm : job ∈ w.jobs)
    (h : w.completeResult env task execution job kind result now detectedAt = .ok r) :
    Changes w.tables r.2.tables ∧ Ledger.Effect w.spends r.2.spends := by
  unfold World.completeResult at h
  simp only [Js.bind_eq_ok] at h
  obtain ⟨payload, _, h⟩ := h
  rcases hf : w.findResult job.id with _ | stored
  · simp only [hf] at h
    obtain ⟨hchanges, heffect, _⟩ := storeResult_eq_ok hm hf h
    exact ⟨hchanges, heffect⟩
  · simp only [hf] at h
    split_ifs at h <;> (cases h; exact ⟨.refl _, .closing .same⟩)

theorem complete_eq_ok {taskId jobId : String} {input : CompleteDto} {detectedAt : ℤ}
    {r : Committed CompleteResponse} (h : w.complete env taskId jobId input now detectedAt = .ok r) :
    Changes w.tables r.2.tables ∧ Ledger.Effect w.spends r.2.spends := by
  unfold World.complete at h
  split at h
  · cases h
  · cases h
  · simp only [Js.bind_eq_ok] at h
    obtain ⟨⟨task, execution, job⟩, howner, h⟩ := h
    obtain ⟨hchanges, hspends⟩ := completeUnknown_eq_ok (Table.mem_of_lookup (completionOwner_eq_ok.mp howner).1) h
    exact ⟨hchanges, by rw [hspends]; exact .closing .same⟩
  · simp only [Js.bind_eq_ok] at h
    obtain ⟨⟨task, execution, job⟩, howner, h⟩ := h
    exact completeResult_eq_ok (Table.mem_of_lookup (completionOwner_eq_ok.mp howner).1) h

end

/-! Steps. -/

theorem commit_of {α : Type} {w : World} {f : α → Answer} {P : World → Prop} {x : Except HttpError (Committed α)}
    (hsame : P w) (h : ∀ r, x = .ok r → P r.2) : P (commit w f x).2 := by
  rcases x with e | ⟨_ | a, w'⟩
  · exact hsame
  · exact h _ rfl
  · exact h _ rfl

theorem commitIfReady_of {α : Type} {w : World} {f : α → Answer} {P : World → Prop}
    {x : Option (Except HttpError (Committed α))} (hsame : P w) (h : ∀ r, x = some (.ok r) → P r.2) :
    P (commitIfReady w f x).2 := by
  rcases x with _ | x
  · exact hsame
  · exact commit_of hsame fun r hr => h r (by rw [hr])

/-- The jobs and the spends change as their lifecycles allow. -/
def Moves (w w' : World) : Prop := Changes w.tables w'.tables ∧ Ledger.Effect w.spends w'.spends

theorem next_moves {w w' : World} {action : Action} (hw : Ledger.WellFormed w.spends) (h : next w action w') :
    Moves w w' := by
  have hsame : Moves w w := ⟨.refl _, .closing .same⟩
  unfold next at h
  subst h
  rcases action with ⟨env, taskId, input, now, clock, newJobId, newSpendId⟩ |
    ⟨env, taskId, jobId, input, now, clock, newSpendId⟩ | ⟨env, taskId, jobId, input, now, detectedAt⟩ | action |
    ⟨tasks, executions⟩ <;> simp only [perform]
  · exact commitIfReady_of hsame fun r hr => (ensure_eq_some hr : Moves w r.2)
  · have hclaim : ∀ r, w.claimDispatch env taskId jobId input now clock newSpendId = some (.ok r) → Moves w r.2 :=
      fun r hr => ⟨(claimDispatch_eq_some hr).1, (claimDispatch_eq_some hr).2.1⟩
    exact commitIfReady_of hsame hclaim
  · exact commit_of hsame fun r hr => (complete_eq_ok hr : Moves w r.2)
  · exact ⟨.refl _, Ledger.next_effect hw rfl⟩
  · exact hsame

/-- Both tables are as their invariants say. -/
structure Sound (w : World) : Prop where
  tables : Consistent w.tables
  spends : Ledger.WellFormed w.spends

def emptyWorld : World := ⟨[], [], [], [], [], []⟩

theorem sound_empty : Sound emptyWorld := ⟨consistent_empty, Ledger.wellFormed_nil⟩

theorem sound_next {w w' : World} {action : Action} (hs : Sound w) (h : next w action w') : Sound w' := by
  obtain ⟨hchanges, heffect⟩ := next_moves hs.spends h
  exact ⟨hchanges.consistent hs.tables, heffect.wellFormed hs.spends⟩

theorem sound_run {w w' : World} {steps : List JobStep} (h : Run next w steps w') (hs : Sound w) : Sound w' :=
  h.invariant (fun _ _ _ hs hn => sound_next hs hn) hs

theorem persists_run {w w' : World} {steps : List JobStep} (h : Run next w steps w') (hs : Sound w) :
    Persists w.tables w'.tables := by
  have hstep : ∀ s a s', (Sound s ∧ Persists w.tables s.tables) → next s a s' →
      Sound s' ∧ Persists w.tables s'.tables := by
    intro s a s' ⟨hs, hp⟩ hn
    exact ⟨sound_next hs hn, hp.trans ((next_moves hs.spends hn).1.persists hs.tables)⟩
  exact (h.invariant hstep ⟨hs, .refl _⟩).2

end Mydon.Jobs
