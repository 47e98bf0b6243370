import Mydon.Jobs.Runs

/-! At most one dispatch for a job, results that stay, completions that replay their
own result, and fallbacks only after a rejection. -/

namespace Mydon.Jobs

open Mydon.Lib
open Js (Json HttpError)
open Ledger (LedgerEnv)

/-- The step answers `granted: true` to this token. -/
def GrantsDispatch (e : JobStep) (jobId token : String) : Prop :=
  ∃ env taskId input now clock newSpendId response,
    e.action = .claimDispatch env taskId jobId input now clock newSpendId ∧ input.dispatchToken = token ∧
      answer e = .claimed response ∧ response.granted = true

theorem granted_of_grantsDispatch {e : JobStep} {jobId token : String} (hn : next e.before e.action e.after)
    (h : GrantsDispatch e jobId token) : ∃ replay, Granted e.before e.after jobId token replay := by
  obtain ⟨w, action, w'⟩ := e
  obtain ⟨env, taskId, input, now, clock, newSpendId, response, rfl, rfl, hanswer, hgranted⟩ := h
  unfold next at hn
  unfold answer at hanswer
  simp only [perform] at hn hanswer
  rcases hr : w.claimDispatch env taskId jobId input now clock newSpendId with _ | _ | ⟨_ | answer, w₁⟩ <;>
    simp only [hr, commitIfReady, commit] at hn hanswer
  · cases hanswer
  · cases hanswer
  · cases hanswer
  · cases hanswer
    subst hn
    obtain ⟨_, _, hgrant⟩ := claimDispatch_eq_some hr
    exact ⟨response.replay, (hgrant response rfl hgranted).1⟩

/-- Once a token is granted, every later grant is to the same token. -/
theorem token_eq_of_later {w w' : World} {jobId token token' : String} {replay replay' : Bool} {before after : World}
    (hs : Sound w) (hg : Granted before w jobId token replay) {steps : List JobStep} (h : Run next w steps w')
    (hg' : Granted w' after jobId token' replay') : token = token' := by
  obtain ⟨job, hm, hid, hst, htoken⟩ := hg.after
  obtain ⟨job', hm', hf⟩ := (persists_run h hs).jobs job hm
  obtain ⟨hd', htoken'⟩ := hf.dispatched (by rw [hst]; rfl)
  obtain ⟨job'', hm'', hid'', hbefore⟩ := hg'.before
  have hids := (sound_run h hs).tables.ids
  obtain rfl : job'' = job' := Table.eq_of_key_eq hids hm'' hm' (hid''.trans (hid.symm.trans hf.same.id.symm))
  rcases replay' with _ | _
  · rw [if_neg Bool.false_ne_true] at hbefore
    rw [hbefore] at hd'
    cases hd'
  · rw [if_pos rfl] at hbefore
    rw [htoken', htoken] at hbefore
    exact Option.some.inj hbefore.2

theorem token_eq_of_grants {w : World} {steps : List JobStep} (h : Run next emptyWorld steps w) {e e' : JobStep}
    (he : e ∈ steps) (he' : e' ∈ steps) {jobId token token' : String} (hg : GrantsDispatch e jobId token)
    (hg' : GrantsDispatch e' jobId token') : token = token' := by
  have hordered : ∀ {e e' : JobStep} {token token' : String} {later : List JobStep} {w' : World},
      Sound e.before → next e.before e.action e.after → Run next e.after later w' → e' ∈ later →
      GrantsDispatch e jobId token → GrantsDispatch e' jobId token' → token = token' := by
    intro e e' token token' later w' hs hn hrun he' hg hg'
    obtain ⟨_, _, _, hbetween, hn', _⟩ := hrun.split he'
    obtain ⟨_, hgranted⟩ := granted_of_grantsDispatch hn hg
    obtain ⟨_, hgranted'⟩ := granted_of_grantsDispatch hn' hg'
    exact token_eq_of_later (sound_next hs hn) hgranted hbetween hgranted'
  obtain ⟨earlier, later, rfl, hb, hn, ha⟩ := h.split he
  rcases List.mem_append.mp he' with hm | hm
  · obtain ⟨earlier', later', rfl, hb', hn', ha'⟩ := hb.split hm
    exact (hordered (sound_run hb' sound_empty) hn' (ha'.step hn)
      (List.mem_append_right _ (List.mem_singleton_self _)) hg' hg).symm
  · rcases List.mem_cons.mp hm with rfl | hm
    · obtain ⟨_, _, input, _, _, _, _, ha, rfl, _⟩ := hg
      obtain ⟨_, _, input', _, _, _, _, ha', rfl, _⟩ := hg'
      rw [ha] at ha'
      cases ha'
      rfl
    · exact hordered (sound_run hb sound_empty) hn ha hm hg hg'

/-! Completions. -/

/-- A completion with a result is a replay exactly of the stored one; without a result, of an
outcome that is unknown already. Both are the grant owner's to make. -/
def CompletionReplay (e : JobStep) : Prop :=
  match e.action with
  | .complete env taskId jobId ⟨token, some kind, some result⟩ _ _ =>
    (∃ response, answer e = .completed response ∧ response.replay = true) ↔
      ∃ task execution job payload stored, e.before.completionOwner taskId jobId token = .ok (task, execution, job) ∧
        normalizeTaskLlmResultPayload env.host job.kind kind result = .ok payload ∧
        e.before.findResult jobId = some stored ∧ stored.kind = kind ∧
        stored.resultHash = World.resultHash env.host jobId kind payload
  | .complete _ taskId jobId ⟨token, none, none⟩ _ _ =>
    (∃ response, answer e = .completed response ∧ response.replay = true) ↔
      ∃ task execution job, e.before.completionOwner taskId jobId token = .ok (task, execution, job) ∧
        job.status = .unknown
  | .complete .. => ∃ error, answer e = .failed error
  | _ => True

theorem completeResult_replay {w : World} {env : LedgerEnv} {task : TaskRow} {execution : ExecutionRow} {job : JobRow}
    {kind : ResultKind} {result : Json} {now detectedAt : ℤ} (hm : job ∈ w.jobs) :
    (∃ response w', w.completeResult env task execution job kind result now detectedAt = .ok (.ok response, w') ∧
        response.replay = true) ↔
      ∃ payload stored, normalizeTaskLlmResultPayload env.host job.kind kind result = .ok payload ∧
        w.findResult job.id = some stored ∧ stored.kind = kind ∧
        stored.resultHash = World.resultHash env.host job.id kind payload := by
  constructor
  · rintro ⟨response, w', h, hreplay⟩
    have hdone := h
    unfold World.completeResult at h
    simp only [Js.bind_eq_ok] at h
    obtain ⟨payload, hp, h⟩ := h
    rcases hf : w.findResult job.id with _ | stored
    · simp only [hf] at h
      obtain ⟨_, _, answer, ha, hfresh⟩ := storeResult_eq_ok hm hf h
      cases ha
      rw [hreplay] at hfresh
      cases hfresh
    · simp only [hf] at h
      split_ifs at h with hdiffers
      · cases h
      · rw [not_or, not_not, not_not] at hdiffers
        exact ⟨payload, stored, hp, rfl, hdiffers.1, hdiffers.2⟩
  · rintro ⟨payload, stored, hp, hf, rfl, hhash⟩
    refine ⟨⟨job.status, true, some (World.resultView stored)⟩, w, ?_, rfl⟩
    unfold World.completeResult
    rw [hp]
    simp only [bind, Except.bind, hf, hhash, ne_eq, not_true_eq_false, or_self, if_false]
    rfl

theorem completion_replay {e : JobStep} : CompletionReplay e := by
  obtain ⟨w, action, w'⟩ := e
  rcases action with _ | _ | ⟨env, taskId, jobId, ⟨token, outcome, result⟩, now, detectedAt⟩ | _ | _
  · trivial
  · trivial
  · unfold CompletionReplay answer
    simp only [perform]
    have hanswer : ∀ {x : Except HttpError (Committed CompleteResponse)} {response : CompleteResponse},
        (commit w .completed x).1 = .completed response ↔ ∃ w', x = .ok (.ok response, w') := by
      rintro (_ | ⟨_ | _, _⟩) response <;> simp [commit]
    rcases outcome with _ | kind <;> rcases result with _ | result
    · dsimp only
      simp only [hanswer, World.complete, Js.bind_eq_ok]
      constructor
      · rintro ⟨response, ⟨w', ⟨task, execution, job⟩, howner, h⟩, hreplay⟩
        refine ⟨task, execution, job, howner, ?_⟩
        unfold World.completeUnknown at h
        rcases hs : job.status with _ | _ | _ | _ | _ | _ | _ <;> simp only [hs] at h <;> cases h
        · cases hreplay
        · rfl
      · rintro ⟨task, execution, job, howner, hst⟩
        exact ⟨_, ⟨w, (task, execution, job), howner, by unfold World.completeUnknown; rw [hst]⟩, rfl⟩
    · exact ⟨_, rfl⟩
    · exact ⟨_, rfl⟩
    · dsimp only
      simp only [hanswer, World.complete, Js.bind_eq_ok]
      constructor
      · rintro ⟨response, ⟨w', ⟨task, execution, job⟩, howner, h⟩, hreplay⟩
        have hjob := (completionOwner_eq_ok.mp howner).1
        obtain rfl : job.id = jobId := Table.key_of_lookup hjob
        obtain ⟨payload, stored, hp, hf, hkind, hhash⟩ :=
          (completeResult_replay (Table.mem_of_lookup hjob)).mp ⟨response, w', h, hreplay⟩
        exact ⟨task, execution, job, payload, stored, howner, hp, hf, hkind, hhash⟩
      · rintro ⟨task, execution, job, payload, stored, howner, hp, hf, hkind, hhash⟩
        have hjob := (completionOwner_eq_ok.mp howner).1
        obtain rfl : job.id = jobId := Table.key_of_lookup hjob
        obtain ⟨response, w', h, hreplay⟩ :=
          (completeResult_replay (Table.mem_of_lookup hjob)).mpr ⟨payload, stored, hp, hf, hkind, hhash⟩
        exact ⟨response, ⟨w', (task, execution, job), howner, h⟩, hreplay⟩
  · trivial
  · trivial

/-- One dispatch for a job, no way back, one result, and fallbacks only after a rejection. -/
theorem dispatch_once {w : World} {steps : List JobStep} (h : Run next emptyWorld steps w) :
    (∀ e ∈ steps, ∀ e' ∈ steps, ∀ jobId token token', GrantsDispatch e jobId token →
        GrantsDispatch e' jobId token' → token = token') ∧
      (∀ steps' w', Run next w steps' w' →
        (∀ job ∈ w.jobs, job.status = .dispatching → ∀ job' ∈ w'.jobs, job'.id = job.id →
          job'.status ≠ .waitingBudget ∧ job'.status ≠ .ready) ∧
        ∀ result ∈ w.results, result ∈ w'.results ∧
          ∀ result' ∈ w'.results, result'.jobId = result.jobId → result' = result) ∧
      (∀ e ∈ steps, CompletionReplay e) ∧
      ∀ job ∈ w.jobs, ∀ n, 1 ≤ n → job.providerAttemptNo = n + 1 →
        ∃ prior ∈ w.jobs, prior.attempt = (job.taskAgentExecutionId, job.stepKey, n) ∧ prior.status = .rejected ∧
          ∃ result ∈ w.results, result.jobId = prior.id ∧ result.kind = .providerRejection := by
  have hs := sound_run h sound_empty
  refine ⟨fun e he e' he' jobId token token' hg hg' => token_eq_of_grants h he he' hg hg', fun steps' w' h' => ?_,
    fun e _ => completion_replay, fun job hjob n hn hattempt => ?_⟩
  · have hp := persists_run h' hs
    have hs' := sound_run h' hs
    refine ⟨fun job hjob hst job' hjob' hid => ?_, fun result hresult => ?_⟩
    · obtain ⟨job'', hjob'', hf⟩ := hp.jobs job hjob
      obtain rfl : job' = job'' := Table.eq_of_key_eq hs'.tables.ids hjob' hjob'' (hid.trans hf.same.id.symm)
      have hd := (hf.dispatched (by rw [hst]; rfl)).1
      constructor <;> intro hback <;> rw [hback] at hd <;> cases hd
    · have hresult' := hp.results result hresult
      exact ⟨hresult', fun result' hm hid => Table.eq_of_key_eq hs'.tables.resultJobs hm hresult' hid⟩
  · have hne : job.providerAttemptNo ≠ 1 := by omega
    obtain ⟨prior, hprior, hpa, hpst⟩ := hs.tables.preceded job hjob hne
    have hn' : job.providerAttemptNo - 1 = n := by omega
    rw [hn'] at hpa
    exact ⟨prior, hprior, hpa, hpst, hs.tables.result prior hprior .providerRejection hpst⟩

/-! An embedding that a task asks for. -/

def samplePlan : ExecutionPlan where
  version := 1
  steps := [⟨"embed", .embedding, "search", OPENAI_COMPATIBLE_ADAPTER, 1,
    "openai-embeddings:sha256:" ++ String.ofList (List.replicate 64 'a'), "provider", ["model"]⟩]

def sampleTask : TaskRow where
  id := "task"
  title := "title"
  description := none
  ownerKind := .agent
  ownerRef := some "agent"
  domain := none
  entityId := none
  priority := "normal"
  due := none
  source := none
  createdBy := none
  agentSkill := none
  runOptions := none
  status := .inProgress
  agentRunId := some "run"
  agentRunClaimedAt := some 0
  agentExecutionAttemptId := some "attempt"
  agentExecutionRetryAt := none
  agentExecutionBlockedAt := none
  agentExecutionBlockedReason := none

def sampleExecution : ExecutionRow where
  id := "execution"
  taskId := "task"
  executionAttemptId := "attempt"
  agentName := "agent"
  skill := "index"
  status := .active
  taskInputHash := durableTaskInputHash Ledger.sampleHost sampleTask
  workflowVersion := 1
  executionPlan := samplePlan.json
  executionPlanHash := samplePlan.json.canonicalHash Ledger.sampleHost
  inputSnapshotKind := none
  inputSnapshotPayload := none
  inputSnapshotHash := none

def agentEnv : LedgerEnv := { Ledger.sampleEnv with agents := [⟨"agent-1", "agent", none, none, none⟩] }

def sampleEnsure : EnsureDto where
  agentName := "agent"
  runId := "run"
  executionAttemptId := "attempt"
  stepKey := "embed"
  providerAttemptNo := 1
  kind := .embedding
  feature := "search"
  adapter := OPENAI_COMPATIBLE_ADAPTER
  adapterVersion := 1
  endpointProfile := "openai-embeddings:sha256:" ++ String.ofList (List.replicate 64 'a')
  provider := "provider"
  model := "model"
  inputTokenCeiling := 260
  outputTokenCeiling := 0
  requestPayload := .obj [("model", .str "model"), ("input", .str "text")]

def sampleClaim (token : String) : ClaimDto := ⟨"agent", "run", "attempt", token⟩

def sampleSuccess : CompleteDto where
  dispatchToken := "token"
  outcome := some .success
  result := some (.obj [("vector", .arr [.num 1]), ("resolvedModel", .str "model"),
    ("usage", .obj [("inputTokens", .num 4), ("outputTokens", .num 0)])])

/-- A job that is ensured, claimed three times under two tokens, and completed twice. -/
def sampleRun : List Action :=
  [.others [sampleTask] [sampleExecution],
    .ensure agentEnv "task" sampleEnsure 1 [1, 1, 1] "job" "spend",
    .claimDispatch agentEnv "task" "job" (sampleClaim "token") 2 [2, 2] "unused",
    .claimDispatch agentEnv "task" "job" (sampleClaim "token") 3 [3, 3] "unused",
    .claimDispatch agentEnv "task" "job" (sampleClaim "other") 3 [3, 3] "unused",
    .complete agentEnv "task" "job" sampleSuccess 4 4,
    .complete agentEnv "task" "job" sampleSuccess 5 5]

theorem dispatch_once_sample :
    (∀ e ∈ (runOf emptyWorld sampleRun).1, ∀ e' ∈ (runOf emptyWorld sampleRun).1,
        GrantsDispatch e "job" "token" → ¬ GrantsDispatch e' "job" "other") ∧
      (∀ e ∈ (runOf emptyWorld sampleRun).1, CompletionReplay e) ∧ (runOf emptyWorld sampleRun).1.length = 7 := by
  have h := dispatch_once (run_runOf emptyWorld sampleRun)
  refine ⟨fun e he e' he' hg hg' => ?_, h.2.2.1, rfl⟩
  have htokens := h.1 e he e' he' "job" _ _ hg hg'
  exact absurd htokens (by decide)

end Mydon.Jobs
