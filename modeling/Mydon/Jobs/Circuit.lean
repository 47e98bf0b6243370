import Mydon.Jobs.Runs
import Mydon.Ledger.Circuit

/-! The provider circuit over runs of the job service: every reserve that a step makes,
and what an open circuit lets through. -/

namespace Mydon.Jobs

open Mydon.Lib
open Js (Json HttpError)
open Ledger (LedgerEnv Spends ReserveRequest CircuitOpen)

/-- A call of the ledger's reserve, once it holds its locks. -/
structure ReserveCall where
  env : LedgerEnv
  spends : Spends
  now : ℤ
  day : ℤ
  request : ReserveRequest
  newId : String

namespace ReserveCall

def Allowed (c : ReserveCall) : Prop :=
  ∃ action reservation snapshot spends',
    Ledger.reserveAt c.env c.spends c.now c.day c.request c.newId = .ok (.allowed action reservation snapshot, spends')

def Replayable (c : ReserveCall) : Prop := Ledger.Replayable c.env c.spends c.now c.day c.request

end ReserveCall

namespace World

variable (w : World)

def reserveFor (env : LedgerEnv) (clock : List ℤ) (dto : Ledger.ReserveDto) (keyForDay : Option (ℤ → String))
    (newId : String) : Option ReserveCall :=
  (Ledger.reserveCall (w.ledgerEnv env) clock dto keyForDay).map fun (now, day, request) =>
    ⟨w.ledgerEnv env, w.spends, now, day, request, newId⟩

/-- The reserve that an ensure makes, where it gets to one. -/
def ensureReserve (env : LedgerEnv) (taskId : String) (input : EnsureDto) (now : ℤ) (clock : List ℤ)
    (newJobId newSpendId : String) : Option ReserveCall := do
  let (requestPayload, task) ← (w.checkEnsure env taskId input).toOption
  let execution ← (w.ensureGate env.host task input).toOption
  let (job, w) ← (w.ensureJob env.host execution input requestPayload newJobId now).toOption.bind Except.toOption
  let (job, w) := w.expireDispatchIfNeeded job now
  guard (job.status = .waitingBudget ∧ w.authorizationError job clock = none)
  w.reserveFor env clock
    (reservePayload task.id execution job s!"{job.jobKey}:day:{Clock.dayText (Clock.tashkentDay now)}")
    (some (w.keyForDay job)) newSpendId

/-- The repeated reserve that a claim makes before the first dispatch of a ready job. -/
def claimReserve (env : LedgerEnv) (taskId jobId : String) (input : ClaimDto) (clock : List ℤ)
    (newSpendId : String) : Option ReserveCall := do
  let task ← (w.fencedTask taskId input.agentName input.runId input.executionAttemptId).toOption
  let execution ← (w.claimExecution env.host task input).toOption
  let job ← w.findJob jobId
  let _ ← (claimBody env.host execution job).toOption
  guard (job.status = .ready)
  let spendId ← job.spendId
  let spend ← Ledger.findSpend w.spends spendId
  w.reserveFor env clock (reservePayload task.id execution job spend.requestKey) none newSpendId

end World

/-- The reserve that a step makes. -/
def reserveOf (w : World) : Action → Option ReserveCall
  | .ensure env taskId input now clock newJobId newSpendId =>
    w.ensureReserve env taskId input now clock newJobId newSpendId
  | .claimDispatch env taskId jobId input _ clock newSpendId =>
    w.claimReserve env taskId jobId input clock newSpendId
  | .complete .. => none
  | .ledger (.reserve env clock newId dto keyForDay) => w.reserveFor env clock dto keyForDay newId
  | .ledger _ => none
  | .others .. => none

/-- The first grant of the job's dispatch. -/
def GrantsFirst (e : JobStep) (jobId : String) : Prop :=
  ∃ env taskId input now clock newSpendId response,
    e.action = .claimDispatch env taskId jobId input now clock newSpendId ∧ answer e = .claimed response ∧
      response.granted = true ∧ response.replay = false

/-! A reserve is made at the spends of the step, for the day of its moment. -/

theorem reserveFor_eq_some {w : World} {env : LedgerEnv} {clock : List ℤ} {dto : Ledger.ReserveDto}
    {keyForDay : Option (ℤ → String)} {newId : String} {c : ReserveCall}
    (h : w.reserveFor env clock dto keyForDay newId = some c) :
    c.spends = w.spends ∧ Clock.tashkentDay c.now = c.day := by
  obtain ⟨⟨now, day, request⟩, hcall, rfl⟩ := Option.map_eq_some_iff.mp h
  exact ⟨rfl, Ledger.reserveCall_day hcall⟩

theorem ensureReserve_eq_some {w : World} {env : LedgerEnv} {taskId : String} {input : EnsureDto} {now : ℤ}
    {clock : List ℤ} {newJobId newSpendId : String} {c : ReserveCall}
    (h : w.ensureReserve env taskId input now clock newJobId newSpendId = some c) :
    c.spends = w.spends ∧ Clock.tashkentDay c.now = c.day := by
  unfold World.ensureReserve at h
  simp only [Option.bind_eq_bind, Option.bind_eq_some_iff, Prod.exists] at h
  obtain ⟨requestPayload, task, _, execution, _, job, w₁, ⟨r, hjob, hok⟩, _, _, hreserve⟩ := h
  obtain ⟨hspends, hday⟩ := reserveFor_eq_some hreserve
  rcases r with reason | ⟨job', w₂⟩
  · cases hok
  · cases hok
    obtain ⟨_, _, hensure⟩ := ensureJob_eq_ok (Js.toOption_eq_some.mp hjob)
    rcases expireDispatchIfNeeded_cases w₁ job now with he | ⟨_, he⟩
    · rw [he] at hspends
      exact ⟨hspends.trans hensure, hday⟩
    · rw [he] at hspends
      exact ⟨hspends.trans hensure, hday⟩

theorem reserveOf_eq_some {w : World} {action : Action} {c : ReserveCall} (h : reserveOf w action = some c) :
    c.spends = w.spends ∧ Clock.tashkentDay c.now = c.day := by
  unfold reserveOf at h
  split at h
  · exact ensureReserve_eq_some h
  · unfold World.claimReserve at h
    simp only [Option.bind_eq_bind, Option.bind_eq_some_iff] at h
    obtain ⟨task, _, execution, _, job, _, _, _, _, _, spendId, _, spend, _, hreserve⟩ := h
    exact reserveFor_eq_some hreserve
  · cases h
  · exact reserveFor_eq_some h
  · cases h
  · cases h

/-- A first grant rests on a repeated reserve that the ledger allowed. -/
theorem claimReserve_of_granted {w w' : World} {env : LedgerEnv} {taskId jobId : String} {input : ClaimDto}
    {now : ℤ} {clock : List ℤ} {newSpendId : String} {response : ClaimResponse}
    (h : w.claimDispatch env taskId jobId input now clock newSpendId = some (.ok (.ok response, w')))
    (hgranted : response.granted = true) (hfirst : response.replay = false) :
    ∃ c, w.claimReserve env taskId jobId input clock newSpendId = some c ∧ c.Allowed := by
  unfold World.claimDispatch at h
  rcases hf : w.fencedTask taskId input.agentName input.runId input.executionAttemptId with _ | task
  · simp only [hf] at h
    cases h
  rcases hx : w.claimExecution env.host task input with _ | execution
  · simp only [hf, hx] at h
    cases h
  rcases hj : w.lockJob jobId with _ | before
  · simp only [hf, hx, hj] at h
    cases h
  rcases hb : World.claimBody env.host execution before with _ | body
  · simp only [hf, hx, hj, hb] at h
    cases h
  simp only [hf, hx, hj, hb] at h
  have hfind : w.findJob jobId = some before := Js.orThrow_eq_ok.mp hj
  obtain ⟨hm, -, -⟩ := changes_expire (Table.mem_of_lookup hfind) now
  rcases expireDispatchIfNeeded_cases w before now with he | ⟨_, he⟩ <;> rw [he] at h hm <;> dsimp only at h hm
  · obtain ⟨hst, _⟩ := ((claimJob_eq_some hm h).2.2 response rfl hgranted).2.2 hfirst
    unfold World.claimJob World.dispatchReady at h
    simp only [hst] at h
    rcases hs : before.spendId with _ | spendId
    · simp only [hs] at h
      cases h
    rcases hp : Ledger.findSpend w.spends spendId with _ | spend
    · simp only [hs, hp] at h
      cases h
    simp only [hs, hp] at h
    obtain ⟨⟨at_, day, request⟩, hcall, h⟩ := Option.map_eq_some_iff.mp h
    obtain ⟨⟨answer, spends⟩, hreserve, h⟩ := Js.bind_eq_ok.mp h
    obtain ⟨_, _, hgrant⟩ := grantDispatch_eq_ok (w := { w with spends }) hm hst h
    obtain ⟨_, _, action, reservation, budget, rfl⟩ := hgrant response rfl hgranted
    refine ⟨⟨w.ledgerEnv env, w.spends, at_, day, request, newSpendId⟩, ?_, action, reservation, budget, spends,
      hreserve⟩
    simp [World.claimReserve, hf, hx, hfind, hb, hst, hs, hp, Except.toOption, World.reserveFor, hcall, guard]
  · -- an expired job is unknown: its claim is a replay
    have hready := ((claimJob_eq_some hm h).2.2 response rfl hgranted).2.2 hfirst
    cases hready.1

theorem reserve_of_grantsFirst {e : JobStep} {jobId : String} (hn : next e.before e.action e.after)
    (h : GrantsFirst e jobId) : ∃ c, reserveOf e.before e.action = some c ∧ c.Allowed := by
  obtain ⟨w, action, w'⟩ := e
  obtain ⟨env, taskId, input, now, clock, newSpendId, response, rfl, hanswer, hgranted, hfirst⟩ := h
  unfold answer at hanswer
  simp only [perform] at hanswer
  rcases hr : w.claimDispatch env taskId jobId input now clock newSpendId with _ | _ | ⟨_ | answer, w₁⟩ <;>
    simp only [hr, commitIfReady, commit] at hanswer
  · cases hanswer
  · cases hanswer
  · cases hanswer
  · cases hanswer
    exact claimReserve_of_granted hr hgranted hfirst

/-! The circuit of a provider over a run. -/

/-- The step stores a settlement that opens the provider's circuit for the day. -/
def StoresAnomaly (e : JobStep) (provider : String) (day : ℤ) : Prop :=
  ∃ row ∈ e.after.spends, Ledger.opensCircuit provider day row = true ∧ row ∉ e.before.spends

/-- The first grant of a job's dispatch, on a reserve of the provider on the day. -/
def DispatchesFirst (e : JobStep) (provider : String) (day : ℤ) : Prop :=
  (∃ jobId, GrantsFirst e jobId) ∧
    ∃ c, reserveOf e.before e.action = some c ∧ c.request.provider = provider ∧ c.day = day

/-- A step under an anomaly of an earlier one: its reserve, if any, is of that provider on that day. -/
def AfterAnomaly (steps : List JobStep) (P : JobStep → String → ℤ → Prop) : Prop :=
  ∀ earlier e later, steps = earlier ++ e :: later → ∀ provider day,
    (∃ e₀ ∈ earlier, StoresAnomaly e₀ provider day) → P e provider day

/-- No reserve of the provider on the day is allowed, and no job's first dispatch is granted on one. -/
def Stopped (e : JobStep) (provider : String) (day : ℤ) : Prop :=
  (∀ c, reserveOf e.before e.action = some c → c.request.provider = provider → c.day = day → ¬ c.Allowed) ∧
    ¬ DispatchesFirst e provider day

/-- The step does not repeat a reserve that is still held and that the other policies admit. -/
def NoReplay (e : JobStep) (provider : String) (day : ℤ) : Prop :=
  ∀ c, reserveOf e.before e.action = some c → c.request.provider = provider → c.day = day → ¬ c.Replayable

theorem circuitOpen_run {w w' : World} {steps : List JobStep} (h : Run next w steps w') (hs : Sound w)
    {provider : String} {day : ℤ} (hopen : CircuitOpen w.spends provider day) :
    CircuitOpen w'.spends provider day := by
  have hstep : ∀ s a s', (Sound s ∧ CircuitOpen s.spends provider day) → next s a s' →
      Sound s' ∧ CircuitOpen s'.spends provider day := by
    intro s a s' ⟨hs, ho⟩ hn
    exact ⟨sound_next hs hn, ho.of_effect hs.spends (next_moves hs.spends hn).2⟩
  exact (h.invariant hstep ⟨hs, hopen⟩).2

/-- An anomaly of an earlier step has the circuit open in every later state. -/
theorem circuitOpen_of_anomaly {w w' : World} {steps : List JobStep} (h : Run next w steps w') (hs : Sound w)
    {e : JobStep} (he : e ∈ steps) {provider : String} {day : ℤ} (ha : StoresAnomaly e provider day) :
    CircuitOpen w'.spends provider day := by
  obtain ⟨earlier, later, rfl, hb, hn, hafter⟩ := h.split he
  obtain ⟨row, hrow, hopens, _⟩ := ha
  exact circuitOpen_run hafter (sound_next (sound_run hb hs) hn) ⟨row, hrow, hopens⟩

theorem allowed_iff_replayable {w : World} {action : Action} {c : ReserveCall} (hc : reserveOf w action = some c)
    (hopen : CircuitOpen w.spends c.request.provider c.day) : c.Allowed ↔ c.Replayable := by
  obtain ⟨hspends, hday⟩ := reserveOf_eq_some hc
  rw [← hspends, ← hday] at hopen
  exact Ledger.reserveAt_allowed_iff hopen

theorem stopped_iff_noReplay {e : JobStep} (hn : next e.before e.action e.after) {provider : String} {day : ℤ}
    (hopen : CircuitOpen e.before.spends provider day) : Stopped e provider day ↔ NoReplay e provider day := by
  have hallowed : ∀ c, reserveOf e.before e.action = some c → c.request.provider = provider → c.day = day →
      (c.Allowed ↔ c.Replayable) := by
    rintro c hc rfl rfl
    exact allowed_iff_replayable hc hopen
  constructor
  · intro h c hc hp hd hr
    exact h.1 c hc hp hd ((hallowed c hc hp hd).mpr hr)
  · intro h
    refine ⟨fun c hc hp hd ha => h c hc hp hd ((hallowed c hc hp hd).mp ha), ?_⟩
    rintro ⟨⟨jobId, hg⟩, c, hc, hp, hd⟩
    obtain ⟨c', hc', ha⟩ := reserve_of_grantsFirst hn hg
    obtain rfl : c = c' := Option.some.inj (hc.symm.trans hc')
    exact h c hc hp hd ((hallowed c hc hp hd).mp ha)

/-- A circuit once open stops its provider for the day exactly when nothing is replayed on it. -/
theorem circuit_stops_iff {w : World} {steps : List JobStep} (h : Run next emptyWorld steps w) :
    AfterAnomaly steps Stopped ↔ AfterAnomaly steps NoReplay := by
  have hiff : ∀ earlier e later, steps = earlier ++ e :: later → ∀ provider day,
      (∃ e₀ ∈ earlier, StoresAnomaly e₀ provider day) → (Stopped e provider day ↔ NoReplay e provider day) := by
    rintro earlier e later rfl provider day ⟨e₀, he₀, ha⟩
    obtain ⟨hb, hn, _⟩ := h.of_append
    exact stopped_iff_noReplay hn (circuitOpen_of_anomaly hb sound_empty he₀ ha)
  constructor
  · intro hs earlier e later heq provider day ha
    exact (hiff earlier e later heq provider day ha).mp (hs earlier e later heq provider day ha)
  · intro hr earlier e later heq provider day ha
    exact (hiff earlier e later heq provider day ha).mpr (hr earlier e later heq provider day ha)

/-- Two reserves of one provider, an anomaly of the first, and the second repeated. -/
def repeatedAfterAnomaly : List Action :=
  [.ledger (.reserve Ledger.sampleEnv [0, 1] "spend-1" (Ledger.sampleReserve "call-1") none),
    .ledger (.reserve Ledger.sampleEnv [2, 3] "spend-2" (Ledger.sampleReserve "call-2") none),
    .ledger (.settle Ledger.sampleEnv 4 "spend-1" (Ledger.sampleSettle "other-model") false),
    .ledger (.reserve Ledger.sampleEnv [5, 6] "unused" (Ledger.sampleReserve "call-2") none)]

theorem circuit_stops_sample :
    AfterAnomaly (runOf emptyWorld repeatedAfterAnomaly).1 Stopped ↔
      AfterAnomaly (runOf emptyWorld repeatedAfterAnomaly).1 NoReplay :=
  circuit_stops_iff (run_runOf emptyWorld repeatedAfterAnomaly)

/-- The second reserve is allowed again although the circuit of its provider is open. -/
theorem replay_passes_open_circuit : ¬ AfterAnomaly (runOf emptyWorld repeatedAfterAnomaly).1 Stopped := by
  intro h
  have hafter : (((runOf emptyWorld repeatedAfterAnomaly).1.get ⟨2, by decide⟩).after.spends.any
      (Ledger.opensCircuit "provider" 0)) = true := by decide +kernel
  have hbefore : (((runOf emptyWorld repeatedAfterAnomaly).1.get ⟨2, by decide⟩).before.spends.any
      (Ledger.opensCircuit "provider" 0)) = false := by decide +kernel
  obtain ⟨row, hrow, hopens⟩ := List.any_eq_true.mp hafter
  have hstores : StoresAnomaly ((runOf emptyWorld repeatedAfterAnomaly).1.get ⟨2, by decide⟩) "provider" 0 :=
    ⟨row, hrow, hopens, fun hmem => List.any_eq_false.mp hbefore row hmem hopens⟩
  obtain ⟨hstopped, _⟩ := h ((runOf emptyWorld repeatedAfterAnomaly).1.take 3)
    ((runOf emptyWorld repeatedAfterAnomaly).1.get ⟨3, by decide⟩) [] rfl "provider" 0
    ⟨_, List.mem_of_getElem? (i := 2) rfl, hstores⟩
  -- the repeated call finds the row of the second reserve, under the same payload and price
  have hcall : (reserveOf ((runOf emptyWorld repeatedAfterAnomaly).1.get ⟨3, by decide⟩).before
      ((runOf emptyWorld repeatedAfterAnomaly).1.get ⟨3, by decide⟩).action).any (fun c =>
        c.request.provider = "provider" && c.day = (0 : ℤ) &&
        (Ledger.findKey c.spends c.request.requestKey).any fun prior =>
          prior.status = .reserved && prior.requestHash = c.request.json.canonicalHash c.env.host &&
          Ledger.currentPolicyDenial c.env c.spends c.day c.request prior = none &&
          (Ledger.selectPrice (Ledger.activeProviderPrices c.env c.request.provider c.now) c.request.model).any
            fun price => prior.priceId = some price.id && prior.priceSnapshot = some price.snapshot &&
              (Ledger.reserveProviderRouteCostNano price.snapshot
                ((Ledger.activeProviderPrices c.env c.request.provider c.now).map (·.snapshot)) c.request.consumer
                c.request.inputTokenCeiling c.request.outputTokenCeiling).toOption.any (· ≤ prior.reservedUsd)) =
      true := by decide +kernel
  simp only [Option.any_eq_true, Bool.and_eq_true, decide_eq_true_eq] at hcall
  obtain ⟨c, hc, ⟨hprovider, hday⟩, prior, hprior, ⟨⟨hst, hhash⟩, hpolicy⟩, price, hselect, ⟨hid, hsnapshot⟩, nano,
    hcost, hle⟩ := hcall
  have hcost' := Js.toOption_eq_some.mp hcost
  have hprice := Ledger.replayPriceDenial_of_same_price hselect hid hsnapshot hcost' hle
  have hopen : CircuitOpen ((runOf emptyWorld repeatedAfterAnomaly).1.get ⟨3, by decide⟩).before.spends
      c.request.provider c.day := by
    rw [hprovider, hday]
    exact ⟨row, hrow, hopens⟩
  exact hstopped c hc hprovider hday
    ((allowed_iff_replayable hc hopen).mpr ⟨prior, hprior, hst, hhash, hpolicy, hprice⟩)

end Mydon.Jobs
