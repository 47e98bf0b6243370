import Mydon.Ledger.Runs

/-! The daily budget: with fixed caps, and settlements that stay within what their
rows reserved, no run exceeds a cap on any day, for the whole table or for one agent. -/

namespace Mydon.Ledger

open Mydon.Lib

/-- The reserve actions of a run see one global cap, and one cap for each agent. -/
def FixedCaps (global : ℕ) (perAgent : String → ℕ) : Action → Prop
  | .reserve env _ _ _ _ => (globalCap env).nano = global ∧
      ∀ a ∈ env.agents, (agentCap env a.budgetPerDayUsd a.name).nano = perAgent a.id
  | _ => True

/-- A settlement that closes a row computes no more than the row reserved. -/
def WithinReserve (e : LedgerStep) : Prop :=
  match e.action with
  | .settle env _ id dto _ => ∀ row ∈ findSpend e.before id, row.status = .reserved →
      ∀ settlement ∈ (normalizeSettlement dto).toOption,
        ∀ found ∈ (settlementActual env row settlement).toOption, ∀ actualNano ∈ found.2,
          actualNano ≤ row.reservedUsd
  | _ => True

structure Within (global : ℕ) (perAgent : String → ℕ) (spends : Spends) : Prop where
  global : ∀ day, sumExposure spends day none ≤ global
  perAgent : ∀ day id, sumExposure spends day (some id) ≤ perAgent id

theorem within_nil (global : ℕ) (perAgent : String → ℕ) : Within global perAgent [] :=
  ⟨fun _ => Nat.zero_le _, fun _ _ => Nat.zero_le _⟩

/-- The row of the day, and of the agent where one is given. -/
def counts (day : ℤ) (agentId : Option String) (r : SpendRow) : Bool :=
  r.day = day && agentId.all fun id => r.agentId = some id

theorem counts_none {day : ℤ} {r : SpendRow} : counts day none r = true ↔ r.day = day := by simp [counts]

theorem counts_some {day : ℤ} {id : String} {r : SpendRow} :
    counts day (some id) r = true ↔ r.day = day ∧ r.agentId = some id := by simp [counts]

theorem sumExposure_append (spends : Spends) (row : SpendRow) (day : ℤ) (agentId : Option String) :
    sumExposure (spends ++ [row]) day agentId =
      sumExposure spends day agentId + if counts day agentId row then rowExposure row else 0 := by
  unfold sumExposure counts
  rw [List.filter_append, List.map_append, List.sum_append, List.filter_singleton]
  split_ifs with h <;> simp [h]

theorem sumExposure_append_denied {spends : Spends} {row : SpendRow} (h : row.status = .denied) (day : ℤ)
    (agentId : Option String) : sumExposure (spends ++ [row]) day agentId = sumExposure spends day agentId := by
  have hzero : rowExposure row = 0 := by
    unfold rowExposure
    rw [h]
  rw [sumExposure_append, hzero, ite_self, Nat.add_zero]

/-- Closing a row at no more than it reserved raises no exposure. -/
theorem sumExposure_writeSpend_le {spends : Spends} {row row' : SpendRow} (hw : WellFormed spends)
    (hrow : findSpend spends row.id = some row) (hc : Closes row row')
    (hle : rowExposure row' ≤ rowExposure row) (day : ℤ) (agentId : Option String) :
    sumExposure (writeSpend spends row') day agentId ≤ sumExposure spends day agentId := by
  refine Table.sum_write_le (counts day agentId) rowExposure fun r hr hid => ?_
  have he : r = row := Table.eq_of_key_eq hw.ids hr (Table.mem_of_lookup hrow) (hid.trans hc.id)
  subst he
  unfold counts
  rw [hc.day, hc.agentId]
  exact ⟨rfl, hle⟩

theorem rowExposure_reserved {r : SpendRow} (h : r.status = .reserved) : rowExposure r = r.reservedUsd := by
  unfold rowExposure
  rw [h]

/-- A settlement within the reserve exposes no more than the reserve did. -/
theorem rowExposure_settledRow_le {row : SpendRow} {settlement : Settlement} {settlementHash : String}
    {anomaly : Option SettlementAnomaly} {actualNano : Option ℕ} {detectedAt : ℤ}
    (h : ∀ nano ∈ actualNano, nano ≤ row.reservedUsd) :
    rowExposure (settledRow row settlement settlementHash anomaly actualNano detectedAt) ≤ row.reservedUsd := by
  have hactual : actualNano.getD 0 ≤ row.reservedUsd ∧ actualNano.getD row.reservedUsd ≤ row.reservedUsd := by
    rcases actualNano with _ | nano
    · exact ⟨Nat.zero_le _, le_rfl⟩
    · exact ⟨h nano rfl, h nano rfl⟩
  unfold rowExposure settledRow
  dsimp only
  by_cases hsuccess : settlement.outcome = .success ∧ anomaly = none
  · rw [if_pos hsuccess]
    exact hactual.1
  · rw [if_neg hsuccess]
    dsimp only
    split_ifs <;> omega

variable {global : ℕ} {perAgent : String → ℕ} {spends spends' : Spends} {env : LedgerEnv}

theorem within_of_le (h : Within global perAgent spends)
    (hle : ∀ day agentId, sumExposure spends' day agentId ≤ sumExposure spends day agentId) :
    Within global perAgent spends' :=
  ⟨fun day => (hle day none).trans (h.global day), fun day id => (hle day (some id)).trans (h.perAgent day id)⟩

theorem resolveAgent_mem {consumer : Consumer} {agentName : Option String} {a : AgentRow}
    (h : (resolveAgent env consumer agentName).1 = some a) : a ∈ env.agents := by
  unfold resolveAgent at h
  rcases hn : agentName.filter (· ≠ "") with _ | name
  · simp only [hn] at h
    split_ifs at h
  · simp only [hn] at h
    rcases hf : env.agents.find? (fun a => a.name = name && a.archivedAt.isNone) with _ | row
    · simp only [hf] at h
      cases h
    · simp only [hf] at h
      cases h
      exact List.mem_of_find?_eq_some hf

/-- A reserve that is inserted fits both caps; a denied one weighs nothing. -/
theorem within_reserveAt {now day : ℤ} {request : ReserveRequest}
    {newId : String} {response : ReserveResponse} (hglobal : (globalCap env).nano = global)
    (hagents : ∀ a ∈ env.agents, (agentCap env a.budgetPerDayUsd a.name).nano = perAgent a.id)
    (hin : Within global perAgent spends)
    (h : reserveAt env spends now day request newId = .ok (response, spends')) : Within global perAgent spends' := by
  unfold reserveAt at h
  rcases hk : findKey spends request.requestKey with _ | prior
  · simp only [hk] at h
    rcases newReserve_eq_ok h with ⟨nano, action, reason, snapshot, _, hi⟩ |
      ⟨nano, snapshot, action, _, hlimit, _, hi⟩ <;>
      obtain ⟨_, _, _, rfl⟩ := insertSpend_eq_ok.mp hi
    · refine within_of_le hin fun d agentId => ?_
      rw [sumExposure_append_denied rfl]
    · obtain ⟨_, hfit, hfitAgent⟩ := limitDenial_eq_none.mp hlimit
      rw [hglobal] at hfit
      constructor
      · intro d
        rw [sumExposure_append]
        split_ifs with hc
        · obtain rfl := counts_none.mp hc
          exact hfit
        · exact hin.global d
      · intro d id
        rw [sumExposure_append]
        split_ifs with hc
        · obtain ⟨rfl, hid⟩ := counts_some.mp hc
          obtain ⟨a, ha, rfl⟩ := Option.map_eq_some_iff.mp hid
          have := hfitAgent a ha
          rw [hagents a (resolveAgent_mem ha)] at this
          exact this
        · exact hin.perAgent d id
  · simp only [hk, Except.ok.injEq, Prod.mk.injEq] at h
    obtain ⟨_, rfl⟩ := h
    exact hin

/-- One step keeps the table within the caps. -/
theorem within_next {action : Action}
    (hw : WellFormed spends) (hin : Within global perAgent spends) (hn : next spends action spends')
    (hcaps : FixedCaps global perAgent action) (hactual : WithinReserve ⟨spends, action, spends'⟩) :
    Within global perAgent spends' := by
  unfold next at hn
  subst hn
  rcases action with ⟨env, clock, newId, dto, keyForDay⟩ | ⟨env, detectedAt, id, dto, allow⟩ |
    ⟨env, releasedAt, updatedAt, id, reason, allow⟩ | ⟨env, now, requestKey⟩ <;> simp only [perform]
  · rcases hr : reserveInTx env spends clock newId dto keyForDay with _ | _ | ⟨response, spends'⟩
    · exact hin
    · exact hin
    · obtain ⟨now, day, request, _, h⟩ := reserveInTx_eq_some.mp hr
      exact within_reserveAt hcaps.1 hcaps.2 hin h
  · rcases hr : settleInTx env spends detectedAt id dto allow with _ | ⟨a, spends'⟩
    · exact hin
    · obtain ⟨settlement, row, hs, hrow, _, ⟨_, _, _, rfl⟩ | ⟨hst, anomaly, actualNano, hact, _, rfl⟩⟩ :=
        settleInTx_eq_ok hr
      · exact hin
      · have hid : row.id = id := Table.key_of_lookup hrow
        refine within_of_le hin fun day agentId =>
          sumExposure_writeSpend_le hw (hid.symm ▸ hrow) (closes_settledRow ..) ?_ day agentId
        rw [rowExposure_reserved hst]
        refine rowExposure_settledRow_le fun nano hnano => ?_
        exact hactual row hrow hst settlement (by rw [hs]; rfl) (anomaly, actualNano) (by rw [hact]; rfl) nano hnano
  · rcases hr : releaseInTx env spends releasedAt updatedAt id reason allow with _ | ⟨a, spends'⟩
    · exact hin
    · obtain ⟨row, hrow, _, ⟨_, _, _, rfl⟩ | ⟨hst, _, rfl⟩⟩ := releaseInTx_eq_ok hr
      · exact hin
      · have hid : row.id = id := Table.key_of_lookup hrow
        exact within_of_le hin fun day agentId =>
          sumExposure_writeSpend_le hw (hid.symm ▸ hrow) (closes_releasedRow ..) (Nat.zero_le _) day agentId
  · rcases hr : recoverPreDispatchInTx env spends now requestKey with _ | ⟨a, spends'⟩
    · exact hin
    · obtain ⟨_, _, rfl⟩ | ⟨row, hrow, _, ⟨_, _, rfl⟩ | ⟨hst, _, rfl⟩⟩ := recoverPreDispatchInTx_eq_ok hr
      · exact hin
      · exact hin
      · have hm := Table.mem_of_lookup hrow
        have hfind : findSpend spends row.id = some row := hw.findSpend_iff.mpr ⟨hm, rfl⟩
        exact within_of_le hin fun day agentId =>
          sumExposure_writeSpend_le hw hfind (closes_releasedRow row LLM_PRE_DISPATCH_RECOVERY_REASON now now)
            (Nat.zero_le _) day agentId

/-- What the budget asks of a step: fixed caps, and no settlement above its reserve. -/
def KeepsBudget (global : ℕ) (perAgent : String → ℕ) (e : LedgerStep) : Prop :=
  FixedCaps global perAgent e.action ∧ WithinReserve e

theorem within_run {steps : List LedgerStep}
    (h : Run next spends steps spends') (hw : WellFormed spends) (hin : Within global perAgent spends)
    (hkeeps : ∀ e ∈ steps, KeepsBudget global perAgent e) : Within global perAgent spends' := by
  have hstep : ∀ s a s', (WellFormed s ∧ Within global perAgent s) → next s a s' →
      KeepsBudget global perAgent ⟨s, a, s'⟩ → WellFormed s' ∧ Within global perAgent s' := by
    intro s a s' ⟨hw, hin⟩ hn ⟨hcaps, hactual⟩
    exact ⟨wellFormed_next hw hn, within_next hw hin hn hcaps hactual⟩
  exact (h.invariant_of hstep ⟨hw, hin⟩ hkeeps).2

/-- A priced reserve of a new key that fits neither its global nor its agent's cap is refused:
at most a denied row is written, which weighs nothing. -/
theorem reserveAt_of_not_fits {spends : Spends} {now day : ℤ} {request : ReserveRequest}
    {newId : String} {nano : ℕ} (hk : findKey spends request.requestKey = none)
    (hp : priceNewReserve env spends now request = .ok nano)
    (hfit : ¬ (sumExposure spends day none + nano ≤ (globalCap env).nano ∧
      ∀ a ∈ (resolveAgent env request.consumer request.agentName).1,
        sumExposure spends day (some a.id) + nano ≤ (agentCap env a.budgetPerDayUsd a.name).nano)) :
    (∃ e, reserveAt env spends now day request newId = .error e ∧
        ¬ ((∀ r ∈ spends, r.id ≠ newId) ∧ fitsMoney nano)) ∨
      ∃ action reason snapshot row, row.status = .denied ∧ reserveAt env spends now day request newId =
        .ok (.refused .denied action reason false snapshot, spends ++ [row]) := by
  rcases hl : limitDenial env spends day (resolveAgent env request.consumer request.agentName).1 nano with _ | reason
  · exact absurd (limitDenial_eq_none.mp hl).2 hfit
  · unfold reserveAt
    simp only [hk]
    unfold newReserve
    simp only [hp, hl]
    generalize budgetAction ((resolveAgent env request.consumer request.agentName).1.bind (·.budgetOnExceeded)) =
      action
    generalize hrow : deniedRow env now day request (request.json.canonicalHash env.host) newId nano action reason =
      row
    have hid : row.id = newId := by rw [← hrow]; rfl
    have hkey : row.requestKey = request.requestKey := by rw [← hrow]; rfl
    have husd : row.reservedUsd = nano := by rw [← hrow]; rfl
    rcases hi : insertSpend spends row with e | spends'
    · refine .inl ⟨e, rfl, fun ⟨hfresh, hmoney⟩ => ?_⟩
      have : insertSpend spends row = .ok (spends ++ [row]) :=
        insertSpend_eq_ok.mpr ⟨hid ▸ hfresh, hkey ▸ Table.lookup_eq_none_iff.mp hk, husd ▸ hmoney, rfl⟩
      rw [hi] at this
      cases this
    · obtain ⟨_, _, _, rfl⟩ := insertSpend_eq_ok.mp hi
      exact .inr ⟨_, _, _, row, by rw [← hrow]; rfl, rfl⟩

/-- Budget safety: on every day of every run the exposure stays within the global cap and within
the cap of each agent; a reserve that does not fit writes only a denied row, if it does not fail. -/
theorem exposure_within_caps {global : ℕ} {perAgent : String → ℕ} {spends : Spends} {steps : List LedgerStep}
    (h : Run next [] steps spends) (hcaps : ∀ e ∈ steps, FixedCaps global perAgent e.action)
    (hactual : ∀ e ∈ steps, WithinReserve e) :
    (∀ day, sumExposure spends day none ≤ global ∧ ∀ id, sumExposure spends day (some id) ≤ perAgent id) ∧
      ∀ e ∈ steps, ∀ env clock newId dto keyForDay now day request nano,
        e.action = .reserve env clock newId dto keyForDay →
        reserveCall env clock dto keyForDay = some (now, day, request) →
        findKey e.before request.requestKey = none → priceNewReserve env e.before now request = .ok nano →
        ¬ (sumExposure e.before day none + nano ≤ global ∧
          ∀ a ∈ (resolveAgent env request.consumer request.agentName).1,
            sumExposure e.before day (some a.id) + nano ≤ perAgent a.id) →
        (∀ d agentId, sumExposure e.after d agentId = sumExposure e.before d agentId) ∧
          ((∃ error, answer e = .failed error ∧ e.after = e.before ∧
              ¬ ((∀ r ∈ e.before, r.id ≠ newId) ∧ fitsMoney nano)) ∨
            ∃ action reason snapshot row, answer e = .reserve (.refused .denied action reason false snapshot) ∧
              row.status = .denied ∧ e.after = e.before ++ [row]) := by
  constructor
  · have hin := within_run h wellFormed_nil (within_nil global perAgent) fun e he => ⟨hcaps e he, hactual e he⟩
    exact fun day => ⟨hin.global day, hin.perAgent day⟩
  · intro e he env clock newId dto keyForDay now day request nano ha hcall hk hp hfit
    obtain ⟨_, _, _, _, hn, _⟩ := h.split he
    have hcap : FixedCaps global perAgent e.action := hcaps e he
    unfold next at hn
    unfold answer
    rw [ha] at hn hcap ⊢
    have hfit' : ¬ (sumExposure e.before day none + nano ≤ (globalCap env).nano ∧
        ∀ a ∈ (resolveAgent env request.consumer request.agentName).1,
          sumExposure e.before day (some a.id) + nano ≤ (agentCap env a.budgetPerDayUsd a.name).nano) := by
      rintro ⟨hg, hagent⟩
      refine hfit ⟨hcap.1 ▸ hg, fun a hm => ?_⟩
      rw [← hcap.2 a (resolveAgent_mem hm)]
      exact hagent a hm
    have hin : reserveInTx env e.before clock newId dto keyForDay =
        some (reserveAt env e.before now day request newId) :=
      reserveInTx_eq_some.mpr ⟨now, day, request, hcall, rfl⟩
    rcases @reserveAt_of_not_fits _ _ _ _ _ newId _ hk hp hfit' with ⟨error, hr, hwhy⟩ |
      ⟨action, reason, snapshot, row, hst, hr⟩
    · simp only [perform, hin, hr, commit] at hn ⊢
      exact ⟨fun d agentId => by rw [hn], .inl ⟨error, rfl, hn, hwhy⟩⟩
    · simp only [perform, hin, hr, commit] at hn ⊢
      refine ⟨fun d agentId => ?_, .inr ⟨action, reason, snapshot, row, rfl, hst, hn⟩⟩
      rw [hn, sumExposure_append_denied hst]

/-- A reserve that is settled below its ceiling, and one that is released. -/
def budgetRun : List Action :=
  [.reserve sampleEnv [0, 1] "spend-1" (sampleReserve "call-1") none,
    .settle sampleEnv 2 "spend-1" (sampleSettle "model") false,
    .reserve sampleEnv [3, 4] "spend-2" (sampleReserve "call-2") none,
    .release sampleEnv 5 5 "spend-2" "cancelled" false]

theorem exposure_within_caps_sample :
    sumExposure (runOf [] budgetRun).2 0 none ≤ 10 * NANO_USD ∧
      sumExposure (runOf [] budgetRun).2 0 none = 700000 ∧ (runOf [] budgetRun).2.length = 2 := by
  have hcaps : ∀ a ∈ budgetRun, FixedCaps (10 * NANO_USD) (fun _ => 0) a := by
    unfold budgetRun
    simp only [List.forall_mem_cons, FixedCaps]
    have hcap : (globalCap sampleEnv).nano = 10 * NANO_USD := by decide
    refine ⟨⟨hcap, List.forall_mem_nil _⟩, trivial, ⟨hcap, List.forall_mem_nil _⟩, trivial, List.forall_mem_nil _⟩
  have hactual : ∀ e ∈ (runOf [] budgetRun).1, WithinReserve e := by
    unfold budgetRun runOf
    simp only [runActions, List.forall_mem_cons]
    refine ⟨trivial, ?_, trivial, trivial, List.forall_mem_nil _⟩
    unfold WithinReserve
    decide
  have h := exposure_within_caps (run_runOf [] budgetRun) (fun e he => hcaps _ (action_mem_of_runActions he)) hactual
  exact ⟨(h.1 0).1, by decide, by decide⟩

end Mydon.Ledger
