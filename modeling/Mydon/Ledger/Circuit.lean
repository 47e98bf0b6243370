import Mydon.Ledger.Runs

/-! The provider circuit: a settlement that finds a wrong or missing model closes the
provider to new reserves until the next Tashkent day. A replay does not ask for it. -/

namespace Mydon.Ledger

open Mydon.Lib

/-- Some row of the provider opened its circuit on the day. -/
def CircuitOpen (spends : Spends) (provider : String) (day : ℤ) : Prop :=
  ∃ row ∈ spends, opensCircuit provider day row = true

theorem opensCircuit_status {provider : String} {day : ℤ} {row : SpendRow}
    (h : opensCircuit provider day row = true) : row.status ≠ .reserved := by
  unfold opensCircuit at h
  simp only [Bool.and_eq_true, decide_eq_true_eq] at h
  obtain ⟨⟨⟨⟨_, hst⟩, _⟩, _⟩, _⟩ := h
  rw [hst]
  exact SpendStatus.noConfusion

/-- An open circuit stays open through the day: the row that opened it is closed. -/
theorem CircuitOpen.of_effect {spends spends' : Spends} {provider : String} {day : ℤ} (hw : WellFormed spends)
    (h : Effect spends spends') (hopen : CircuitOpen spends provider day) : CircuitOpen spends' provider day := by
  obtain ⟨row, hrow, hopens⟩ := hopen
  exact ⟨row, h.closed_mem hw hrow (opensCircuit_status hopens), hopens⟩

theorem providerCircuit_eq_none {spends : Spends} {now : ℤ} {provider : String} :
    providerCircuit spends now provider = none ↔ ¬ CircuitOpen spends provider (Clock.tashkentDay now) := by
  unfold providerCircuit CircuitOpen
  simp only [Option.map_eq_none_iff, List.find?_eq_none, not_exists, not_and]

/-- An open circuit prices no new reserve. -/
theorem priceNewReserve_of_circuitOpen {env : LedgerEnv} {spends : Spends} {now : ℤ} {request : ReserveRequest}
    (hopen : CircuitOpen spends request.provider (Clock.tashkentDay now)) (nano : ℕ) :
    priceNewReserve env spends now request ≠ .ok nano := by
  intro h
  unfold priceNewReserve at h
  dsimp only at h
  split at h
  · cases h
  · rename_i hdenial
    rw [firstSome_eq_none] at hdenial
    have hcircuit := hdenial _ (List.mem_of_getElem? (i := 5) rfl)
    rw [Option.map_eq_none_iff, providerCircuit_eq_none] at hcircuit
    exact hcircuit hopen

/-- The reserve finds its own reserved row, and every policy that a replay re-validates admits it. -/
def Replayable (env : LedgerEnv) (spends : Spends) (now day : ℤ) (request : ReserveRequest) : Prop :=
  ∃ prior, findKey spends request.requestKey = some prior ∧ prior.status = .reserved ∧
    prior.requestHash = request.json.canonicalHash env.host ∧
    currentPolicyDenial env spends day request prior = none ∧ replayPriceDenial env now request prior = none

/-- An unchanged price does not deny a replay that reserved enough for it. -/
theorem replayPriceDenial_of_same_price {env : LedgerEnv} {now : ℤ} {request : ReserveRequest} {prior : SpendRow}
    {price : PriceRow} {nano : ℕ}
    (hselect : selectPrice (activeProviderPrices env request.provider now) request.model = some price)
    (hid : prior.priceId = some price.id) (hsnapshot : prior.priceSnapshot = some price.snapshot)
    (hcost : reserveProviderRouteCostNano price.snapshot
      ((activeProviderPrices env request.provider now).map (·.snapshot)) request.consumer
      request.inputTokenCeiling request.outputTokenCeiling = .ok nano)
    (hle : nano ≤ prior.reservedUsd) : replayPriceDenial env now request prior = none := by
  unfold replayPriceDenial
  simp only [hselect, hid, hsnapshot, hcost, ne_eq, not_true_eq_false, or_self, if_false]
  rw [denial_eq_none]
  omega

theorem replayReserve_of_replayable {env : LedgerEnv} {spends : Spends} {now day : ℤ} {request : ReserveRequest}
    {requestHash : String} {prior : SpendRow} (hpolicy : currentPolicyDenial env spends day request prior = none)
    (hhash : prior.requestHash = requestHash) (hst : prior.status = .reserved)
    (hprice : replayPriceDenial env now request prior = none) :
    ∃ action reservation snapshot,
      replayReserve env spends now day request requestHash prior = .allowed action reservation snapshot := by
  unfold replayReserve
  simp only [hpolicy, hhash, hst, hprice, ne_eq, not_true_eq_false, if_false, reduceCtorEq]
  exact ⟨_, _, _, rfl⟩

/-- With the circuit open, a reserve is allowed exactly when it is a replay that nothing else denies. -/
theorem reserveAt_allowed_iff {env : LedgerEnv} {spends : Spends} {now day : ℤ} {request : ReserveRequest}
    {newId : String} (hopen : CircuitOpen spends request.provider (Clock.tashkentDay now)) :
    (∃ action reservation snapshot spends',
        reserveAt env spends now day request newId = .ok (.allowed action reservation snapshot, spends')) ↔
      Replayable env spends now day request := by
  unfold reserveAt Replayable
  rcases hk : findKey spends request.requestKey with _ | prior <;> dsimp only
  · constructor
    · rintro ⟨action, reservation, snapshot, spends', h⟩
      rcases newReserve_eq_ok h with ⟨_, _, _, _, hrefused, _⟩ | ⟨nano, _, _, hprice, _⟩
      · cases hrefused
      · exact absurd hprice (priceNewReserve_of_circuitOpen hopen nano)
    · rintro ⟨_, hnone, _⟩
      cases hnone
  · constructor
    · rintro ⟨action, reservation, snapshot, spends', h⟩
      rw [Except.ok.injEq, Prod.mk.injEq] at h
      obtain ⟨hpolicy, hhash, hst, hprice, _⟩ := replayReserve_allowed h.1
      exact ⟨prior, rfl, hst, hhash, hpolicy, hprice⟩
    · rintro ⟨_, hprior, hst, hhash, hpolicy, hprice⟩
      obtain rfl := Option.some.inj hprior
      obtain ⟨action, reservation, snapshot, h⟩ := replayReserve_of_replayable hpolicy hhash hst hprice
      exact ⟨action, reservation, snapshot, spends, by rw [h]⟩

end Mydon.Ledger
