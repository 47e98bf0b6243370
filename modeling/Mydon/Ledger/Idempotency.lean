import Mydon.Ledger.Runs

/-! Request keys authorise once: one row and one fresh authorisation for a key, replays
only of what is still reserved, and closed rows that no operation changes. -/

namespace Mydon.Ledger

open Mydon.Lib

/-- The Tashkent day of a reserve. -/
def Action.day : Action → Option ℤ
  | .reserve env clock _ dto requestKeyForDay => (reserveCall env clock dto requestKeyForDay).map fun c => c.2.1
  | _ => none

/-- The digest of the payload that a reserve asks for. -/
def Action.payloadHash : Action → Option String
  | .reserve env clock _ dto requestKeyForDay =>
    (reserveCall env clock dto requestKeyForDay).map fun c => c.2.2.json.canonicalHash env.host
  | _ => none

section
variable {env : LedgerEnv} {clock : List ℤ} {newId : String} {dto : ReserveDto} {keyForDay : Option (ℤ → String)}
  {now day : ℤ} {request : ReserveRequest}

theorem reserve_day (h : reserveCall env clock dto keyForDay = some (now, day, request)) :
    (Action.reserve env clock newId dto keyForDay).day = some day := by simp [Action.day, h]

theorem reserve_payloadHash (h : reserveCall env clock dto keyForDay = some (now, day, request)) :
    (Action.reserve env clock newId dto keyForDay).payloadHash = some (request.json.canonicalHash env.host) := by
  simp [Action.payloadHash, h]

end

/-- The step answers that the call is allowed. -/
def Allows (e : LedgerStep) (reservation : Reservation) : Prop :=
  ∃ action snapshot, answer e = .reserve (.allowed action reservation snapshot)

/-- The step inserts a reserved row and answers with it. -/
structure Grants (e : LedgerStep) (row : SpendRow) : Prop where
  status : row.status = .reserved
  fresh : findKey e.before row.requestKey = none
  after : e.after = e.before ++ [row]
  day : e.action.day = some row.day
  payloadHash : e.action.payloadHash = some row.requestHash
  allows : Allows e ⟨row.id, row.requestKey, row.day, row.reservedUsd, false⟩

/-- The step answers with a row that is reserved already. -/
structure Replays (e : LedgerStep) (row : SpendRow) : Prop where
  status : row.status = .reserved
  found : findKey e.before row.requestKey = some row
  after : e.after = e.before
  day : e.action.day = some row.day
  payloadHash : e.action.payloadHash = some row.requestHash

theorem reserve_of_answer {spends : Spends} {action : Action} {response : ReserveResponse}
    (h : (perform spends action).1 = .reserve response) :
    ∃ env clock newId dto keyForDay, action = .reserve env clock newId dto keyForDay := by
  rcases action with ⟨env, clock, newId, dto, keyForDay⟩ | ⟨env, detectedAt, id, dto, allow⟩ |
    ⟨env, releasedAt, updatedAt, id, reason, allow⟩ | ⟨env, now, requestKey⟩ <;> simp only [perform] at h
  · exact ⟨_, _, _, _, _, rfl⟩
  · rcases hr : settleInTx env spends detectedAt id dto allow with _ | _ <;> simp [hr, commit] at h
  · rcases hr : releaseInTx env spends releasedAt updatedAt id reason allow with _ | _ <;> simp [hr, commit] at h
  · rcases hr : recoverPreDispatchInTx env spends now requestKey with _ | _ <;> simp [hr, commit] at h

/-- A step that allows a call grants a new reservation or replays one. -/
theorem allows_cases {e : LedgerStep} {reservation : Reservation} (hw : WellFormed e.before)
    (hn : next e.before e.action e.after) (h : Allows e reservation) :
    (∃ row, Grants e row ∧ reservation = ⟨row.id, row.requestKey, row.day, row.reservedUsd, false⟩) ∨
      ∃ row, Replays e row ∧ reservation = ⟨row.id, row.requestKey, row.day, row.reservedUsd, true⟩ := by
  obtain ⟨spends, action, spends'⟩ := e
  have hallows := h
  obtain ⟨budgetAction, snapshot, h⟩ := h
  unfold answer at h
  obtain ⟨env, clock, newId, dto, keyForDay, rfl⟩ := reserve_of_answer h
  rcases next_reserve hn with ⟨_, hne⟩ | ⟨now, day, request, response, hcall, hat, hresp⟩
  · exact absurd h (hne _)
  · rw [hresp, Answer.reserve.injEq] at h
    subst h
    unfold reserveAt at hat
    rcases hk : findKey spends request.requestKey with _ | prior
    · simp only [hk] at hat
      rcases newReserve_eq_ok hat with ⟨_, _, _, _, hrefused, _⟩ | ⟨nano, b, a, _, _, hrow, hi⟩
      · cases hrefused
      · obtain ⟨_, _, _, rfl⟩ := insertSpend_eq_ok.mp hi
        simp only [allowedResponse, ReserveResponse.allowed.injEq] at hrow
        obtain ⟨_, rfl, _⟩ := hrow
        exact .inl ⟨_, ⟨rfl, hk, rfl, reserve_day hcall, reserve_payloadHash hcall, hallows⟩, rfl⟩
    · simp only [hk, Except.ok.injEq, Prod.mk.injEq] at hat
      obtain ⟨hreplay, rfl⟩ := hat
      obtain ⟨hpolicy, hph, hst, _, rfl⟩ := replayReserve_allowed hreplay
      obtain rfl := currentPolicyDenial_day hpolicy
      have hkey : prior.requestKey = request.requestKey := Table.key_of_lookup hk
      exact .inr ⟨prior, ⟨hst, hkey ▸ hk, rfl, reserve_day hcall, hph ▸ reserve_payloadHash hcall⟩, rfl⟩

/-- A row that a step brings about while it is reserved is one that the step grants. -/
theorem grants_of_new {e : LedgerStep} {row : SpendRow} (hw : WellFormed e.before)
    (hn : next e.before e.action e.after) (hst : row.status = .reserved) (hb : row ∉ e.before)
    (ha : row ∈ e.after) : Grants e row := by
  obtain ⟨spends, action, spends'⟩ := e
  dsimp only at hw hn hb ha
  rcases next_closing hw hn with hc | ⟨env, clock, newId, dto, keyForDay, rfl⟩
  · rcases hc with _ | ⟨r, r', _, _, hc, _⟩
    · exact absurd ha hb
    · rcases Table.mem_write.mp ha with ⟨hm, _⟩ | ⟨rfl, _⟩
      · exact absurd hm hb
      · exact absurd hst hc.status
  · rcases next_reserve hn with ⟨rfl, _⟩ | ⟨now, day, request, response, hcall, hat, hresp⟩
    · exact absurd ha hb
    · unfold reserveAt at hat
      rcases hk : findKey spends request.requestKey with _ | prior
      · simp only [hk] at hat
        rcases newReserve_eq_ok hat with ⟨_, _, _, _, _, hi⟩ | ⟨nano, b, a, _, _, rfl, hi⟩ <;>
          obtain ⟨_, _, _, rfl⟩ := insertSpend_eq_ok.mp hi <;>
          rcases List.mem_append.mp ha with hm | hm
        · exact absurd hm hb
        · rw [List.mem_singleton.mp hm] at hst
          cases hst
        · exact absurd hm hb
        · obtain rfl := List.mem_singleton.mp hm
          exact ⟨rfl, hk, rfl, reserve_day hcall, reserve_payloadHash hcall, _, _, hresp⟩
      · simp only [hk, Except.ok.injEq, Prod.mk.injEq] at hat
        obtain ⟨_, rfl⟩ := hat
        exact absurd ha hb

/-! Closing a closed row. -/

/-- The row was closed by this settlement. -/
def SettledBy (env : LedgerEnv) (dto : SettleDto) (row : SpendRow) : Prop :=
  ∃ settlement, normalizeSettlement dto = .ok settlement ∧
    row.settlementHash = some (settlement.json.canonicalHash env.host)

/-- The row was released for this reason. -/
def ReleasedFor (reason : String) (row : SpendRow) : Prop :=
  row.status = .released ∧ row.reason = some (Js.trim reason)

variable {env : LedgerEnv} {spends : Spends} {row : SpendRow} {allowTaskJobSpend : Bool}

theorem settleInTx_replay {detectedAt : ℤ} {id : String} {dto : SettleDto}
    (hw : WellFormed spends) (hrow : findSpend spends id = some row)
    (hmay : MayClose env id allowTaskJobSpend) (hby : SettledBy env dto row) :
    settleInTx env spends detectedAt id dto allowTaskJobSpend = .ok (⟨row.status, true⟩, spends) := by
  obtain ⟨settlement, hs, hhash⟩ := hby
  have hguard : guardTaskJobSpend env id allowTaskJobSpend = .ok () := guardTaskJobSpend_eq_ok.mpr hmay
  have hfind : spendForUpdate spends id = .ok row := by rw [spendForUpdate, hrow]; rfl
  have hreq : ∀ e, Js.require (row.settlementHash = some (settlement.json.canonicalHash env.host)) e = .ok () :=
    fun e => Js.require_eq_ok.mpr hhash
  unfold settleInTx
  rw [hs]
  simp only [bind, Except.bind, hfind, hguard]
  rcases hw.hashes row (Table.mem_of_lookup hrow) (by rw [hhash]; rfl) with hst | hst <;>
    simp only [hst, hreq] <;> rfl

/-- Settling a closed row replays exactly what closed it, or throws; the table stays. -/
theorem settle_closed {detectedAt : ℤ} {id : String} {dto : SettleDto}
    (hw : WellFormed spends) (hrow : findSpend spends id = some row)
    (hst : row.status ≠ .reserved) :
    (perform spends (.settle env detectedAt id dto allowTaskJobSpend)).2 = spends ∧
      ((MayClose env id allowTaskJobSpend ∧ SettledBy env dto row ∧
          (perform spends (.settle env detectedAt id dto allowTaskJobSpend)).1 = .close ⟨row.status, true⟩) ∨
        (¬ (MayClose env id allowTaskJobSpend ∧ SettledBy env dto row) ∧
          ∃ error, (perform spends (.settle env detectedAt id dto allowTaskJobSpend)).1 = .failed error)) := by
  rw [perform_settle]
  rcases hr : settleInTx env spends detectedAt id dto allowTaskJobSpend with error | ⟨a, spends'⟩
  · refine ⟨rfl, .inr ⟨fun ⟨hmay, hby⟩ => ?_, error, rfl⟩⟩
    rw [settleInTx_replay hw hrow hmay hby] at hr
    cases hr
  · obtain ⟨settlement, row', hs, hrow', hmay, h⟩ := settleInTx_eq_ok hr
    obtain rfl : row = row' := Option.some.inj (hrow.symm.trans hrow')
    rcases h with ⟨_, hhash, rfl, rfl⟩ | ⟨hres, _⟩
    · exact ⟨rfl, .inl ⟨hmay, ⟨settlement, hs, hhash⟩, rfl⟩⟩
    · exact absurd hres hst

theorem releaseInTx_replay {releasedAt updatedAt : ℤ} {id reason : String}
    (hrow : findSpend spends id = some row)
    (hmay : MayClose env id allowTaskJobSpend) (hfor : ReleasedFor reason row) :
    releaseInTx env spends releasedAt updatedAt id reason allowTaskJobSpend = .ok (⟨.released, true⟩, spends) := by
  have hguard : guardTaskJobSpend env id allowTaskJobSpend = .ok () := guardTaskJobSpend_eq_ok.mpr hmay
  have hfind : spendForUpdate spends id = .ok row := by rw [spendForUpdate, hrow]; rfl
  unfold releaseInTx
  simp only [bind, Except.bind, hfind, hguard]
  exact if_pos hfor

/-- Releasing a closed row replays exactly its own release, or throws; the table stays. -/
theorem release_closed {releasedAt updatedAt : ℤ} {id reason : String}
    (hrow : findSpend spends id = some row)
    (hst : row.status ≠ .reserved) :
    (perform spends (.release env releasedAt updatedAt id reason allowTaskJobSpend)).2 = spends ∧
      ((MayClose env id allowTaskJobSpend ∧ ReleasedFor reason row ∧
          (perform spends (.release env releasedAt updatedAt id reason allowTaskJobSpend)).1 =
            .close ⟨row.status, true⟩) ∨
        (¬ (MayClose env id allowTaskJobSpend ∧ ReleasedFor reason row) ∧
          ∃ error, (perform spends (.release env releasedAt updatedAt id reason allowTaskJobSpend)).1 =
            .failed error)) := by
  rw [perform_release]
  rcases hr : releaseInTx env spends releasedAt updatedAt id reason allowTaskJobSpend with error | ⟨a, spends'⟩
  · refine ⟨rfl, .inr ⟨fun ⟨hmay, hfor⟩ => ?_, error, rfl⟩⟩
    rw [releaseInTx_replay hrow hmay hfor] at hr
    cases hr
  · obtain ⟨row', hrow', hmay, h⟩ := releaseInTx_eq_ok hr
    obtain rfl : row = row' := Option.some.inj (hrow.symm.trans hrow')
    rcases h with ⟨hrel, hreason, rfl, rfl⟩ | ⟨hres, _⟩
    · exact ⟨rfl, .inl ⟨hmay, ⟨hrel, hreason⟩, by rw [hrel]; rfl⟩⟩
    · exact absurd hres hst

/-- Recovering a closed row reports its status, or throws on a task job's row; the table stays. -/
theorem recover_closed {now : ℤ} {requestKey : String}
    (hrow : findKey spends (Js.trim requestKey) = some row) (hst : row.status ≠ .reserved) :
    (perform spends (.recover env now requestKey)).2 = spends ∧
      ((row.id ∉ env.taskJobSpends ∧
          (perform spends (.recover env now requestKey)).1 = .recover (some row.status) true) ∨
        (row.id ∈ env.taskJobSpends ∧
          ∃ error, (perform spends (.recover env now requestKey)).1 = .failed error)) := by
  have hreq : ∀ e, row.id ∉ env.taskJobSpends → Js.require (row.id ∉ env.taskJobSpends) e = .ok () :=
    fun e h => Js.require_eq_ok.mpr h
  rw [perform_recover]
  rcases hr : recoverPreDispatchInTx env spends now requestKey with error | ⟨a, spends'⟩
  · refine ⟨rfl, .inr ⟨by_contra fun hlink => ?_, error, rfl⟩⟩
    unfold recoverPreDispatchInTx assertNotTaskJobSpend at hr
    simp only [hrow, hreq _ hlink, bind, Except.bind, if_pos hst] at hr
    cases hr
  · rcases recoverPreDispatchInTx_eq_ok hr with ⟨hnone, _, _⟩ | ⟨row', hrow', hlink, h⟩
    · rw [hrow] at hnone
      cases hnone
    · obtain rfl : row = row' := Option.some.inj (hrow.symm.trans hrow')
      rcases h with ⟨_, rfl, rfl⟩ | ⟨hres, _⟩
      · exact ⟨rfl, .inl ⟨hlink, rfl⟩⟩
      · exact absurd hres hst

/-! Runs. -/

/-- Every row of a table is in every later table of a run, as it was or closed. -/
theorem survives_run {spends spends' : Spends} {steps : List LedgerStep} (h : Run next spends steps spends')
    (hw : WellFormed spends) {r : SpendRow} (hr : r ∈ spends) :
    ∃ r' ∈ spends', r'.requestKey = r.requestKey := by
  have hstep : ∀ s a s', (WellFormed s ∧ ∃ r' ∈ s, r'.requestKey = r.requestKey) → next s a s' →
      WellFormed s' ∧ ∃ r' ∈ s', r'.requestKey = r.requestKey := by
    intro s a s' ⟨hw, r₁, hr₁, hk⟩ hn
    obtain ⟨r₂, hr₂, hc⟩ := (next_effect hw hn).survives hw hr₁
    refine ⟨wellFormed_next hw hn, r₂, hr₂, ?_⟩
    rcases hc with rfl | hc
    · exact hk
    · rw [hc.requestKey, hk]
  exact (h.invariant hstep ⟨hw, r, hr, rfl⟩).2

/-- A reserved row of a reachable table was granted by a step of the run. -/
theorem granted_of_reserved {spends : Spends} {steps : List LedgerStep} (h : Run next [] steps spends)
    {row : SpendRow} (hrow : row ∈ spends) (hst : row.status = .reserved) : ∃ e ∈ steps, Grants e row := by
  obtain ⟨e, he, hb, ha⟩ := h.exists_change (fun hm : row ∈ ([] : Spends) => nomatch hm) hrow
  obtain ⟨earlier, _, _, hrun, hn, _⟩ := h.split he
  exact ⟨e, he, grants_of_new (wellFormed_run hrun wellFormed_nil) hn hst hb ha⟩

/-- A fresh reservation is given for a key that no earlier step allowed. -/
def FirstFor (reservation : Reservation) (earlier : List LedgerStep) : Prop :=
  reservation.replay = false ∧
    ∀ e ∈ earlier, ∀ reservation', Allows e reservation' → reservation'.requestKey ≠ reservation.requestKey

/-- A replay repeats the fresh reservation of an earlier step of the same payload, while its row is
still reserved and on the row's day. -/
def ReplayOf (reservation : Reservation) (e : LedgerStep) (earlier : List LedgerStep) : Prop :=
  reservation.replay = true ∧
    (∃ e₀ ∈ earlier, e₀.action.payloadHash = e.action.payloadHash ∧ ∃ first, Allows e₀ first ∧
      first.replay = false ∧ first.requestKey = reservation.requestKey ∧ first.id = reservation.id ∧
      first.day = reservation.day) ∧
    ∃ row, findKey e.before reservation.requestKey = some row ∧ row.id = reservation.id ∧
      row.status = .reserved ∧ e.action.day = some row.day ∧ e.action.payloadHash = some row.requestHash

theorem allows_first_or_replay {spends : Spends} {steps earlier later : List LedgerStep} {e : LedgerStep}
    (h : Run next [] steps spends) (hsteps : steps = earlier ++ e :: later) {reservation : Reservation}
    (hallows : Allows e reservation) : FirstFor reservation earlier ∨ ReplayOf reservation e earlier := by
  subst hsteps
  obtain ⟨hrun, hn, _⟩ := h.of_append
  have hw := wellFormed_run hrun wellFormed_nil
  rcases allows_cases hw hn hallows with ⟨row, hg, rfl⟩ | ⟨row, hr, rfl⟩
  · refine .inl ⟨rfl, fun e' he' reservation' hallows' hkey => ?_⟩
    obtain ⟨earlier', later', _, hrun', hn', hlater'⟩ := hrun.split he'
    have hw' := wellFormed_run hrun' wellFormed_nil
    -- the earlier step left a row with the key, and rows survive
    obtain ⟨r, hr, hrk⟩ : ∃ r ∈ e'.after, r.requestKey = reservation'.requestKey := by
      rcases allows_cases hw' hn' hallows' with ⟨r, hg', rfl⟩ | ⟨r, hr', rfl⟩
      · exact ⟨r, by rw [hg'.after]; exact List.mem_append_right _ (List.mem_singleton_self r), rfl⟩
      · exact ⟨r, by rw [hr'.after]; exact Table.mem_of_lookup hr'.found, rfl⟩
    obtain ⟨r', hr', hrk'⟩ := survives_run hlater' (wellFormed_next hw' hn') hr
    exact Table.lookup_eq_none_iff.mp hg.fresh r' hr' (hrk'.trans (hrk.trans hkey))
  · obtain ⟨e₀, he₀, hg⟩ := granted_of_reserved hrun (Table.mem_of_lookup hr.found) hr.status
    exact .inr ⟨rfl, ⟨e₀, he₀, hg.payloadHash.trans hr.payloadHash.symm, _, hg.allows, rfl, rfl, rfl, rfl⟩,
      row, hr.found, rfl, hr.status, hr.day, hr.payloadHash⟩

/-- What an operation does to a closed row, by the entry point that it comes through. -/
def ClosedAnswer (e : LedgerStep) : Prop :=
  match e.action with
  | .settle env _ id dto allowTaskJobSpend => ∀ row, findSpend e.before id = some row → row.status ≠ .reserved →
      e.after = e.before ∧
        ((MayClose env id allowTaskJobSpend ∧ SettledBy env dto row ∧ answer e = .close ⟨row.status, true⟩) ∨
          (¬ (MayClose env id allowTaskJobSpend ∧ SettledBy env dto row) ∧ ∃ error, answer e = .failed error))
  | .release env _ _ id reason allowTaskJobSpend => ∀ row, findSpend e.before id = some row →
      row.status ≠ .reserved → e.after = e.before ∧
        ((MayClose env id allowTaskJobSpend ∧ ReleasedFor reason row ∧ answer e = .close ⟨row.status, true⟩) ∨
          (¬ (MayClose env id allowTaskJobSpend ∧ ReleasedFor reason row) ∧ ∃ error, answer e = .failed error))
  | .recover env _ requestKey => ∀ row, findKey e.before (Js.trim requestKey) = some row →
      row.status ≠ .reserved → e.after = e.before ∧
        ((row.id ∉ env.taskJobSpends ∧ answer e = .recover (some row.status) true) ∨
          (row.id ∈ env.taskJobSpends ∧ ∃ error, answer e = .failed error))
  | .reserve .. => True

theorem closedAnswer {e : LedgerStep} (hw : WellFormed e.before) (hn : next e.before e.action e.after) :
    ClosedAnswer e := by
  obtain ⟨spends, action, spends'⟩ := e
  dsimp only at hw hn
  unfold next at hn
  subst hn
  rcases action with ⟨env, clock, newId, dto, keyForDay⟩ | ⟨env, detectedAt, id, dto, allow⟩ |
    ⟨env, releasedAt, updatedAt, id, reason, allow⟩ | ⟨env, now, requestKey⟩
  · trivial
  · exact fun row hrow hst => settle_closed hw hrow hst
  · exact fun row hrow hst => release_closed hrow hst
  · exact fun row hrow hst => recover_closed hrow hst

/-- Idempotency of request keys, and absorption of closed rows. -/
theorem request_key_idempotent {spends : Spends} {steps : List LedgerStep} (h : Run next [] steps spends) :
    (spends.map SpendRow.requestKey).Nodup ∧
      (∀ earlier e later, steps = earlier ++ e :: later → ∀ reservation, Allows e reservation →
        FirstFor reservation earlier ∨ ReplayOf reservation e earlier) ∧
      (∀ steps' spends', Run next spends steps' spends' → ∀ row ∈ spends, row.status ≠ .reserved →
        row ∈ spends' ∧ ∀ row' ∈ spends', row'.id = row.id → row' = row) ∧
      ∀ e ∈ steps, ClosedAnswer e := by
  have hw := wellFormed_run h wellFormed_nil
  refine ⟨hw.requestKeys, fun earlier e later hs reservation hallows => allows_first_or_replay h hs hallows,
    fun steps' spends' h' row hrow hst => ?_, fun e he => ?_⟩
  · have hrow' := closed_mem_run h' hw hrow hst
    exact ⟨hrow', fun row' hm hid => Table.eq_of_key_eq (wellFormed_run h' hw).ids hm hrow' hid⟩
  · obtain ⟨_, _, _, hrun, hn, _⟩ := h.split he
    exact closedAnswer (wellFormed_run hrun wellFormed_nil) hn

/-- The sample row is linked from a task job. -/
def linkedEnv : LedgerEnv := { sampleEnv with taskJobSpends := ["spend-1"] }

/-- A reserve and its replay, one settlement three times, and a recovery of the settled row. -/
def closedTwice : List Action :=
  [.reserve sampleEnv [0, 1] "spend-1" (sampleReserve "call-1") none,
    .reserve sampleEnv [2, 3] "spend-2" (sampleReserve "call-1") none,
    .settle sampleEnv 4 "spend-1" (sampleSettle "model") false,
    .settle sampleEnv 5 "spend-1" (sampleSettle "model") false,
    .settle linkedEnv 6 "spend-1" (sampleSettle "model") false,
    .recover sampleEnv 7 "call-1"]

theorem request_key_idempotent_sample :
    ((runOf [] closedTwice).2.map SpendRow.requestKey).Nodup ∧ (runOf [] closedTwice).1.length = 6 :=
  ⟨(request_key_idempotent (run_runOf [] closedTwice)).1, rfl⟩

/-- A closed row does not replay every settlement with its hash, nor only those: a task job's row
refuses the very settlement that closed it, and a recovery replays on a row that was settled. -/
theorem closed_replay_not_by_hash :
    (∃ e ∈ (runOf [] closedTwice).1, e.action = .settle linkedEnv 6 "spend-1" (sampleSettle "model") false ∧
        (∃ row, findSpend e.before "spend-1" = some row ∧ row.status = .settled ∧
          SettledBy linkedEnv (sampleSettle "model") row) ∧
        answer e =
          .failed (.conflict "Task LLM reservation can only be closed through the durable task job API")) ∧
      ∃ e ∈ (runOf [] closedTwice).1, e.action = .recover sampleEnv 7 "call-1" ∧
        (∃ row, findKey e.before "call-1" = some row ∧ row.status = .settled) ∧
        answer e = .recover (some .settled) true := by
  constructor
  · have hmem : ((runOf [] closedTwice).1.get ⟨4, by decide⟩) ∈ (runOf [] closedTwice).1 := List.get_mem ..
    refine ⟨_, hmem, rfl, ?_, by decide +kernel⟩
    have hrow : ((findSpend ((runOf [] closedTwice).1.get ⟨4, by decide⟩).before "spend-1").map fun r =>
        (r.status, r.settlementHash)) = some (.settled, ((normalizeSettlement (sampleSettle "model")).toOption.map
          fun s => s.json.canonicalHash linkedEnv.host)) := by decide +kernel
    obtain ⟨row, hfind, hcols⟩ := Option.map_eq_some_iff.mp hrow
    rw [Prod.mk.injEq] at hcols
    exact ⟨row, hfind, hcols.1, _, rfl, hcols.2⟩
  · have hmem : ((runOf [] closedTwice).1.get ⟨5, by decide⟩) ∈ (runOf [] closedTwice).1 := List.get_mem ..
    refine ⟨_, hmem, rfl, ?_, by decide +kernel⟩
    have hrow : ((findKey ((runOf [] closedTwice).1.get ⟨5, by decide⟩).before "call-1").map (·.status)) =
        some .settled := by decide +kernel
    obtain ⟨row, hfind, hst⟩ := Option.map_eq_some_iff.mp hrow
    exact ⟨row, hfind, hst⟩

end Mydon.Ledger
