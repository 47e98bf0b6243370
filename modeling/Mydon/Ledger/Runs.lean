import Mydon.Ledger.Settlement
import Mydon.Lib.Run

/-! Runs of the ledger: every operation is one step over the table of spends, in any
order, with any environment and any clock. What a step can do to the table is said
once, as `Effect`. -/

namespace Mydon.Ledger

open Mydon.Lib

inductive Action
  | reserve (env : LedgerEnv) (clock : List ℤ) (newId : String) (dto : ReserveDto)
    (requestKeyForDay : Option (ℤ → String))
  | settle (env : LedgerEnv) (detectedAt : ℤ) (id : String) (dto : SettleDto) (allowTaskJobSpend : Bool)
  | release (env : LedgerEnv) (releasedAt updatedAt : ℤ) (id reason : String) (allowTaskJobSpend : Bool)
  | recover (env : LedgerEnv) (now : ℤ) (requestKey : String)

inductive Answer
  | waiting
  | failed (error : Js.HttpError)
  | reserve (response : ReserveResponse)
  | close (answer : CloseAnswer)
  | recover (status : Option SpendStatus) (replay : Bool)
  deriving DecidableEq

/-- A transaction that throws leaves the table as it was. -/
def commit {α : Type} (spends : Spends) (answer : α → Answer) :
    Except Js.HttpError (α × Spends) → Answer × Spends
  | .ok (a, spends') => (answer a, spends')
  | .error e => (.failed e, spends)

def perform (spends : Spends) : Action → Answer × Spends
  | .reserve env clock newId dto requestKeyForDay =>
    match reserveInTx env spends clock newId dto requestKeyForDay with
    | some result => commit spends .reserve result
    | none => (.waiting, spends)
  | .settle env detectedAt id dto allowTaskJobSpend =>
    commit spends .close (settleInTx env spends detectedAt id dto allowTaskJobSpend)
  | .release env releasedAt updatedAt id reason allowTaskJobSpend =>
    commit spends .close (releaseInTx env spends releasedAt updatedAt id reason allowTaskJobSpend)
  | .recover env now requestKey =>
    commit spends (fun r => .recover r.1 r.2) (recoverPreDispatchInTx env spends now requestKey)

section
variable (spends : Spends) (env : LedgerEnv)

@[simp] theorem perform_settle (detectedAt : ℤ) (id : String) (dto : SettleDto) (allowTaskJobSpend : Bool) :
    perform spends (.settle env detectedAt id dto allowTaskJobSpend) =
      commit spends .close (settleInTx env spends detectedAt id dto allowTaskJobSpend) := rfl

@[simp] theorem perform_release (releasedAt updatedAt : ℤ) (id reason : String) (allowTaskJobSpend : Bool) :
    perform spends (.release env releasedAt updatedAt id reason allowTaskJobSpend) =
      commit spends .close (releaseInTx env spends releasedAt updatedAt id reason allowTaskJobSpend) := rfl

@[simp] theorem perform_recover (now : ℤ) (requestKey : String) :
    perform spends (.recover env now requestKey) =
      commit spends (fun r => .recover r.1 r.2) (recoverPreDispatchInTx env spends now requestKey) := rfl

end

def next (spends : Spends) (action : Action) (spends' : Spends) : Prop := spends' = (perform spends action).2

/-- The run that a list of actions takes from a table. -/
def runOf (spends : Spends) (actions : List Action) : List (Step Spends Action) × Spends :=
  runActions (fun s a => (perform s a).2) spends actions

theorem run_runOf (spends : Spends) (actions : List Action) :
    Run next spends (runOf spends actions).1 (runOf spends actions).2 := run_runActions _ spends actions

abbrev LedgerStep := Step Spends Action

def answer (e : LedgerStep) : Answer := (perform e.before e.action).1

/-! What a step can do. -/

/-- A closing operation writes at most one row, which was reserved. -/
inductive Closing (spends : Spends) : Spends → Prop
  | same : Closing spends spends
  | close (row row' : SpendRow) : findSpend spends row.id = some row → row.status = .reserved →
    Closes row row' → (row'.settlementHash.isSome → row'.status = .settled ∨ row'.status = .failed) →
    Closing spends (writeSpend spends row')

inductive Effect (spends : Spends) : Spends → Prop
  | insert (row : SpendRow) : (∀ r ∈ spends, r.id ≠ row.id) → (∀ r ∈ spends, r.requestKey ≠ row.requestKey) →
    row.settlementHash = none → Effect spends (spends ++ [row])
  | closing {spends' : Spends} : Closing spends spends' → Effect spends spends'

/-- The table as its constraints and its operations keep it. -/
structure WellFormed (spends : Spends) : Prop where
  ids : (spends.map SpendRow.id).Nodup
  requestKeys : (spends.map SpendRow.requestKey).Nodup
  hashes : ∀ r ∈ spends, r.settlementHash.isSome → r.status = .settled ∨ r.status = .failed

theorem wellFormed_nil : WellFormed [] := ⟨List.nodup_nil, List.nodup_nil, fun _ h => nomatch h⟩

theorem WellFormed.findSpend_iff {spends : Spends} (hw : WellFormed spends) {row : SpendRow} {id : String} :
    findSpend spends id = some row ↔ row ∈ spends ∧ row.id = id := Table.lookup_eq_some_iff hw.ids

variable {spends spends' : Spends}

theorem reserveAt_effect {env : LedgerEnv} {now day : ℤ} {request : ReserveRequest}
    {newId : String} {response : ReserveResponse}
    (h : reserveAt env spends now day request newId = .ok (response, spends')) : Effect spends spends' := by
  unfold reserveAt at h
  rcases hk : findKey spends request.requestKey with _ | prior
  · simp only [hk] at h
    rcases newReserve_eq_ok h with ⟨nano, action, reason, snapshot, _, hi⟩ | ⟨nano, snapshot, action, _, _, _, hi⟩ <;>
      obtain ⟨hid, hkey, _, rfl⟩ := insertSpend_eq_ok.mp hi
    · exact .insert _ hid hkey rfl
    · exact .insert _ hid hkey rfl
  · simp only [hk, Except.ok.injEq, Prod.mk.injEq] at h
    obtain ⟨_, rfl⟩ := h
    exact .closing .same

theorem settleInTx_closing {env : LedgerEnv} {detectedAt : ℤ} {id : String}
    {dto : SettleDto} {allowTaskJobSpend : Bool} {a : CloseAnswer}
    (h : settleInTx env spends detectedAt id dto allowTaskJobSpend = .ok (a, spends')) : Closing spends spends' := by
  obtain ⟨settlement, row, _, hrow, _, ⟨_, _, _, rfl⟩ | ⟨hst, anomaly, actualNano, _, _, rfl⟩⟩ := settleInTx_eq_ok h
  · exact .same
  · have hid : row.id = id := Table.key_of_lookup hrow
    refine .close row _ (hid.symm ▸ hrow) hst (closes_settledRow ..) fun _ => ?_
    unfold settledRow
    dsimp only
    split_ifs <;> simp

theorem closing_releasedRow {spends : Spends} {row : SpendRow} (hw : WellFormed spends)
    (hrow : findSpend spends row.id = some row) (hst : row.status = .reserved) (reason : String)
    (releasedAt updatedAt : ℤ) : Closing spends (writeSpend spends (releasedRow row reason releasedAt updatedAt)) := by
  refine .close row _ hrow hst (closes_releasedRow ..) fun hs => ?_
  have := hw.hashes row (Table.mem_of_lookup hrow) hs
  simp [hst] at this

theorem releaseInTx_closing {env : LedgerEnv} {releasedAt updatedAt : ℤ}
    {id reason : String} {allowTaskJobSpend : Bool} {a : CloseAnswer} (hw : WellFormed spends)
    (h : releaseInTx env spends releasedAt updatedAt id reason allowTaskJobSpend = .ok (a, spends')) :
    Closing spends spends' := by
  obtain ⟨row, hrow, _, ⟨_, _, _, rfl⟩ | ⟨hst, _, rfl⟩⟩ := releaseInTx_eq_ok h
  · exact .same
  · have hid : row.id = id := Table.key_of_lookup hrow
    exact closing_releasedRow hw (hid.symm ▸ hrow) hst ..

theorem recoverPreDispatchInTx_closing {env : LedgerEnv} {now : ℤ} {requestKey : String}
    {a : Option SpendStatus × Bool} (hw : WellFormed spends)
    (h : recoverPreDispatchInTx env spends now requestKey = .ok (a, spends')) : Closing spends spends' := by
  obtain ⟨_, _, rfl⟩ | ⟨row, hrow, _, ⟨_, _, rfl⟩ | ⟨hst, _, rfl⟩⟩ := recoverPreDispatchInTx_eq_ok h
  · exact .same
  · exact .same
  · exact closing_releasedRow hw (hw.findSpend_iff.mpr ⟨Table.mem_of_lookup hrow, rfl⟩) hst ..

/-- Every operation but a reserve is a closing one. -/
theorem next_closing {action : Action} (hw : WellFormed spends)
    (h : next spends action spends') :
    Closing spends spends' ∨ ∃ env clock newId dto keyForDay, action = .reserve env clock newId dto keyForDay := by
  unfold next at h
  subst h
  rcases action with ⟨env, clock, newId, dto, keyForDay⟩ | ⟨env, detectedAt, id, dto, allow⟩ |
    ⟨env, releasedAt, updatedAt, id, reason, allow⟩ | ⟨env, now, requestKey⟩ <;> simp only [perform]
  · exact .inr ⟨_, _, _, _, _, rfl⟩
  · left
    rcases hr : settleInTx env spends detectedAt id dto allow with _ | ⟨a, spends'⟩
    · exact .same
    · exact settleInTx_closing hr
  · left
    rcases hr : releaseInTx env spends releasedAt updatedAt id reason allow with _ | ⟨a, spends'⟩
    · exact .same
    · exact releaseInTx_closing hw hr
  · left
    rcases hr : recoverPreDispatchInTx env spends now requestKey with _ | ⟨a, spends'⟩
    · exact .same
    · exact recoverPreDispatchInTx_closing hw hr

/-- A reserve leaves the table, or answers at the moment its locks are held. -/
theorem next_reserve {env : LedgerEnv} {clock : List ℤ} {newId : String}
    {dto : ReserveDto} {keyForDay : Option (ℤ → String)}
    (h : next spends (.reserve env clock newId dto keyForDay) spends') :
    (spends' = spends ∧ ∀ response, (perform spends (.reserve env clock newId dto keyForDay)).1 ≠ .reserve response) ∨
      ∃ now day request response, reserveCall env clock dto keyForDay = some (now, day, request) ∧
        reserveAt env spends now day request newId = .ok (response, spends') ∧
        (perform spends (.reserve env clock newId dto keyForDay)).1 = .reserve response := by
  unfold next at h
  unfold perform at h ⊢
  rcases hr : reserveInTx env spends clock newId dto keyForDay with _ | error | ⟨response, after⟩ <;>
    simp only [hr, commit] at h ⊢
  · exact .inl ⟨h, fun _ h => nomatch h⟩
  · exact .inl ⟨h, fun _ h => nomatch h⟩
  · subst h
    obtain ⟨now, day, request, hcall, hat⟩ := reserveInTx_eq_some.mp hr
    exact .inr ⟨now, day, request, response, hcall, hat, rfl⟩

theorem next_effect {action : Action} (hw : WellFormed spends)
    (h : next spends action spends') : Effect spends spends' := by
  rcases next_closing hw h with hc | ⟨env, clock, newId, dto, keyForDay, rfl⟩
  · exact .closing hc
  · rcases next_reserve h with ⟨rfl, _⟩ | ⟨now, day, request, response, _, hat, _⟩
    · exact .closing .same
    · exact reserveAt_effect hat

namespace Effect

theorem wellFormed (h : Effect spends spends') (hw : WellFormed spends) : WellFormed spends' := by
  rcases h with ⟨row, hid, hkey, hhash⟩ | ⟨_ | ⟨row, row', hrow, hst, hc, hhash⟩⟩
  · refine ⟨?_, ?_, fun r hr => ?_⟩
    · rw [List.map_append, List.map_singleton, List.nodup_append]
      exact ⟨hw.ids, List.nodup_singleton _, by simpa using hid⟩
    · rw [List.map_append, List.map_singleton, List.nodup_append]
      exact ⟨hw.requestKeys, List.nodup_singleton _, by simpa using hkey⟩
    · rcases List.mem_append.mp hr with hr | hr
      · exact hw.hashes r hr
      · rw [List.mem_singleton.mp hr, hhash]
        intro hs
        cases hs
  · exact hw
  · have hm := Table.mem_of_lookup hrow
    refine ⟨?_, ?_, fun r hr => ?_⟩
    · unfold writeSpend
      rw [Table.map_key_write]
      exact hw.ids
    · unfold writeSpend
      rw [Table.map_write SpendRow.requestKey fun r hr hk => ?_]
      · exact hw.requestKeys
      · rw [Table.eq_of_key_eq hw.ids hr hm (hk.trans hc.id), hc.requestKey]
    · rcases Table.mem_write.mp hr with ⟨hr, _⟩ | ⟨rfl, _⟩
      · exact hw.hashes r hr
      · exact hhash

/-- A closed row stays in the table as it is. -/
theorem closed_mem (h : Effect spends spends') (hw : WellFormed spends) {r : SpendRow} (hr : r ∈ spends)
    (hst : r.status ≠ .reserved) : r ∈ spends' := by
  rcases h with ⟨row, _, _, _⟩ | ⟨_ | ⟨row, row', hrow, hres, hc, _⟩⟩
  · exact List.mem_append_left _ hr
  · exact hr
  · refine Table.mem_write_of_ne hr fun hid => hst ?_
    rwa [Table.eq_of_key_eq hw.ids hr (Table.mem_of_lookup hrow) (hid.trans hc.id)]

/-- Every row survives, as it was or closed. -/
theorem survives (h : Effect spends spends') (hw : WellFormed spends) {r : SpendRow} (hr : r ∈ spends) :
    ∃ r' ∈ spends', r' = r ∨ Closes r r' := by
  rcases h with ⟨row, _, _, _⟩ | ⟨_ | ⟨row, row', hrow, hres, hc, _⟩⟩
  · exact ⟨r, List.mem_append_left _ hr, .inl rfl⟩
  · exact ⟨r, hr, .inl rfl⟩
  · by_cases hid : r.id = row'.id
    · have he : r = row := Table.eq_of_key_eq hw.ids hr (Table.mem_of_lookup hrow) (hid.trans hc.id)
      exact ⟨row', Table.mem_write.mpr (.inr ⟨rfl, r, hr, hid⟩), .inr (he ▸ hc)⟩
    · exact ⟨r, Table.mem_write_of_ne hr hid, .inl rfl⟩

end Effect

theorem wellFormed_next {action : Action} (hw : WellFormed spends)
    (h : next spends action spends') : WellFormed spends' := (next_effect hw h).wellFormed hw

theorem wellFormed_run {steps : List LedgerStep} (h : Run next spends steps spends')
    (hw : WellFormed spends) : WellFormed spends' := h.invariant (fun _ _ _ hw hn => wellFormed_next hw hn) hw

/-- Closed rows are in every later table, as they are. -/
theorem closed_mem_run {steps : List LedgerStep} (h : Run next spends steps spends')
    (hw : WellFormed spends) {r : SpendRow} (hr : r ∈ spends) (hst : r.status ≠ .reserved) : r ∈ spends' := by
  have hstep : ∀ s a s', (WellFormed s ∧ r ∈ s) → next s a s' → WellFormed s' ∧ r ∈ s' := by
    intro s a s' ⟨hw, hr⟩ hn
    exact ⟨wellFormed_next hw hn, (next_effect hw hn).closed_mem hw hr hst⟩
  exact (h.invariant hstep ⟨hw, hr⟩).2

/-! A small ledger: one provider with one price, and calls of a bot. -/

def sampleHost : Js.Host where
  toLowerCase := id
  number := fun _ => none
  numberText := fun q => toString q.num
  toFixed12 := fun q => toString q.num ++ ".000000000000"
  localeCompare := fun a b => if a = b then 0 else if Js.before a b then -1 else 1
  sha256 := id

def samplePrice : PriceRow where
  id := "price"
  snapshot := ⟨"provider", "model", .metered, .tokens, NANO_USD, 2 * NANO_USD, 0, 0, 0, 0, none, 0, 0⟩
  validTo := none

def sampleEnv : LedgerEnv where
  host := sampleHost
  processEnv := [("LLM_ENABLED", "1")]
  systemConfig := []
  agents := []
  prices := [samplePrice]
  taskJobSpends := []

/-- A reserve of 0.003 USD. -/
def sampleReserve (requestKey : String) : ReserveDto where
  requestKey := requestKey
  traceKey := none
  metadata := none
  consumer := .bot
  feature := "chat"
  agentName := none
  provider := "provider"
  model := "model"
  inputTokenCeiling := 1000
  outputTokenCeiling := 1000

def sampleSettle (resolvedModel : String) : SettleDto where
  outcome := .success
  usage := some ⟨500, 100, none, none, none, none, none⟩
  providerRequestId := none
  resolvedModel := some resolvedModel
  providerReportedUsd := none
  reason := none
  metadata := none

end Mydon.Ledger
