import Mydon.Ledger.Service

/-! The three ways to close a reserved row: settlement, release, and the recovery
of a reserve whose provider call was never dispatched. -/

namespace Mydon.Ledger

open Mydon.Lib

def LLM_PRE_DISPATCH_RECOVERY_REASON : String := "settlement_outbox_reserve_uncertain_before_provider_dispatch"

inductive AnomalyKind
  | missingResolvedModel
  | resolvedModelMismatch
  | missingUsageOrCost
  deriving DecidableEq

def AnomalyKind.text : AnomalyKind → String
  | .missingResolvedModel => "missing_resolved_model"
  | .resolvedModelMismatch => "resolved_model_mismatch"
  | .missingUsageOrCost => "missing_usage_or_cost"

structure SettlementAnomaly where
  kind : AnomalyKind
  circuitOpen : Bool
  requestedModel : String
  resolvedModel : Option String
  deriving DecidableEq

def SettlementAnomaly.json (a : SettlementAnomaly) : Js.Json :=
  .obj ([("kind", .str a.kind.text), ("circuitOpen", .bool a.circuitOpen),
    ("requestedModel", .str a.requestedModel)] ++ entry "resolvedModel" .str a.resolvedModel)

/-- The resolved model, where the provider named one. -/
def Settlement.namedModel (s : Settlement) : Option String := s.resolvedModel.filter (· ≠ "")

def classifySettlementAnomaly (price : LedgerPriceSnapshot) (settlement : Settlement) (actualNano : Option ℕ) :
    Option SettlementAnomaly :=
  let resolved := settlement.namedModel
  if resolved.any fun m => !resolvedModelMatchesCatalogPrice price.provider m price.model then
    some ⟨.resolvedModelMismatch, true, price.model, resolved⟩
  else if settlement.outcome ≠ .success then none
  else if resolved.isNone then some ⟨.missingResolvedModel, true, price.model, none⟩
  else if actualNano.isNone then some ⟨.missingUsageOrCost, false, price.model, resolved⟩
  else none

def anomalyReason (anomaly : SettlementAnomaly) : String :=
  match anomaly.kind with
  | .missingResolvedModel => s!"Provider не сообщил resolvedModel для {anomaly.requestedModel}; circuit открыт"
  | .resolvedModelMismatch =>
    let resolvedModel := anomaly.resolvedModel.getD "unknown"
    s!"Provider вернул {resolvedModel} вместо {anomaly.requestedModel}; circuit открыт"
  | .missingUsageOrCost => s!"Provider не дал usage/cost для {anomaly.requestedModel}; резерв сохранён"

/-- The dearest of the catalog's costs, the provider's own figure and the snapshot's cost. -/
def anomalyActualNano (env : LedgerEnv) (row : SpendRow) (settlement : Settlement)
    (snapshotActualNano : Option ℕ) : Except String (Option ℕ) := do
  let rows := activeProviderPrices env row.provider (row.reservedAt.getD row.createdAt)
  let matching := match settlement.namedModel with
    | some m => rows.filter fun candidate =>
        resolvedModelMatchesCatalogPrice row.provider m candidate.snapshot.model
    | none => []
  let candidates := if matching.isEmpty then rows else matching
  let usage := settlement.usage.getD ⟨0, 0, none, none, none, none, none⟩
  let costs ← candidates.mapM fun candidate =>
    settlementCostNano env.host candidate.snapshot row.consumer (some usage) none
  let reported ← match settlement.providerReportedUsd with
    | some value => (usdToNanoNumber env.host value .ceil).map fun nano => [nano]
    | none => .ok []
  let all := costs.filterMap id ++ reported ++ snapshotActualNano.toList
  return if all.isEmpty then none else some (maxNat all)

/-- What a settlement finds about a reserved row: the anomaly, if any, and the actual cost. -/
def settlementActual (env : LedgerEnv) (row : SpendRow) (settlement : Settlement) :
    Except Js.HttpError (Option SettlementAnomaly × Option ℕ) := do
  let price ← Js.orThrow row.priceSnapshot (.internal "LLM-ledger: price snapshot повреждён")
  let snapshotActualNano ←
    (settlementCostNano env.host price row.consumer settlement.usage settlement.providerReportedUsd).mapError
      .internal
  match classifySettlementAnomaly price settlement snapshotActualNano with
  | none => return (none, snapshotActualNano)
  | some anomaly =>
    let actualNano ← (anomalyActualNano env row settlement snapshotActualNano).mapError .internal
    return (some anomaly, actualNano)

/-- `{...metadata, key: value}`. -/
def setEntry (key : String) (value : Js.Json) (metadata : Metadata) : Metadata :=
  OrderedMap.alter (fun _ => value) key metadata

def internalEntries (metadata : Metadata) : Metadata :=
  match OrderedMap.get metadata "_llmLedger" with
  | some (.obj entries) => entries
  | _ => []

def mergeSettlementMetadata (existing settlement : Metadata) (lowerBound : Bool)
    (anomaly : Option SettlementAnomaly) : Metadata :=
  let existingInternal := internalEntries existing
  let bounded := if lowerBound then setEntry "lowerBound" (.bool true) existingInternal else existingInternal
  let internal := match anomaly with
    | some a =>
      let flagged := setEntry "anomaly" a.json bounded
      if a.circuitOpen then setEntry "circuitOpen" (.bool true) flagged else flagged
    | none => bounded
  let base :=
    if !existingInternal.isEmpty || lowerBound || anomaly.isSome then
      setEntry "_llmLedger" (.obj internal) existing
    else existing
  setEntry "settlement" (.obj settlement) base

/-- The row as a settlement leaves it. -/
def settledRow (row : SpendRow) (settlement : Settlement) (settlementHash : String)
    (anomaly : Option SettlementAnomaly) (actualNano : Option ℕ) (detectedAt : ℤ) : SpendRow :=
  let success := settlement.outcome = .success ∧ anomaly = none
  let storedOutcome := if anomaly.isSome then .unknown else settlement.outcome
  { row with
    status := if success then .settled else .failed
    outcome := some storedOutcome
    settlementHash := some settlementHash
    actualUsd := actualNano
    usage := settlement.usage
    providerRequestId := settlement.providerRequestId
    resolvedModel := settlement.resolvedModel
    reason := match anomaly with
      | some a => some (anomalyReason a)
      | none => settlement.reason
    metadata := mergeSettlementMetadata row.metadata settlement.metadata
      (storedOutcome = .unknown && actualNano.isSome) anomaly
    settledAt := if success then some detectedAt else none
    failedAt := if success then none else some detectedAt
    updatedAt := detectedAt }

/-- `update` of a settled row, under the unique provider request id and the money column. -/
def updateSettled (spends : Spends) (row : SpendRow) : Except Js.HttpError Spends := do
  Js.require (∀ r ∈ spends, r.id ≠ row.id → row.providerRequestId.isSome →
      ¬ (r.provider = row.provider ∧ r.providerRequestId = row.providerRequestId))
    (.internal "duplicate key value: llm_spend_provider_request_id_idx")
  Js.require (row.actualUsd.all fitsMoney) (.internal "numeric field overflow")
  return writeSpend spends row

/-- A task job's reservation is closed by the task job's own operations. -/
def assertNotTaskJobSpend (env : LedgerEnv) (id : String) : Except Js.HttpError Unit :=
  Js.require (id ∉ env.taskJobSpends)
    (.conflict "Task LLM reservation can only be closed through the durable task job API")

/-- `if (!options.allowTaskJobSpend) await assertNotTaskJobSpend(tx, id)`. -/
def guardTaskJobSpend (env : LedgerEnv) (id : String) (allowTaskJobSpend : Bool) : Except Js.HttpError Unit :=
  if allowTaskJobSpend then .ok () else assertNotTaskJobSpend env id

def spendForUpdate (spends : Spends) (id : String) : Except Js.HttpError SpendRow :=
  Js.orThrow (findSpend spends id) (.notFound s!"LLM-резерв {id} не найден")

structure CloseAnswer where
  status : SpendStatus
  replay : Bool
  deriving DecidableEq

def settleInTx (env : LedgerEnv) (spends : Spends) (detectedAt : ℤ) (id : String) (dto : SettleDto)
    (allowTaskJobSpend : Bool) : Except Js.HttpError (CloseAnswer × Spends) := do
  let settlement ← normalizeSettlement dto
  let settlementHash := settlement.json.canonicalHash env.host
  let row ← spendForUpdate spends id
  guardTaskJobSpend env id allowTaskJobSpend
  match row.status with
  | .settled | .failed => do
    Js.require (row.settlementHash = some settlementHash) (.conflict "LLM-резерв уже закрыт другим settlement")
    return (⟨row.status, true⟩, spends)
  | .released | .denied =>
    .error (.conflict s!"LLM-резерв в статусе {row.status.text}; settlement невозможен")
  | .reserved => do
    let (anomaly, actualNano) ← settlementActual env row settlement
    let closed := settledRow row settlement settlementHash anomaly actualNano detectedAt
    let spends ← updateSettled spends closed
    return (⟨closed.status, false⟩, spends)

/-- The row as a release leaves it. -/
def releasedRow (row : SpendRow) (reason : String) (releasedAt updatedAt : ℤ) : SpendRow :=
  { row with
    status := .released
    reason := some reason
    releasedAt := some releasedAt
    updatedAt }

def releaseInTx (env : LedgerEnv) (spends : Spends) (releasedAt updatedAt : ℤ) (id reason : String)
    (allowTaskJobSpend : Bool) : Except Js.HttpError (CloseAnswer × Spends) := do
  let reason := Js.trim reason
  let row ← spendForUpdate spends id
  guardTaskJobSpend env id allowTaskJobSpend
  if row.status = .released ∧ row.reason = some reason then return (⟨.released, true⟩, spends)
  else do
    Js.require (row.status = .reserved)
      (.conflict s!"LLM-резерв в статусе {row.status.text}; release невозможен")
    return (⟨.released, false⟩, writeSpend spends (releasedRow row reason releasedAt updatedAt))

/-- The status is `none` where no row has the request key. -/
def recoverPreDispatchInTx (env : LedgerEnv) (spends : Spends) (now : ℤ) (requestKey : String) :
    Except Js.HttpError ((Option SpendStatus × Bool) × Spends) :=
  match findKey spends (Js.trim requestKey) with
  | none => .ok ((none, true), spends)
  | some row => do
    assertNotTaskJobSpend env row.id
    if row.status ≠ .reserved then return ((some row.status, true), spends)
    else
      return ((some .released, false),
        writeSpend spends (releasedRow row LLM_PRE_DISPATCH_RECOVERY_REASON now now))

/-! What closing a row can do. -/

/-- A row that is no longer reserved, over the columns that its reserve fixed. -/
structure Closes (row row' : SpendRow) : Prop where
  id : row'.id = row.id
  requestKey : row'.requestKey = row.requestKey
  requestHash : row'.requestHash = row.requestHash
  provider : row'.provider = row.provider
  agentId : row'.agentId = row.agentId
  day : row'.day = row.day
  reservedUsd : row'.reservedUsd = row.reservedUsd
  status : row'.status ≠ .reserved

theorem closes_settledRow (row : SpendRow) (settlement : Settlement) (settlementHash : String)
    (anomaly : Option SettlementAnomaly) (actualNano : Option ℕ) (detectedAt : ℤ) :
    Closes row (settledRow row settlement settlementHash anomaly actualNano detectedAt) := by
  refine ⟨rfl, rfl, rfl, rfl, rfl, rfl, rfl, ?_⟩
  unfold settledRow
  dsimp only
  split_ifs <;> decide

theorem closes_releasedRow (row : SpendRow) (reason : String) (releasedAt updatedAt : ℤ) :
    Closes row (releasedRow row reason releasedAt updatedAt) :=
  ⟨rfl, rfl, rfl, rfl, rfl, rfl, rfl, SpendStatus.noConfusion⟩

theorem updateSettled_eq_ok {spends spends' : Spends} {row : SpendRow} (h : updateSettled spends row = .ok spends') :
    spends' = writeSpend spends row := by
  unfold updateSettled at h
  simp only [Js.bind_eq_ok, Js.require_eq_ok] at h
  obtain ⟨_, _, _, _, h⟩ := h
  cases h
  rfl

/-- The guard against closing a task job's reservation from outside. -/
def MayClose (env : LedgerEnv) (id : String) (allowTaskJobSpend : Bool) : Prop :=
  allowTaskJobSpend = true ∨ id ∉ env.taskJobSpends

theorem guardTaskJobSpend_eq_ok {env : LedgerEnv} {id : String} {allowTaskJobSpend : Bool} {u : Unit} :
    guardTaskJobSpend env id allowTaskJobSpend = .ok u ↔ MayClose env id allowTaskJobSpend := by
  unfold guardTaskJobSpend MayClose assertNotTaskJobSpend
  cases allowTaskJobSpend <;> simp [Js.require_eq_ok]

/-- A settlement replays on a row closed with the same hash, or closes a reserved row. -/
theorem settleInTx_eq_ok {env : LedgerEnv} {spends spends' : Spends} {detectedAt : ℤ} {id : String}
    {dto : SettleDto} {allowTaskJobSpend : Bool} {answer : CloseAnswer}
    (h : settleInTx env spends detectedAt id dto allowTaskJobSpend = .ok (answer, spends')) :
    ∃ settlement row, normalizeSettlement dto = .ok settlement ∧ findSpend spends id = some row ∧
      MayClose env id allowTaskJobSpend ∧
      (((row.status = .settled ∨ row.status = .failed) ∧
          row.settlementHash = some (settlement.json.canonicalHash env.host) ∧
          answer = ⟨row.status, true⟩ ∧ spends' = spends) ∨
        (row.status = .reserved ∧ ∃ anomaly actualNano,
          settlementActual env row settlement = .ok (anomaly, actualNano) ∧
          answer.replay = false ∧
          spends' = writeSpend spends (settledRow row settlement (settlement.json.canonicalHash env.host)
            anomaly actualNano detectedAt))) := by
  unfold settleInTx spendForUpdate at h
  simp only [Js.bind_eq_ok, Js.orThrow_eq_ok, guardTaskJobSpend_eq_ok] at h
  obtain ⟨settlement, hs, row, hrow, _, hmay, h⟩ := h
  refine ⟨settlement, row, hs, hrow, hmay, ?_⟩
  rcases hst : row.status with _ | _ | _ | _ | _ <;> simp only [hst] at h
  · simp only [Js.bind_eq_ok] at h
    obtain ⟨⟨anomaly, actualNano⟩, hact, s, hup, h⟩ := h
    cases h
    exact .inr ⟨rfl, anomaly, actualNano, hact, rfl, updateSettled_eq_ok hup⟩
  · simp only [Js.bind_eq_ok, Js.require_eq_ok] at h
    obtain ⟨_, hhash, h⟩ := h
    cases h
    exact .inl ⟨.inl rfl, hhash, rfl, rfl⟩
  · simp only [Js.bind_eq_ok, Js.require_eq_ok] at h
    obtain ⟨_, hhash, h⟩ := h
    cases h
    exact .inl ⟨.inr rfl, hhash, rfl, rfl⟩
  · cases h
  · cases h

/-- A release replays on a row released for the same reason, or releases a reserved row. -/
theorem releaseInTx_eq_ok {env : LedgerEnv} {spends spends' : Spends} {releasedAt updatedAt : ℤ}
    {id reason : String} {allowTaskJobSpend : Bool} {answer : CloseAnswer}
    (h : releaseInTx env spends releasedAt updatedAt id reason allowTaskJobSpend = .ok (answer, spends')) :
    ∃ row, findSpend spends id = some row ∧ MayClose env id allowTaskJobSpend ∧
      ((row.status = .released ∧ row.reason = some (Js.trim reason) ∧ answer = ⟨.released, true⟩ ∧
          spends' = spends) ∨
        (row.status = .reserved ∧ answer = ⟨.released, false⟩ ∧
          spends' = writeSpend spends (releasedRow row (Js.trim reason) releasedAt updatedAt))) := by
  unfold releaseInTx spendForUpdate at h
  simp only [Js.bind_eq_ok, Js.orThrow_eq_ok, guardTaskJobSpend_eq_ok] at h
  obtain ⟨row, hrow, _, hmay, h⟩ := h
  refine ⟨row, hrow, hmay, ?_⟩
  split_ifs at h with hr
  · cases h
    exact .inl ⟨hr.1, hr.2, rfl, rfl⟩
  · simp only [Js.bind_eq_ok, Js.require_eq_ok] at h
    obtain ⟨_, hst, h⟩ := h
    cases h
    exact .inr ⟨hst, rfl, rfl⟩

/-- A recovery finds no row, a closed one, or a reserved one that it releases. -/
theorem recoverPreDispatchInTx_eq_ok {env : LedgerEnv} {spends spends' : Spends} {now : ℤ} {requestKey : String}
    {answer : Option SpendStatus × Bool}
    (h : recoverPreDispatchInTx env spends now requestKey = .ok (answer, spends')) :
    (findKey spends (Js.trim requestKey) = none ∧ answer = (none, true) ∧ spends' = spends) ∨
      ∃ row, findKey spends (Js.trim requestKey) = some row ∧ row.id ∉ env.taskJobSpends ∧
        ((row.status ≠ .reserved ∧ answer = (some row.status, true) ∧ spends' = spends) ∨
          (row.status = .reserved ∧ answer = (some .released, false) ∧
            spends' = writeSpend spends (releasedRow row LLM_PRE_DISPATCH_RECOVERY_REASON now now))) := by
  unfold recoverPreDispatchInTx at h
  rcases hk : findKey spends (Js.trim requestKey) with _ | row
  · simp only [hk] at h
    cases h
    exact .inl ⟨rfl, rfl, rfl⟩
  · simp only [hk, assertNotTaskJobSpend, Js.bind_eq_ok, Js.require_eq_ok] at h
    obtain ⟨_, hlink, h⟩ := h
    refine .inr ⟨row, rfl, hlink, ?_⟩
    split_ifs at h with hst
    · cases h
      exact .inl ⟨hst, rfl, rfl⟩
    · cases h
      exact .inr ⟨not_not.mp hst, rfl, rfl⟩

end Mydon.Ledger
