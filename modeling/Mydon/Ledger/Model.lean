import Mydon.Ledger.Money
import Mydon.Lib.OrderedMap

/-! The data of the LLM ledger: rows, requests and answers, what is hashed of
them, and the loop that pins a reserve to one Tashkent day. -/

namespace Mydon.Ledger

open Mydon.Lib

abbrev Metadata := List (String × Js.Json)

inductive BudgetAction
  | pause
  | downgrade
  | ask
  deriving DecidableEq

def BudgetAction.text : BudgetAction → String
  | .pause => "pause"
  | .downgrade => "downgrade"
  | .ask => "ask"

structure AgentRow where
  id : String
  name : String
  archivedAt : Option ℤ
  budgetPerDayUsd : Option String
  budgetOnExceeded : Option String
  deriving DecidableEq

structure PriceRow where
  id : String
  snapshot : LedgerPriceSnapshot
  validTo : Option ℤ
  deriving DecidableEq

/-- `priceSnapshot = none` is the empty object that a row without a price holds. -/
structure SpendRow where
  id : String
  requestKey : String
  requestHash : String
  settlementHash : Option String
  traceKey : Option String
  consumer : Consumer
  feature : String
  agentId : Option String
  agentName : Option String
  provider : String
  model : String
  resolvedModel : Option String
  priceId : Option String
  priceSnapshot : Option LedgerPriceSnapshot
  status : SpendStatus
  outcome : Option Outcome
  day : ℤ
  inputTokenCeiling : ℕ
  outputTokenCeiling : ℕ
  reservedUsd : ℕ
  actualUsd : Option ℕ
  usage : Option TokenUsage
  providerRequestId : Option String
  reason : Option String
  metadata : Metadata
  reservedAt : Option ℤ
  settledAt : Option ℤ
  failedAt : Option ℤ
  releasedAt : Option ℤ
  deniedAt : Option ℤ
  createdAt : ℤ
  updatedAt : ℤ

/-- What a transaction reads besides the spends. -/
structure LedgerEnv where
  host : Js.Host
  processEnv : Config
  systemConfig : Config
  agents : List AgentRow
  prices : List PriceRow
  /-- The spends linked from task jobs. -/
  taskJobSpends : List String

structure BudgetSnapshot where
  day : ℤ
  globalCapUsd : ℕ
  globalExposureUsd : ℕ
  remainingUsd : ℕ
  agentCapUsd : Option ℕ
  agentExposureUsd : Option ℕ
  deriving DecidableEq

structure Reservation where
  id : String
  requestKey : String
  day : ℤ
  reservedUsd : ℕ
  replay : Bool
  deriving DecidableEq

inductive ReserveResponse
  | allowed (action : BudgetAction) (reservation : Reservation) (budget : BudgetSnapshot)
  | refused (status : SpendStatus) (action : BudgetAction) (reason : String) (replayBlocked : Bool)
    (budget : BudgetSnapshot)
  deriving DecidableEq

structure ReserveDto where
  requestKey : String
  traceKey : Option String
  metadata : Option Metadata
  consumer : Consumer
  feature : String
  agentName : Option String
  provider : String
  model : String
  inputTokenCeiling : ℕ
  outputTokenCeiling : ℕ

structure ReserveRequest where
  requestKey : String
  traceKey : Option String
  consumer : Consumer
  feature : String
  agentName : Option String
  provider : String
  model : String
  inputTokenCeiling : ℕ
  outputTokenCeiling : ℕ
  metadata : Metadata

structure SettleDto where
  outcome : Outcome
  usage : Option TokenUsage
  providerRequestId : Option String
  resolvedModel : Option String
  providerReportedUsd : Option ℚ
  reason : Option String
  metadata : Option Metadata

structure Settlement where
  outcome : Outcome
  usage : Option TokenUsage
  providerRequestId : Option String
  resolvedModel : Option String
  providerReportedUsd : Option ℚ
  reason : Option String
  metadata : Metadata

/-! Payloads and their hashes. -/

def natJson (n : ℕ) : Js.Json := .num n

def usdJson (nano : ℕ) : Js.Json := .str (nanoToUsd nano)

/-- An entry of an object, left out when the value is undefined. -/
def entry {α : Type} (key : String) (f : α → Js.Json) (value : Option α) : List (String × Js.Json) :=
  (value.map fun v => (key, f v)).toList

def documentsPolicyJson : Js.Json :=
  .obj [("version", natJson 1), ("inputOverheadTokens", natJson DOCUMENTS_INPUT_OVERHEAD_TOKENS),
    ("codeExecution", .obj [("exact", .bool false), ("basis", .str "container_5m_minimum"),
      ("monthlyFreePoolApplied", .bool false)])]

def codeExecutionJson : Js.Json := (documentsPolicyJson.get? "codeExecution").getD .null

def LedgerPriceSnapshot.json (p : LedgerPriceSnapshot) : Js.Json :=
  .obj [("version", natJson 2), ("provider", .str p.provider), ("model", .str p.model),
    ("billingKind", .str p.billingKind.text), ("settlementKind", .str p.settlementKind.text),
    ("inputUsdPerMtok", usdJson p.inputUsdPerMtok), ("outputUsdPerMtok", usdJson p.outputUsdPerMtok),
    ("cacheReadUsdPerMtok", usdJson p.cacheReadUsdPerMtok),
    ("cacheWrite5mUsdPerMtok", usdJson p.cacheWrite5mUsdPerMtok),
    ("cacheWrite1hUsdPerMtok", usdJson p.cacheWrite1hUsdPerMtok),
    ("fixedRequestUsd", usdJson p.fixedRequestUsd),
    ("reservationCeilingUsd", (p.reservationCeilingUsd.map usdJson).getD .null),
    ("codeExecutionUsdPerRequest", usdJson p.codeExecutionUsdPerRequest),
    ("documentsPolicy", documentsPolicyJson), ("validFrom", .str (Clock.isoText p.validFrom))]

/-- A text that is present and not empty, trimmed. -/
def trimmed (value : Option String) : Option String := (value.filter (· ≠ "")).map Js.trim

def normalizeReserve (host : Js.Host) (dto : ReserveDto) : ReserveRequest where
  requestKey := Js.trim dto.requestKey
  traceKey := trimmed dto.traceKey
  consumer := dto.consumer
  feature := Js.trim dto.feature
  agentName := trimmed dto.agentName
  provider := host.toLowerCase (Js.trim dto.provider)
  model := Js.trim dto.model
  inputTokenCeiling := dto.inputTokenCeiling
  outputTokenCeiling := dto.outputTokenCeiling
  metadata := dto.metadata.getD []

def ReserveRequest.json (r : ReserveRequest) : Js.Json :=
  .obj ([("requestKey", .str r.requestKey)] ++ entry "traceKey" .str r.traceKey ++
    [("consumer", .str r.consumer.text), ("feature", .str r.feature)] ++ entry "agentName" .str r.agentName ++
    [("provider", .str r.provider), ("model", .str r.model),
      ("inputTokenCeiling", natJson r.inputTokenCeiling),
      ("outputTokenCeiling", natJson r.outputTokenCeiling), ("metadata", .obj r.metadata)])

def normalizeUsage (usage : TokenUsage) : Except Js.HttpError TokenUsage :=
  let hasCacheBreakdown := usage.cacheCreation5mInputTokens.isSome || usage.cacheCreation1hInputTokens.isSome
  let splitTotal := usage.cacheCreation5mInputTokens.getD 0 + usage.cacheCreation1hInputTokens.getD 0
  if hasCacheBreakdown ∧ usage.cacheCreationInputTokens.any (· ≠ splitTotal) then
    .error (.badRequest
      "cacheCreationInputTokens должен равняться сумме cacheCreation5mInputTokens и cacheCreation1hInputTokens")
  else
    .ok { usage with
      cacheReadInputTokens := some (usage.cacheReadInputTokens.getD 0)
      codeExecutionRequests := some (usage.codeExecutionRequests.getD 0) }

def TokenUsage.json (u : TokenUsage) : Js.Json :=
  .obj ([("inputTokens", natJson u.inputTokens), ("outputTokens", natJson u.outputTokens)] ++
    entry "cacheReadInputTokens" natJson u.cacheReadInputTokens ++
    entry "cacheCreationInputTokens" natJson u.cacheCreationInputTokens ++
    entry "cacheCreation5mInputTokens" natJson u.cacheCreation5mInputTokens ++
    entry "cacheCreation1hInputTokens" natJson u.cacheCreation1hInputTokens ++
    entry "codeExecutionRequests" natJson u.codeExecutionRequests)

def normalizeSettlement (dto : SettleDto) : Except Js.HttpError Settlement := do
  let usage ← match dto.usage with
    | none => .ok none
    | some usage => (normalizeUsage usage).map some
  return {
    outcome := dto.outcome
    usage
    providerRequestId := trimmed dto.providerRequestId
    resolvedModel := trimmed dto.resolvedModel
    providerReportedUsd := dto.providerReportedUsd
    reason := dto.reason.map Js.trim
    metadata := dto.metadata.getD [] }

def Settlement.json (s : Settlement) : Js.Json :=
  .obj ([("outcome", .str s.outcome.text)] ++ entry "usage" TokenUsage.json s.usage ++
    entry "providerRequestId" .str s.providerRequestId ++ entry "resolvedModel" .str s.resolvedModel ++
    entry "providerReportedUsd" .num s.providerReportedUsd ++ entry "reason" .str s.reason ++
    [("metadata", .obj s.metadata)])

/-! The clock: a reserve belongs to a day that is current after its locks. -/

/-- Each element of `clock` is a reading after a lock; `none` while the loop still waits. -/
def stabilizeLedgerDay (beforeLock : ℤ) : List ℤ → Option (ℤ × ℤ)
  | [] => none
  | afterLock :: clock =>
    if Clock.tashkentDay afterLock = Clock.tashkentDay beforeLock then
      some (afterLock, Clock.tashkentDay beforeLock)
    else stabilizeLedgerDay afterLock clock

/-- With a request key that depends on the day: the readings after its request lock and
after the budget lock must both fall on the day the key was made for. -/
def stabilizeKeyedDay (cursor : ℤ) : List ℤ → Option (ℤ × ℤ)
  | [] => none
  | [_] => none
  | afterRequestLock :: afterBudgetLock :: clock =>
    if Clock.tashkentDay afterRequestLock ≠ Clock.tashkentDay cursor then
      stabilizeKeyedDay afterRequestLock (afterBudgetLock :: clock)
    else if Clock.tashkentDay afterBudgetLock = Clock.tashkentDay cursor then
      some (afterBudgetLock, Clock.tashkentDay cursor)
    else stabilizeKeyedDay afterBudgetLock clock

/-- The days that `stabilizeKeyedDay` makes a key for. -/
def keyedDays (cursor : ℤ) : List ℤ → List ℤ
  | [] => [Clock.tashkentDay cursor]
  | [_] => [Clock.tashkentDay cursor]
  | afterRequestLock :: afterBudgetLock :: clock =>
    Clock.tashkentDay cursor ::
      if Clock.tashkentDay afterRequestLock ≠ Clock.tashkentDay cursor then
        keyedDays afterRequestLock (afterBudgetLock :: clock)
      else if Clock.tashkentDay afterBudgetLock = Clock.tashkentDay cursor then []
      else keyedDays afterBudgetLock clock

theorem stabilizeLedgerDay_day {beforeLock : ℤ} {clock : List ℤ} {now day : ℤ}
    (h : stabilizeLedgerDay beforeLock clock = some (now, day)) : Clock.tashkentDay now = day := by
  induction clock generalizing beforeLock with
  | nil => cases h
  | cons afterLock clock ih =>
    unfold stabilizeLedgerDay at h
    split_ifs at h with hd
    · cases h; exact hd
    · exact ih h

theorem stabilizeKeyedDay_day {cursor : ℤ} {clock : List ℤ} {now day : ℤ}
    (h : stabilizeKeyedDay cursor clock = some (now, day)) : Clock.tashkentDay now = day := by
  induction cursor, clock using stabilizeKeyedDay.induct with
  | case1 => cases h
  | case2 => cases h
  | case3 cursor afterRequest afterBudget clock hne ih =>
    rw [stabilizeKeyedDay, if_pos hne] at h
    exact ih h
  | case4 cursor afterRequest afterBudget clock hne heq =>
    rw [stabilizeKeyedDay, if_neg hne, if_pos heq] at h
    cases h
    exact heq
  | case5 cursor afterRequest afterBudget clock hne hne' ih =>
    rw [stabilizeKeyedDay, if_neg hne, if_neg hne'] at h
    exact ih h

end Mydon.Ledger
