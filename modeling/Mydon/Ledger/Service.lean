import Mydon.Ledger.Model
import Mydon.Lib.Table

/-! Reserve, settle, release and recover, each one transaction over the table of
spends. Advisory locks serialise them; a violated constraint of the table rolls
the transaction back. -/

namespace Mydon.Ledger

open Mydon.Lib

/-! Reading and writing the table. -/

abbrev Spends := List SpendRow

def findKey (spends : Spends) (requestKey : String) : Option SpendRow :=
  Table.lookup SpendRow.requestKey spends requestKey

def findSpend (spends : Spends) (id : String) : Option SpendRow := Table.lookup SpendRow.id spends id

/-- A `numeric(24, 9)` column holds the amount. -/
def fitsMoney (nano : ℕ) : Bool := nano < 10 ^ 24

/-- `insert`, under the primary key, the unique request key and the money columns. -/
def insertSpend (spends : Spends) (row : SpendRow) : Except Js.HttpError Spends := do
  Js.require (∀ r ∈ spends, r.id ≠ row.id) (.internal "duplicate key value: llm_spend_pkey")
  Js.require (∀ r ∈ spends, r.requestKey ≠ row.requestKey)
    (.internal "duplicate key value: llm_spend_request_key_idx")
  Js.require (fitsMoney row.reservedUsd) (.internal "numeric field overflow")
  return spends ++ [row]

/-- `update ... where id = row.id`. -/
def writeSpend (spends : Spends) (row : SpendRow) : Spends := Table.write SpendRow.id spends row

/-! Policies. -/

structure CapValue where
  nano : ℕ
  error : Option String
  deriving DecidableEq

def parseCap (host : Js.Host) (raw label : String) : CapValue :=
  match usdToNano host raw .floor with
  | .ok nano => ⟨nano, none⟩
  | .error _ => ⟨0, some s!"Настройка «{label}» не является неотрицательной суммой"⟩

structure AdmissionPolicy where
  enabled : Bool
  reservationCapNano : ℕ
  denial : Option String
  deriving DecidableEq

def resolveLlmAdmissionPolicy (host : Js.Host) (config env : Config) : AdmissionPolicy :=
  let enabled := resolveConfigValue "LLM_ENABLED" "0" config env = "1"
  let cap := parseCap host (resolveConfigValue "LLM_MAX_RESERVATION_USD" "3" config env)
    "максимум одного LLM-reserve"
  { enabled
    reservationCapNano := cap.nano
    denial := if ¬ enabled then some "LLM выключен: LLM_ENABLED должен быть равен 1" else cap.error }

def flatOpenAiPriceTierDenial (request : ReserveRequest) : Option String :=
  if request.provider = "openai" ∧ request.model = "gpt-5.6-sol" ∧ 272000 < request.inputTokenCeiling then
    some "OpenAI gpt-5.6-sol: inputTokenCeiling выше 272000 заблокирован, пока каталог не умеет tier surcharge"
  else none

def reservationLimitDenial (reserveNano capNano : ℕ) : Option String :=
  if capNano < reserveNano then
    some s!"Один LLM-reserve ${nanoToUsd reserveNano} превышает потолок ${nanoToUsd capNano}"
  else none

/-- `a ?? b ?? ...`. -/
def firstSome (denials : List (Option String)) : Option String := denials.findSome? id

def globalCap (env : LedgerEnv) : CapValue :=
  parseCap env.host (globalCapValue env.systemConfig env.processEnv) "глобальный LLM-потолок"

def agentCap (env : LedgerEnv) (budgetPerDayUsd : Option String) (name : String) : CapValue :=
  parseCap env.host (agentCapValue budgetPerDayUsd env.systemConfig env.processEnv) s!"потолок агента {name}"

def budgetAction (value : Option String) : BudgetAction :=
  if value = some "downgrade" then .downgrade else if value = some "ask" then .ask else .pause

def consumerRequiresAgent (consumer : Consumer) : Bool := consumer = .agents || consumer = .embeddings

/-- The agent row, or the error of looking it up; neither where no agent is named. -/
def resolveAgent (env : LedgerEnv) (consumer : Consumer) (agentName : Option String) :
    Option AgentRow × Option String :=
  match agentName.filter (· ≠ "") with
  | none =>
    if consumerRequiresAgent consumer then (none, some s!"Вызов consumer={consumer.text} требует agentName")
    else (none, none)
  | some name =>
    match env.agents.find? fun a => a.name = name && a.archivedAt.isNone with
    | some row => (some row, none)
    | none => (none, some s!"Агент \"{name}\" не найден или архивирован")

def agentById (env : LedgerEnv) (id : String) : Option AgentRow := env.agents.find? (·.id = id)

def activeProviderPrices (env : LedgerEnv) (provider : String) (now : ℤ) : List PriceRow :=
  env.prices.filter fun p =>
    p.snapshot.provider = provider && p.snapshot.validFrom ≤ now && p.validTo.all fun validTo => now < validTo

def selectPrice (rows : List PriceRow) (model : String) : Option PriceRow :=
  selectCatalogPrice (·.snapshot.model) (·.snapshot.validFrom) rows model

/-! Exposure. -/

/-- The `case` of `exposureSumSql`. -/
def rowExposure (r : SpendRow) : ℕ :=
  match r.status with
  | .reserved => r.reservedUsd
  | .settled => r.actualUsd.getD 0
  | .failed =>
    if r.outcome = some .unknown then max r.reservedUsd (r.actualUsd.getD 0) else r.actualUsd.getD r.reservedUsd
  | .released => 0
  | .denied => 0

def sumExposure (spends : Spends) (day : ℤ) (agentId : Option String) : ℕ :=
  ((spends.filter fun r => r.day = day && agentId.all fun id => r.agentId = some id).map rowExposure).sum

structure Exposure where
  global : ℕ
  agent : Option ℕ
  deriving DecidableEq

def readExposure (spends : Spends) (day : ℤ) (agentId : Option String) : Exposure :=
  ⟨sumExposure spends day none, agentId.map fun id => sumExposure spends day (some id)⟩

def budget (day : ℤ) (globalCap : ℕ) (exposure : Exposure) (agentCap : Option ℕ) : BudgetSnapshot where
  day := day
  globalCapUsd := globalCap
  globalExposureUsd := exposure.global
  remainingUsd := globalCap - exposure.global
  agentCapUsd := agentCap
  agentExposureUsd := agentCap.map fun _ => exposure.agent.getD 0

/-! The provider circuit. -/

/-- `metadata -> '_llmLedger' ->> 'circuitOpen' = 'true'`. -/
def circuitFlag (metadata : Metadata) : Bool :=
  match (OrderedMap.get metadata "_llmLedger").bind (Js.Json.get? "circuitOpen") with
  | some (.bool b) => b
  | some (.str s) => s = "true"
  | _ => false

/-- The row opens the circuit of its provider for the day. -/
def opensCircuit (provider : String) (day : ℤ) (r : SpendRow) : Bool :=
  r.provider = provider && r.status = .failed && r.outcome = some .unknown &&
    (r.failedAt.any fun at_ => Clock.tashkentDayStart day ≤ at_ && at_ < Clock.tashkentDayStart day + Clock.DAY_MS) &&
    circuitFlag r.metadata

def providerCircuit (spends : Spends) (now : ℤ) (provider : String) : Option String :=
  (spends.find? (opensCircuit provider (Clock.tashkentDay now))).map fun r =>
    r.reason.getD "аномалия resolved model"

/-! Reserve. -/

def reserveMetadata (metadata : Metadata) (consumer : Consumer) (denialAction : Option BudgetAction)
    (routedModels : Option (List String)) : Metadata :=
  let clientMetadata := metadata.filter (·.1 ≠ "_llmLedger")
  let internal : Metadata :=
    (if consumer = .documents then
      [("documentsPolicy", documentsPolicyJson), ("codeExecution", codeExecutionJson)] else []) ++
    entry "routeReserve"
      (fun models => .obj [("basis", .str "max_active_provider_sku"), ("models", .arr (models.map .str))])
      routedModels ++
    entry "denialAction" (fun a => .str a.text) denialAction
  if internal.isEmpty then clientMetadata else clientMetadata ++ [("_llmLedger", .obj internal)]

def storedDenialAction (metadata : Metadata) (fallback : BudgetAction) : BudgetAction :=
  match ((OrderedMap.get metadata "_llmLedger").bind (Js.Json.get? "denialAction")).bind Js.Json.asString with
  | some "pause" => .pause
  | some "downgrade" => .downgrade
  | some "ask" => .ask
  | _ => fallback

def allowedResponse (row : SpendRow) (replay : Bool) (snapshot : BudgetSnapshot) (action : BudgetAction) :
    ReserveResponse :=
  .allowed action ⟨row.id, row.requestKey, row.day, row.reservedUsd, replay⟩ snapshot

def priorAgent (env : LedgerEnv) (prior : SpendRow) : Option AgentRow := prior.agentId.bind (agentById env)

def priorAgentCap (env : LedgerEnv) (prior : SpendRow) : Option CapValue :=
  prior.agentId.map fun id =>
    agentCap env ((priorAgent env prior).bind (·.budgetPerDayUsd)) (prior.agentName.getD id)

/-- The policies that a replay re-validates before it looks at the row itself. -/
def currentPolicyDenial (env : LedgerEnv) (spends : Spends) (day : ℤ) (request : ReserveRequest)
    (prior : SpendRow) : Option String :=
  let cap := globalCap env
  let admission := resolveLlmAdmissionPolicy env.host env.systemConfig env.processEnv
  let perAgentCap := priorAgentCap env prior
  let exposure := readExposure spends day prior.agentId
  let agentLabel := prior.agentName.getD (prior.agentId.getD "")
  firstSome [admission.denial, flatOpenAiPriceTierDenial request, cap.error, perAgentCap.bind (·.error),
    if prior.day ≠ day then
      some s!"LLM-reserve относится к ташкентским суткам {Clock.dayText prior.day}; повтор в текущих сутках {Clock.dayText day} запрещён"
    else none,
    if cap.nano < exposure.global then
      some s!"Текущая LLM-экспозиция ${nanoToUsd exposure.global} выше нового дневного потолка ${nanoToUsd cap.nano}"
    else none,
    match perAgentCap with
    | some agentCap =>
      if agentCap.nano < exposure.agent.getD 0 then
        some s!"Текущая LLM-экспозиция агента {agentLabel} выше нового дневного потолка"
      else none
    | none => none,
    reservationLimitDenial prior.reservedUsd admission.reservationCapNano]

/-- Why a reserved row with the same payload may not be replayed: its price moved. -/
def replayPriceDenial (env : LedgerEnv) (now : ℤ) (request : ReserveRequest) (prior : SpendRow) :
    Option String :=
  let priceRows := activeProviderPrices env request.provider now
  match selectPrice priceRows request.model with
  | none => some s!"В Core больше нет действующей цены {request.provider}/{request.model}; replay запрещён"
  | some activePriceRow =>
    match prior.priceSnapshot with
    | none => some "Сохранённый LLM price snapshot повреждён; replay запрещён"
    | some storedPrice =>
      if prior.priceId ≠ some activePriceRow.id ∨
          storedPrice.json.canonicalHash env.host ≠ activePriceRow.snapshot.json.canonicalHash env.host then
        some s!"Действующая цена {request.provider}/{request.model} изменилась после reserve; replay запрещён"
      else
        match reserveProviderRouteCostNano activePriceRow.snapshot (priceRows.map (·.snapshot)) request.consumer
          request.inputTokenCeiling request.outputTokenCeiling with
        | .error message => some s!"Действующий LLM-тариф непригоден для replay: {message}"
        | .ok currentRouteReserveNano =>
          if prior.reservedUsd < currentRouteReserveNano then
            some s!"Текущий консервативный reserve ${nanoToUsd currentRouteReserveNano} выше сохранённого ${nanoToUsd prior.reservedUsd}; replay запрещён"
          else none

/-- The answer to a request key that has a row; nothing is written. -/
def replayReserve (env : LedgerEnv) (spends : Spends) (now day : ℤ) (request : ReserveRequest)
    (requestHash : String) (prior : SpendRow) : ReserveResponse :=
  let snapshot := budget day (globalCap env).nano (readExposure spends day prior.agentId)
    ((priorAgentCap env prior).map (·.nano))
  let currentAction := budgetAction ((priorAgent env prior).bind (·.budgetOnExceeded))
  let blocked reason := ReserveResponse.refused prior.status currentAction reason true snapshot
  match currentPolicyDenial env spends day request prior with
  | some denial => blocked denial
  | none =>
    if prior.requestHash ≠ requestHash then
      blocked "requestKey уже использован с другим reserve-payload; повторный provider call запрещён"
    else if prior.status = .denied then
      .refused .denied (storedDenialAction prior.metadata currentAction)
        (prior.reason.getD "Core не разрешил платный вызов LLM") false snapshot
    else if prior.status ≠ .reserved then
      blocked s!"requestKey уже закрыт статусом {prior.status.text}; повторный provider call запрещён"
    else
      match replayPriceDenial env now request prior with
      | some denial => blocked denial
      | none => allowedResponse prior true snapshot currentAction

/-- The price of a new reserve, or why it is denied before its size is known. -/
def priceNewReserve (env : LedgerEnv) (spends : Spends) (now : ℤ) (request : ReserveRequest) :
    Except String ℕ :=
  let resolved := resolveAgent env request.consumer request.agentName
  let perAgentCap := resolved.1.map fun a => agentCap env a.budgetPerDayUsd a.name
  let priceRows := activeProviderPrices env request.provider now
  let denial := firstSome [
    (resolveLlmAdmissionPolicy env.host env.systemConfig env.processEnv).denial,
    flatOpenAiPriceTierDenial request, (globalCap env).error, perAgentCap.bind (·.error), resolved.2,
    (providerCircuit spends now request.provider).map fun reason =>
      s!"LLM provider {request.provider} заблокирован до ручной сверки/новых суток: {reason}"]
  match denial with
  | some denial => .error denial
  | none =>
    match selectPrice priceRows request.model with
    | none => .error s!"В Core нет действующей цены {request.provider}/{request.model}"
    | some price =>
      reserveProviderRouteCostNano price.snapshot (priceRows.map (·.snapshot)) request.consumer
        request.inputTokenCeiling request.outputTokenCeiling

/-- The limits that a priced reserve has to fit. -/
def limitDenial (env : LedgerEnv) (spends : Spends) (day : ℤ) (agent : Option AgentRow) (reserveNano : ℕ) :
    Option String :=
  let exposure := readExposure spends day (agent.map (·.id))
  let cap := globalCap env
  firstSome [
    reservationLimitDenial reserveNano
      (resolveLlmAdmissionPolicy env.host env.systemConfig env.processEnv).reservationCapNano,
    if cap.nano < exposure.global + reserveNano then
      some s!"Дневной LLM-потолок исчерпан: резерв ${nanoToUsd reserveNano} не помещается"
    else none,
    match agent with
    | some a =>
      if (agentCap env a.budgetPerDayUsd a.name).nano < exposure.agent.getD 0 + reserveNano then
        some s!"Дневной потолок агента {a.name} исчерпан"
      else none
    | none => none]

/-- The columns that a reserved and a denied row share; it is filled in as reserved. -/
def reserveRow (env : LedgerEnv) (now day : ℤ) (request : ReserveRequest) (requestHash newId : String)
    (reserveNano : ℕ) : SpendRow :=
  let agent := (resolveAgent env request.consumer request.agentName).1
  let priceRows := activeProviderPrices env request.provider now
  let price := selectPrice priceRows request.model
  let routedModels :=
    if consumerRequiresAgent request.consumer then
      some ((priceRows.map (·.snapshot.model)).insertionSort fun a b => Js.before b a = false)
    else none
  { id := newId
    requestKey := request.requestKey
    requestHash
    settlementHash := none
    traceKey := request.traceKey
    consumer := request.consumer
    feature := request.feature
    agentId := agent.map (·.id)
    agentName := (agent.map (·.name)).or request.agentName
    provider := request.provider
    model := request.model
    resolvedModel := none
    priceId := price.map (·.id)
    priceSnapshot := price.map (·.snapshot)
    status := .reserved
    outcome := none
    day
    inputTokenCeiling :=
      if price.isSome then billableInputTokenCeiling request.consumer request.inputTokenCeiling
      else request.inputTokenCeiling
    outputTokenCeiling := request.outputTokenCeiling
    reservedUsd := reserveNano
    actualUsd := none
    usage := none
    providerRequestId := none
    reason := none
    metadata := reserveMetadata request.metadata request.consumer none routedModels
    reservedAt := some now
    settledAt := none
    failedAt := none
    releasedAt := none
    deniedAt := none
    createdAt := now
    updatedAt := now }

/-- The row of a denied reserve. -/
def deniedRow (env : LedgerEnv) (now day : ℤ) (request : ReserveRequest) (requestHash newId : String)
    (reserveNano : ℕ) (action : BudgetAction) (reason : String) : SpendRow :=
  let row := reserveRow env now day request requestHash newId reserveNano
  let routedModels :=
    if consumerRequiresAgent request.consumer then
      some (((activeProviderPrices env request.provider now).map (·.snapshot.model)).insertionSort
        fun a b => Js.before b a = false)
    else none
  { row with
    status := .denied
    reason := some reason
    metadata := reserveMetadata request.metadata request.consumer (some action) routedModels
    reservedAt := none
    deniedAt := some now }

/-- The answer to a request key without a row, and the row written for it. -/
def newReserve (env : LedgerEnv) (spends : Spends) (now day : ℤ) (request : ReserveRequest)
    (requestHash newId : String) : Except Js.HttpError (ReserveResponse × Spends) :=
  let agent := (resolveAgent env request.consumer request.agentName).1
  let perAgentCap := agent.map fun a => (agentCap env a.budgetPerDayUsd a.name).nano
  let exposure := readExposure spends day (agent.map (·.id))
  let action := budgetAction (agent.bind (·.budgetOnExceeded))
  let priced := priceNewReserve env spends now request
  let reserveNano := match priced with
    | .ok nano => nano
    | .error _ => 0
  let denial := match priced with
    | .ok nano => limitDenial env spends day agent nano
    | .error denial => some denial
  match denial with
  | some reason => do
    let spends ← insertSpend spends (deniedRow env now day request requestHash newId reserveNano action reason)
    return (.refused .denied action reason false (budget day (globalCap env).nano exposure perAgentCap), spends)
  | none => do
    let created := reserveRow env now day request requestHash newId reserveNano
    let spends ← insertSpend spends created
    let after : Exposure := ⟨exposure.global + reserveNano, exposure.agent.map (· + reserveNano)⟩
    return (allowedResponse created false (budget day (globalCap env).nano after perAgentCap) action, spends)

/-- The reserve of a request at a moment, once its locks are held. -/
def reserveAt (env : LedgerEnv) (spends : Spends) (now day : ℤ) (request : ReserveRequest) (newId : String) :
    Except Js.HttpError (ReserveResponse × Spends) :=
  let requestHash := request.json.canonicalHash env.host
  match findKey spends request.requestKey with
  | some prior => .ok (replayReserve env spends now day request requestHash prior, spends)
  | none => newReserve env spends now day request requestHash newId

/-- The moment of a reserve, once its locks are held, and its request; `none` is a transaction
that still waits when the readings of the clock end. The first is taken before any lock. -/
def reserveCall (env : LedgerEnv) (clock : List ℤ) (dto : ReserveDto) (requestKeyForDay : Option (ℤ → String)) :
    Option (ℤ × ℤ × ReserveRequest) :=
  match clock, requestKeyForDay with
  | [], _ => none
  | first :: clock, none =>
    (stabilizeLedgerDay first clock).map fun (now, day) => (now, day, normalizeReserve env.host dto)
  | first :: clock, some keyForDay =>
    (stabilizeKeyedDay first clock).map fun (now, day) =>
      (now, day, normalizeReserve env.host { dto with requestKey := keyForDay day })

def reserveInTx (env : LedgerEnv) (spends : Spends) (clock : List ℤ) (newId : String) (dto : ReserveDto)
    (requestKeyForDay : Option (ℤ → String)) : Option (Except Js.HttpError (ReserveResponse × Spends)) :=
  (reserveCall env clock dto requestKeyForDay).map fun (now, day, request) =>
    reserveAt env spends now day request newId

/-! What a reserve can do. -/

theorem firstSome_eq_none {denials : List (Option String)} : firstSome denials = none ↔ ∀ d ∈ denials, d = none := by
  simp [firstSome, List.findSome?_eq_none_iff]

theorem denial_eq_none {p : Prop} [Decidable p] {reason : String} :
    (if p then some reason else none) = none ↔ ¬ p := by
  split_ifs with h <;> simp [h]

theorem reservationLimitDenial_eq_none {reserveNano capNano : ℕ} :
    reservationLimitDenial reserveNano capNano = none ↔ reserveNano ≤ capNano := by
  rw [reservationLimitDenial, denial_eq_none, not_lt]

/-- A priced reserve is not denied exactly when it fits every limit. -/
theorem limitDenial_eq_none {env : LedgerEnv} {spends : Spends} {day : ℤ} {agent : Option AgentRow} {nano : ℕ} :
    limitDenial env spends day agent nano = none ↔
      nano ≤ (resolveLlmAdmissionPolicy env.host env.systemConfig env.processEnv).reservationCapNano ∧
        sumExposure spends day none + nano ≤ (globalCap env).nano ∧
        ∀ a ∈ agent, sumExposure spends day (some a.id) + nano ≤ (agentCap env a.budgetPerDayUsd a.name).nano := by
  unfold limitDenial
  rw [firstSome_eq_none]
  -- the comparisons first: rewriting the exposures would leave their decisions behind
  rcases agent with _ | a <;>
    simp only [List.forall_mem_cons, reservationLimitDenial_eq_none, denial_eq_none, not_lt] <;>
    simp [readExposure]

theorem insertSpend_eq_ok {spends spends' : Spends} {row : SpendRow} :
    insertSpend spends row = .ok spends' ↔
      (∀ r ∈ spends, r.id ≠ row.id) ∧ (∀ r ∈ spends, r.requestKey ≠ row.requestKey) ∧
        fitsMoney row.reservedUsd ∧ spends' = spends ++ [row] := by
  unfold insertSpend
  simp only [Js.bind_eq_ok, Js.require_eq_ok, exists_and_left, exists_const, pure, Except.pure, Except.ok.injEq]
  rw [eq_comm (a := spends ++ [row])]

theorem reserveCall_day {env : LedgerEnv} {clock : List ℤ} {dto : ReserveDto}
    {requestKeyForDay : Option (ℤ → String)} {now day : ℤ} {request : ReserveRequest}
    (h : reserveCall env clock dto requestKeyForDay = some (now, day, request)) :
    Clock.tashkentDay now = day := by
  rcases clock with _ | ⟨first, clock⟩
  · cases h
  · rcases requestKeyForDay with _ | keyForDay <;>
      obtain ⟨⟨now', day'⟩, hs, he⟩ := Option.map_eq_some_iff.mp h <;>
      obtain ⟨rfl, rfl, rfl⟩ := he
    · exact stabilizeLedgerDay_day hs
    · exact stabilizeKeyedDay_day hs

theorem reserveInTx_eq_some {env : LedgerEnv} {spends : Spends} {clock : List ℤ} {newId : String}
    {dto : ReserveDto} {requestKeyForDay : Option (ℤ → String)}
    {answer : Except Js.HttpError (ReserveResponse × Spends)} :
    reserveInTx env spends clock newId dto requestKeyForDay = some answer ↔
      ∃ now day request, reserveCall env clock dto requestKeyForDay = some (now, day, request) ∧
        reserveAt env spends now day request newId = answer := by
  simp only [reserveInTx, Option.map_eq_some_iff, Prod.exists]

/-- A replay is allowed on a reserved row of the same payload, on the row's own day. -/
theorem replayReserve_allowed {env : LedgerEnv} {spends : Spends} {now day : ℤ} {request : ReserveRequest}
    {requestHash : String} {prior : SpendRow} {action : BudgetAction} {reservation : Reservation}
    {snapshot : BudgetSnapshot}
    (h : replayReserve env spends now day request requestHash prior = .allowed action reservation snapshot) :
    currentPolicyDenial env spends day request prior = none ∧ prior.requestHash = requestHash ∧
      prior.status = .reserved ∧ replayPriceDenial env now request prior = none ∧
      reservation = ⟨prior.id, prior.requestKey, prior.day, prior.reservedUsd, true⟩ := by
  unfold replayReserve at h
  rcases hp : currentPolicyDenial env spends day request prior with _ | denial
  · simp only [hp] at h
    split_ifs at h with hhash hdenied hres
    rcases hr : replayPriceDenial env now request prior with _ | denial
    · simp only [hr, allowedResponse, ReserveResponse.allowed.injEq] at h
      obtain ⟨_, rfl, _⟩ := h
      exact ⟨rfl, not_not.mp hhash, not_not.mp hres, rfl, rfl⟩
    · simp only [hr] at h
      cases h
  · simp only [hp] at h
    cases h

theorem currentPolicyDenial_day {env : LedgerEnv} {spends : Spends} {day : ℤ} {request : ReserveRequest}
    {prior : SpendRow} (h : currentPolicyDenial env spends day request prior = none) : prior.day = day := by
  unfold currentPolicyDenial at h
  rw [firstSome_eq_none] at h
  simp only [List.forall_mem_cons, denial_eq_none] at h
  exact not_not.mp h.2.2.2.2.1

/-- A new key inserts one row: a denied one with a refusal, or a reserved one that fits. -/
theorem newReserve_eq_ok {env : LedgerEnv} {spends spends' : Spends} {now day : ℤ} {request : ReserveRequest}
    {requestHash newId : String} {response : ReserveResponse}
    (h : newReserve env spends now day request requestHash newId = .ok (response, spends')) :
    (∃ nano action reason snapshot, response = .refused .denied action reason false snapshot ∧
        insertSpend spends (deniedRow env now day request requestHash newId nano action reason) = .ok spends') ∨
      (∃ nano snapshot action, priceNewReserve env spends now request = .ok nano ∧
        limitDenial env spends day (resolveAgent env request.consumer request.agentName).1 nano = none ∧
        response = allowedResponse (reserveRow env now day request requestHash newId nano) false snapshot action ∧
        insertSpend spends (reserveRow env now day request requestHash newId nano) = .ok spends') := by
  unfold newReserve at h
  rcases hp : priceNewReserve env spends now request with denial | nano
  · simp only [hp, Js.bind_eq_ok] at h
    obtain ⟨s, hi, hr⟩ := h
    cases hr
    exact .inl ⟨_, _, _, _, rfl, hi⟩
  · rcases hl : limitDenial env spends day (resolveAgent env request.consumer request.agentName).1 nano with
      _ | reason
    · simp only [hp, hl, Js.bind_eq_ok] at h
      obtain ⟨s, hi, hr⟩ := h
      cases hr
      exact .inr ⟨nano, _, _, rfl, hl, rfl, hi⟩
    · simp only [hp, hl, Js.bind_eq_ok] at h
      obtain ⟨s, hi, hr⟩ := h
      cases hr
      exact .inl ⟨_, _, _, _, rfl, hi⟩

end Mydon.Ledger
