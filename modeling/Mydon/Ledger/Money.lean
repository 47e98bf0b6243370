import Mathlib.Data.Rat.Floor
import Mydon.Clock
import Mydon.Js.Json

/-! Money of the LLM ledger. Money columns have nine decimals, so an amount is a
natural number of nano-USD; configured amounts are decimal texts. -/

namespace Mydon.Ledger

def NANO_USD : ℕ := 1000000000

def TOKENS_PER_MTOK : ℕ := 1000000

def DOCUMENTS_INPUT_OVERHEAD_TOKENS : ℕ := 128000

inductive Consumer
  | agents
  | bot
  | cc
  | documents
  | embeddings
  deriving DecidableEq

def Consumer.text : Consumer → String
  | .agents => "agents"
  | .bot => "bot"
  | .cc => "cc"
  | .documents => "documents"
  | .embeddings => "embeddings"

inductive BillingKind
  | metered
  | subscription
  deriving DecidableEq

def BillingKind.text : BillingKind → String
  | .metered => "metered"
  | .subscription => "subscription"

inductive SettlementKind
  | tokens
  | providerReported
  deriving DecidableEq

def SettlementKind.text : SettlementKind → String
  | .tokens => "tokens"
  | .providerReported => "provider_reported"

inductive SpendStatus
  | reserved
  | settled
  | failed
  | released
  | denied
  deriving DecidableEq

def SpendStatus.text : SpendStatus → String
  | .reserved => "reserved"
  | .settled => "settled"
  | .failed => "failed"
  | .released => "released"
  | .denied => "denied"

inductive Outcome
  | success
  | providerError
  | unknown
  deriving DecidableEq

def Outcome.text : Outcome → String
  | .success => "success"
  | .providerError => "provider_error"
  | .unknown => "unknown"

structure LedgerPriceSnapshot where
  provider : String
  model : String
  billingKind : BillingKind
  settlementKind : SettlementKind
  inputUsdPerMtok : ℕ
  outputUsdPerMtok : ℕ
  cacheReadUsdPerMtok : ℕ
  cacheWrite5mUsdPerMtok : ℕ
  cacheWrite1hUsdPerMtok : ℕ
  fixedRequestUsd : ℕ
  reservationCeilingUsd : Option ℕ
  codeExecutionUsdPerRequest : ℕ
  validFrom : ℤ
  deriving DecidableEq

structure TokenUsage where
  inputTokens : ℕ
  outputTokens : ℕ
  cacheReadInputTokens : Option ℕ
  cacheCreationInputTokens : Option ℕ
  cacheCreation5mInputTokens : Option ℕ
  cacheCreation1hInputTokens : Option ℕ
  codeExecutionRequests : Option ℕ
  deriving DecidableEq

inductive Rounding
  | floor
  | ceil
  deriving DecidableEq

/-! Decimal texts. -/

def digitsNat (cs : List Char) : ℕ := cs.foldl (fun n c => n * 10 + (c.toNat - 48)) 0

/-- `/^(\d+)(?:\.(\d*))?$/`. -/
def matchDecimal (cs : List Char) : Option (List Char × List Char) :=
  let whole := cs.takeWhile Js.isDigit
  if whole = [] then none
  else
    match cs.dropWhile Js.isDigit with
    | [] => some (whole, [])
    | c :: fraction => if c = '.' ∧ fraction.all Js.isDigit then some (whole, fraction) else none

def decimalNano (rounding : Rounding) (parts : List Char × List Char) : ℕ :=
  let kept := parts.2.take 9 ++ List.replicate (9 - parts.2.length) '0'
  let bump := if rounding = .ceil ∧ (parts.2.drop 9).any (· ≠ '0') then 1 else 0
  digitsNat parts.1 * NANO_USD + digitsNat kept + bump

def dropTrailing (p : Char → Bool) (cs : List Char) : List Char := (cs.reverse.dropWhile p).reverse

variable (host : Js.Host)

/-- `value.toFixed(12).replace(/0+$/, "").replace(/\.$/, "")`, for a finite value. -/
def numberAsDecimal (value : ℚ) : Option (List Char) :=
  if value < 0 then none
  else
    let digits := dropTrailing (· == '0') (host.toFixed12 value).toList
    some (if digits.getLast? = some '.' then digits.dropLast else digits)

def usdToNanoNumber (value : ℚ) (rounding : Rounding) : Except String ℕ :=
  match (numberAsDecimal host value).bind matchDecimal with
  | some parts => .ok (decimalNano rounding parts)
  | none => .error s!"Некорректная сумма USD: {host.numberText value}"

def usdToNano (value : String) (rounding : Rounding) : Except String ℕ :=
  let raw := Js.replaceFirst ',' '.' (Js.trimChars value.toList)
  match matchDecimal raw with
  | some parts => .ok (decimalNano rounding parts)
  | none =>
    match host.number (String.ofList raw) with
    | some parsed =>
      if 0 ≤ parsed then usdToNanoNumber host parsed rounding
      else .error s!"Некорректная сумма USD: {String.ofList raw}"
    | none => .error s!"Некорректная сумма USD: {String.ofList raw}"

def nanoToUsd (value : ℕ) : String :=
  toString (value / NANO_USD) ++ "." ++ Clock.padStart 9 (value % NANO_USD : ℕ)

/-! Costs. -/

def divideCeil (numerator denominator : ℕ) : ℕ :=
  if numerator = 0 then 0 else (numerator + denominator - 1) / denominator

def maxNat (values : List ℕ) : ℕ := values.foldl (fun m value => if m < value then value else m) 0

/-- One Messages request of Documents opens one container. -/
def isDocumentCodeExecution (consumer : Consumer) : Bool := consumer = .documents

def billableInputTokenCeiling (consumer : Consumer) (clientInputTokenCeiling : ℕ) : ℕ :=
  clientInputTokenCeiling + if isDocumentCodeExecution consumer then DOCUMENTS_INPUT_OVERHEAD_TOKENS else 0

def reserveCostNano (price : LedgerPriceSnapshot) (consumer : Consumer)
    (inputTokenCeiling outputTokenCeiling : ℕ) : Except String ℕ :=
  if price.billingKind = .subscription then .ok 0
  else if price.settlementKind = .providerReported then
    match price.reservationCeilingUsd with
    | none => .error "provider_reported тариф не имеет reservation_ceiling_usd"
    | some ceiling => .ok ceiling
  else
    -- the cache share is not known yet: every input token at the dearest rate
    let inputRate := maxNat [price.inputUsdPerMtok, price.cacheReadUsdPerMtok, price.cacheWrite5mUsdPerMtok,
      price.cacheWrite1hUsdPerMtok]
    let numerator := inputRate * billableInputTokenCeiling consumer inputTokenCeiling +
      price.outputUsdPerMtok * outputTokenCeiling
    let codeExecutionReserve :=
      if isDocumentCodeExecution consumer then price.codeExecutionUsdPerRequest else 0
    .ok (divideCeil numerator TOKENS_PER_MTOK + price.fixedRequestUsd + codeExecutionReserve)

/-- Gateways reserve the dearest active price of the provider's route. -/
def reserveProviderRouteCostNano (requestedPrice : LedgerPriceSnapshot)
    (activeProviderPrices : List LedgerPriceSnapshot) (consumer : Consumer)
    (inputTokenCeiling outputTokenCeiling : ℕ) : Except String ℕ :=
  let prices :=
    if consumer = .agents ∨ consumer = .embeddings then activeProviderPrices else [requestedPrice]
  (prices.mapM fun price => reserveCostNano price consumer inputTokenCeiling outputTokenCeiling).map maxNat

def cacheCreationCostNumerator (price : LedgerPriceSnapshot) (usage : TokenUsage) : Except String ℕ :=
  let hasBreakdown := usage.cacheCreation5mInputTokens.isSome || usage.cacheCreation1hInputTokens.isSome
  let aggregate := usage.cacheCreationInputTokens.getD 0
  if !hasBreakdown then .ok (maxNat [price.cacheWrite5mUsdPerMtok, price.cacheWrite1hUsdPerMtok] * aggregate)
  else
    let tokens5m := usage.cacheCreation5mInputTokens.getD 0
    let tokens1h := usage.cacheCreation1hInputTokens.getD 0
    if usage.cacheCreationInputTokens.isSome ∧ aggregate ≠ tokens5m + tokens1h then
      .error "cacheCreationInputTokens не равен сумме 5m/1h breakdown"
    else .ok (price.cacheWrite5mUsdPerMtok * tokens5m + price.cacheWrite1hUsdPerMtok * tokens1h)

def settlementCostNano (price : LedgerPriceSnapshot) (consumer : Consumer) (usage : Option TokenUsage)
    (providerReportedUsd : Option ℚ) : Except String (Option ℕ) :=
  if price.billingKind = .subscription then .ok (some 0)
  else if price.settlementKind = .providerReported then
    match providerReportedUsd with
    | none => .ok none
    | some value => (usdToNanoNumber host value .ceil).map some
  else
    match usage with
    | none => .ok none
    | some usage => do
      let cacheCreationCost ← cacheCreationCostNumerator price usage
      let numerator := price.inputUsdPerMtok * usage.inputTokens +
        price.outputUsdPerMtok * usage.outputTokens +
        price.cacheReadUsdPerMtok * usage.cacheReadInputTokens.getD 0 + cacheCreationCost
      let codeExecutionCost :=
        if isDocumentCodeExecution consumer then price.codeExecutionUsdPerRequest else 0
      return some (divideCeil numerator TOKENS_PER_MTOK + price.fixedRequestUsd + codeExecutionCost)

def exposureNano (status : SpendStatus) (outcome : Option Outcome) (reservedUsd : ℕ) (actualUsd : Option ℕ) :
    ℕ :=
  match status with
  | .reserved => reservedUsd
  | .settled => actualUsd.getD 0
  | .failed => if outcome = some .unknown then max reservedUsd (actualUsd.getD 0) else actualUsd.getD reservedUsd
  | .released => 0
  | .denied => 0

/-- A provider may answer with the catalog id and a date, `-YYYYMMDD`. -/
def resolvedModelMatchesCatalogPrice (provider resolvedModel catalogModel : String) : Bool :=
  if catalogModel = "" then false
  else if resolvedModel = catalogModel then true
  else if provider ≠ "anthropic" ∨ !catalogModel.toList.isPrefixOf resolvedModel.toList then false
  else
    match resolvedModel.toList.drop catalogModel.toList.length with
    | c :: digits => c = '-' && digits.length = 8 && digits.all Js.isDigit
    | [] => false

/-- The price of the model that came into force last. -/
def selectCatalogPrice {ρ : Type} (model : ρ → String) (validFrom : ρ → ℤ) (rows : List ρ)
    (requestedModel : String) : Option ρ :=
  ((rows.filter fun row => model row = requestedModel).insertionSort
    fun left right => validFrom right ≤ validFrom left).head?

/-! Configured caps. -/

abbrev Config := List (String × String)

def Config.value (config : Config) (key : String) : Option String :=
  (config.find? (·.1 = key)).map Prod.snd

def firstNonEmpty (values : List (Option String)) : String :=
  ((values.filterMap fun v => v.map Js.trim).find? (· ≠ "")).getD ""

def globalCapValue (db env : Config) : String :=
  firstNonEmpty [db.value "LLM_GLOBAL_DAILY_BUDGET_USD", env.value "LLM_GLOBAL_DAILY_BUDGET_USD",
    db.value "AGENT_GLOBAL_BUDGET_USD", env.value "AGENT_GLOBAL_BUDGET_USD", some "10"]

def agentCapValue (cardValue : Option String) (db env : Config) : String :=
  firstNonEmpty [cardValue, db.value "AGENT_DAILY_BUDGET_USD", env.value "AGENT_DAILY_BUDGET_USD", some "5"]

/-- A setting with a default: the database first, then the environment. -/
def resolveConfigValue (key fallback : String) (db env : Config) : String :=
  let dbVal := Js.trim ((db.value key).getD "")
  let envVal := Js.trim ((env.value key).getD "")
  if dbVal ≠ "" then dbVal else if envVal ≠ "" then envVal else fallback

end Mydon.Ledger
