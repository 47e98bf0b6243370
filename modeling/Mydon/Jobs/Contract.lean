import Mydon.Js.Json

/-! What a task LLM job accepts: execution plans, provider payloads, results and input
snapshots, each checked and brought to a canonical form before it is hashed. -/

namespace Mydon.Jobs

open Js (Json HttpError)

inductive JobKind
  | chat
  | embedding
  deriving DecidableEq

def JobKind.text : JobKind → String
  | .chat => "chat"
  | .embedding => "embedding"

structure ExecutionPlanStep where
  stepKey : String
  kind : JobKind
  feature : String
  adapter : String
  adapterVersion : ℕ
  endpointProfile : String
  provider : String
  models : List String
  deriving DecidableEq

structure ExecutionPlan where
  version : ℕ
  steps : List ExecutionPlanStep
  deriving DecidableEq

inductive ResultKind
  | success
  | providerRejection
  deriving DecidableEq

def ResultKind.text : ResultKind → String
  | .success => "success"
  | .providerRejection => "provider_rejection"

def MAX_STEPS : ℕ := 8
def MAX_MODELS : ℕ := 3
def MAX_JSON_BYTES : ℕ := 1000000
def OPENAI_COMPATIBLE_ADAPTER : String := "openai-compatible"
def AGENT_RUN_INPUT_SNAPSHOT_MAX_BYTES : ℕ := 65536

def DEFINITIVE_PROVIDER_REJECTION_STATUS_CODES : List ℚ := [400, 401, 403, 404, 409, 413, 415, 422, 429]

def badRequest {α : Type} (message : String) : Except HttpError α := .error (.badRequest message)

/-! Texts. -/

/-- `SAFE_KEY.test(s)`. -/
def isSafeKey (s : String) : Bool :=
  match s.toList with
  | [] => false
  | c :: cs => (Js.isLetter c || Js.isDigit c) && cs.length ≤ 127 &&
      cs.all fun d => Js.isLetter d || Js.isDigit d || d ∈ [':', '.', '_', '/', '-']

def isHex64 (cs : List Char) : Bool :=
  cs.length = 64 && cs.all fun c => Js.isDigit c || ('a' ≤ c && c ≤ 'f')

/-- `OPENAI_CHAT_ENDPOINT_PROFILE` and `OPENAI_EMBEDDING_ENDPOINT_PROFILE`. -/
def isEndpointProfile (kind : JobKind) (s : String) : Bool :=
  let stem := match kind with
    | .chat => "openai-chat-completions:sha256:".toList
    | .embedding => "openai-embeddings:sha256:".toList
  stem.isPrefixOf s.toList && isHex64 (s.toList.drop stem.length)

def normalizedBoundedText (value : Option Json) (field : String) (max : ℕ) : Except HttpError String :=
  match value with
  | some (.str s) =>
    let normalized := Js.trim s
    if Js.length normalized = 0 ∨ max < Js.length normalized then
      badRequest s!"{field} must contain 1..{max} characters"
    else .ok normalized
  | _ => badRequest s!"{field} must be a string"

def boundedNonBlankText (value : Option Json) (field : String) (max : ℕ) : Except HttpError String :=
  match value with
  | some (.str s) =>
    if Js.length (Js.trim s) = 0 ∨ max < Js.length s then
      badRequest s!"{field} must contain 1..{max} characters"
    else .ok s
  | _ => badRequest s!"{field} must contain 1..{max} characters"

def normalizedKey (value : Option Json) (field : String) : Except HttpError String := do
  let normalized ← normalizedBoundedText value field 128
  Js.require (isSafeKey normalized) (.badRequest s!"{field} contains unsupported characters")
  return normalized

/-! Plans. -/

def isNumber (value : Option Json) (n : ℚ) : Bool :=
  match value with
  | some (.num m) => m = n
  | _ => false

def kindOf (value : Option Json) : Option JobKind :=
  match value with
  | some (.str s) => if s = "chat" then some .chat else if s = "embedding" then some .embedding else none
  | _ => none

def normalizeModels (index : ℕ) (modelIndex : ℕ) : List Json → Except HttpError (List String)
  | [] => .ok []
  | model :: models => do
    let first ← normalizedBoundedText (some model) s!"plan.steps[{index}].models[{modelIndex}]" 192
    let rest ← normalizeModels index (modelIndex + 1) models
    return first :: rest

def normalizeStep (host : Js.Host) (seen : List String) (index : ℕ) (item : Json) :
    Except HttpError ExecutionPlanStep :=
  let at_ := s!"plan.steps[{index}]"
  match item with
  | .obj _ => do
    let stepKey ← normalizedKey (item.get? "stepKey") s!"{at_}.stepKey"
    Js.require (stepKey ∉ seen) (.badRequest s!"duplicate plan stepKey {stepKey}")
    let kind ← Js.orThrow (kindOf (item.get? "kind")) (.badRequest s!"{at_}.kind must be chat or embedding")
    Js.require (isNumber (item.get? "adapterVersion") 1) (.badRequest s!"{at_}.adapterVersion must be 1")
    let adapter ← normalizedKey (item.get? "adapter") s!"{at_}.adapter"
    Js.require (adapter = OPENAI_COMPATIBLE_ADAPTER)
      (.badRequest s!"{at_}.adapter must be {OPENAI_COMPATIBLE_ADAPTER} for adapterVersion 1")
    let endpointProfile ← normalizedKey (item.get? "endpointProfile") s!"{at_}.endpointProfile"
    Js.require (isEndpointProfile kind endpointProfile)
      (.badRequest s!"{at_}.endpointProfile is unsupported for {kind.text}")
    let rawModels ← match item.get? "models" with
      | some (.arr models) =>
        if models.isEmpty ∨ MAX_MODELS < models.length then
          badRequest s!"{at_}.models must contain 1..{MAX_MODELS} models"
        else .ok models
      | _ => badRequest s!"{at_}.models must contain 1..{MAX_MODELS} models"
    let models ← normalizeModels index 0 rawModels
    Js.require models.Nodup (.badRequest s!"{at_}.models contains duplicates")
    let feature ← normalizedKey (item.get? "feature") s!"{at_}.feature"
    let provider ← normalizedKey (item.get? "provider") s!"{at_}.provider"
    return ⟨stepKey, kind, feature, adapter, 1, endpointProfile, host.toLowerCase provider, models⟩
  | _ => badRequest s!"{at_} must be an object"

def normalizeSteps (host : Js.Host) (seen : List String) (index : ℕ) :
    List Json → Except HttpError (List ExecutionPlanStep)
  | [] => .ok []
  | item :: items => do
    let step ← normalizeStep host seen index item
    let rest ← normalizeSteps host (step.stepKey :: seen) (index + 1) items
    return step :: rest

def normalizeTaskLlmExecutionPlan (host : Js.Host) (value : Json) : Except HttpError ExecutionPlan :=
  let malformed := s!"plan.version must be 1 and plan.steps must contain at most {MAX_STEPS} steps"
  match value with
  | .obj _ =>
    match isNumber (value.get? "version") 1, value.get? "steps" with
    | true, some (.arr items) =>
      if MAX_STEPS < items.length then badRequest malformed
      else (normalizeSteps host [] 0 items).map fun steps => ⟨1, steps⟩
    | _, _ => badRequest malformed
  | _ => badRequest "plan must be an object"

/-- A stored plan that does not check is a conflict, whatever is wrong with it. -/
def parseStoredTaskLlmExecutionPlan (host : Js.Host) (value : Json) : Except String ExecutionPlan :=
  match normalizeTaskLlmExecutionPlan host value with
  | .ok plan => .ok plan
  | .error _ => .error "Stored task LLM execution plan is invalid"

def num (n : ℕ) : Json := .num n

def ExecutionPlanStep.json (s : ExecutionPlanStep) : Json :=
  .obj [("stepKey", .str s.stepKey), ("kind", .str s.kind.text), ("feature", .str s.feature),
    ("adapter", .str s.adapter), ("adapterVersion", num s.adapterVersion),
    ("endpointProfile", .str s.endpointProfile), ("provider", .str s.provider),
    ("models", .arr (s.models.map .str))]

def ExecutionPlan.json (p : ExecutionPlan) : Json :=
  .obj [("version", num p.version), ("steps", .arr (p.steps.map (·.json)))]

/-! Provider payloads. -/

def jsonByteLength (host : Js.Host) (value : Json) : ℕ := Js.byteLength (value.stringify host)

def secretWords : List (List Char) :=
  ["authorization", "cookie", "secret", "password", "passphrase", "apikey", "api_key", "api-key", "accesstoken",
    "access_token", "access-token"].map String.toList

/-- `SECRET_KEY.test(key)`. -/
def isSecretKey (key : String) : Bool :=
  Js.delimitedWord (fun c => c == '_' || c == '-') secretWords true (key.toList.map Js.lowerAscii)

mutual

def assertNoSecretKeys (path : String) : Json → Except HttpError Unit
  | .arr items => assertNoSecretItems path 0 items
  | .obj entries => assertNoSecretEntries path entries
  | .null => .ok ()
  | .bool _ => .ok ()
  | .num _ => .ok ()
  | .str _ => .ok ()

def assertNoSecretItems (path : String) (index : ℕ) : List Json → Except HttpError Unit
  | [] => .ok ()
  | item :: items => do
    assertNoSecretKeys s!"{path}[{index}]" item
    assertNoSecretItems path (index + 1) items

def assertNoSecretEntries (path : String) : List (String × Json) → Except HttpError Unit
  | [] => .ok ()
  | (key, child) :: entries => do
    Js.require (isSecretKey key = false)
      (.badRequest s!"{path}.{key} may contain a secret and cannot be persisted")
    assertNoSecretKeys s!"{path}.{key}" child
    assertNoSecretEntries path entries

end

def assertBoundedProviderPayload (host : Js.Host) (value : Json) : Except HttpError Json :=
  match value with
  | .obj _ => do
    let canonical := value.canonical
    Js.require (jsonByteLength host canonical ≤ MAX_JSON_BYTES)
      (.badRequest s!"requestPayload exceeds {MAX_JSON_BYTES} bytes")
    assertNoSecretKeys "requestPayload" canonical
    return canonical
  | _ => badRequest "requestPayload must be a JSON object"

/-! Results. -/

/-- `Number.isInteger(n) && 0 <= n && n <= max`. -/
def boundedInteger (n : ℚ) (max : ℚ) : Bool := n.den = 1 && 0 ≤ n && n ≤ max

def readUsage (raw : Json) (key : String) (max : ℚ) : Except HttpError (Option ℚ) :=
  match raw.get? key with
  | none => .ok none
  | some (.num n) =>
    if boundedInteger n max then .ok (some n)
    else badRequest s!"result.usage.{key} must be a bounded non-negative integer"
  | some _ => badRequest s!"result.usage.{key} must be a bounded non-negative integer"

def usageEntry (key : String) (value : Option ℚ) : List (String × Json) :=
  (value.map fun n => (key, Json.num n)).toList

def normalizedUsage (value : Option Json) : Except HttpError (Option Json) :=
  match value with
  | none => .ok none
  | some (.obj entries) => do
    let raw := Json.obj entries
    let inputTokens ← readUsage raw "inputTokens" 100000000
    let outputTokens ← readUsage raw "outputTokens" 100000000
    Js.require (inputTokens.isSome ∧ outputTokens.isSome)
      (.badRequest "result.usage requires inputTokens and outputTokens")
    let cacheRead ← readUsage raw "cacheReadInputTokens" 100000000
    let cacheCreation ← readUsage raw "cacheCreationInputTokens" 100000000
    let cacheCreation5m ← readUsage raw "cacheCreation5mInputTokens" 100000000
    let cacheCreation1h ← readUsage raw "cacheCreation1hInputTokens" 100000000
    let codeExecution ← readUsage raw "codeExecutionRequests" 100000
    return some (.obj (usageEntry "inputTokens" inputTokens ++ usageEntry "outputTokens" outputTokens ++
      usageEntry "cacheReadInputTokens" cacheRead ++ usageEntry "cacheCreationInputTokens" cacheCreation ++
      usageEntry "cacheCreation5mInputTokens" cacheCreation5m ++
      usageEntry "cacheCreation1hInputTokens" cacheCreation1h ++
      usageEntry "codeExecutionRequests" codeExecution))
  | some _ => badRequest "result.usage must be an object"

/-- A text field that may be absent. -/
def optionalText (raw : Json) (key : String) (max : ℕ) : Except HttpError (List (String × Json)) :=
  match raw.get? key with
  | none => .ok []
  | some value => (normalizedBoundedText (some value) s!"result.{key}" max).map fun s => [(key, .str s)]

def reportedUsd (raw : Json) : Except HttpError (List (String × Json)) :=
  match raw.get? "providerReportedUsd" with
  | none => .ok []
  | some (.num n) =>
    if n < 0 then badRequest "result.providerReportedUsd must be a non-negative number"
    else .ok [("providerReportedUsd", .num n)]
  | some _ => badRequest "result.providerReportedUsd must be a non-negative number"

def rejectionStatus (raw : Json) : Except HttpError ℚ :=
  match raw.get? "statusCode" with
  | some (.num n) =>
    if n ∈ DEFINITIVE_PROVIDER_REJECTION_STATUS_CODES then .ok n
    else badRequest "result.statusCode is not an allowlisted definitive provider rejection"
  | _ => badRequest "result.statusCode is not an allowlisted definitive provider rejection"

def vectorItem : Json → Except HttpError Json
  | .num n => .ok (.num n)
  | _ => badRequest "result.vector contains a non-finite number"

def resultVector (raw : Json) : Except HttpError Json :=
  match raw.get? "vector" with
  | some (.arr items) =>
    if items.isEmpty ∨ 16384 < items.length then badRequest "result.vector must contain 1..16384 numbers"
    else (items.mapM vectorItem).map .arr
  | _ => badRequest "result.vector must contain 1..16384 numbers"

/-- The fields that the outcome and the kind of the job ask for. -/
def resultOwn (jobKind : JobKind) (outcome : ResultKind) (raw : Json) :
    Except HttpError (List (String × Json)) :=
  match outcome, jobKind with
  | .providerRejection, _ => do
    let statusCode ← rejectionStatus raw
    let error ← normalizedBoundedText (raw.get? "error") "result.error" 4000
    return [("error", .str error), ("statusCode", .num statusCode)]
  | .success, .chat => (boundedNonBlankText (raw.get? "text") "result.text" 256000).map fun s => [("text", .str s)]
  | .success, .embedding => (resultVector raw).map fun vector => [("vector", vector)]

def normalizeTaskLlmResultPayload (host : Js.Host) (jobKind : JobKind) (outcome : ResultKind) (value : Json) :
    Except HttpError Json :=
  match value with
  | .obj _ => do
    let usage ← normalizedUsage (value.get? "usage")
    let requestId ← optionalText value "providerRequestId" 256
    let resolvedModel ← optionalText value "resolvedModel" 192
    let reported ← reportedUsd value
    let common := (usage.map fun u => ("usage", u)).toList ++ requestId ++ resolvedModel ++ reported
    let own ← resultOwn jobKind outcome value
    let payload := Json.obj (own ++ common)
    Js.require (jsonByteLength host payload.canonical ≤ MAX_JSON_BYTES)
      (.badRequest s!"result exceeds {MAX_JSON_BYTES} bytes")
    return payload.canonical
  | _ => badRequest "result must be an object"

/-! Input snapshots. -/

def forbiddenPublicWords : List (List Char) :=
  ["authorization", "cookie", "header", "headers", "password", "passphrase", "secret", "token", "credential",
    "api_key", "private_key"].map String.toList

/-- `replace(/([A-Z]+)([A-Z][a-z])/g, "$1_$2")`. -/
def splitAcronyms : List Char → List Char
  | a :: b :: c :: cs =>
    if Js.isUpper a && Js.isUpper b && Js.isLower c then a :: '_' :: splitAcronyms (b :: c :: cs)
    else a :: splitAcronyms (b :: c :: cs)
  | cs => cs

/-- `replace(/([a-z\d])([A-Z])/g, "$1_$2")`. -/
def splitCamel : List Char → List Char
  | a :: b :: cs =>
    if (Js.isLower a || Js.isDigit a) && Js.isUpper b then a :: '_' :: splitCamel (b :: cs)
    else a :: splitCamel (b :: cs)
  | cs => cs

/-- `replace(/[-\s]+/g, "_")`; `inRun` is whether the run of separators has begun. -/
def joinSeparators (inRun : Bool) : List Char → List Char
  | [] => []
  | c :: cs =>
    if c == '-' || Js.isSpace c then (if inRun then [] else ['_']) ++ joinSeparators true cs
    else c :: joinSeparators false cs

def normalizedJsonKey (host : Js.Host) (key : String) : String :=
  host.toLowerCase (String.ofList (joinSeparators false (splitCamel (splitAcronyms key.toList))))

def isForbiddenPublicKey (host : Js.Host) (key : String) : Bool :=
  Js.delimitedWord (· == '_') forbiddenPublicWords true (normalizedJsonKey host key).toList

mutual

def isPublicSnapshotJson (host : Js.Host) : Json → Bool
  | .arr items => arePublicItems host items
  | .obj entries => arePublicEntries host entries
  | .null => true
  | .bool _ => true
  | .num _ => true
  | .str _ => true

def arePublicItems (host : Js.Host) : List Json → Bool
  | [] => true
  | item :: items => isPublicSnapshotJson host item && arePublicItems host items

def arePublicEntries (host : Js.Host) : List (String × Json) → Bool
  | [] => true
  | (key, item) :: entries =>
    !isForbiddenPublicKey host key && isPublicSnapshotJson host item && arePublicEntries host entries

end

/-- The kind and the hash of a snapshot; `none` where `normalizeInputSnapshot` throws. -/
def normalizeInputSnapshot (host : Js.Host) (kind : String) (payload : Json) : Option (String × String) :=
  let normalizedKind := Js.trim kind
  match payload with
  | .obj _ =>
    if Js.length normalizedKind = 0 ∨ 128 < Js.length normalizedKind ∨ !isPublicSnapshotJson host payload ∨
        AGENT_RUN_INPUT_SNAPSHOT_MAX_BYTES < jsonByteLength host payload.canonical then none
    else
      some (normalizedKind, (Json.obj [("schemaVersion", num 1), ("kind", .str normalizedKind),
        ("payload", payload.canonical)]).canonicalHash host)
  | _ => none

example : isSecretKey "x-API_key" = true ∧ isSecretKey "monkey" = false := by decide

end Mydon.Jobs
