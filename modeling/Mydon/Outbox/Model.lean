import Mydon.Js.Json
import Mydon.Lib.Table

/-! The outbox of the committed task reports: the rows that Core keeps, and the workers that claim
them, publish a page for each and record the outcome. -/

namespace Mydon.Outbox

open Mydon.Lib
open Js (Json HttpError)

inductive DeliveryStatus
  | pending
  | dispatching
  | sent
  | skipped
  | unknown
  | dead
  deriving DecidableEq

inductive TerminalStatus
  | sent
  | skipped
  | unknown
  | dead
  deriving DecidableEq

def TerminalStatus.toStatus : TerminalStatus → DeliveryStatus
  | .sent => .sent
  | .skipped => .skipped
  | .unknown => .unknown
  | .dead => .dead

def DeliveryStatus.isTerminal : DeliveryStatus → Bool
  | .pending => false
  | .dispatching => false
  | .sent => true
  | .skipped => true
  | .unknown => true
  | .dead => true

/-- A row of `outbox_delivery`. -/
structure DeliveryRow where
  id : String
  key : String
  destination : String
  payload : Json
  payloadHash : String
  status : DeliveryStatus
  attempts : ℕ
  leaseToken : Option String
  claimedAt : Option ℤ
  completedAt : Option ℤ
  providerRef : Option String
  lastError : Option String
  createdAt : ℤ
  updatedAt : ℤ

/-! Core. -/

def DISPATCH_UNKNOWN_AFTER_MS : ℤ := 15 * 60000

/-- `s?.trim().slice(0, n) || null`. -/
def clip (n : ℕ) (s : Option String) : Option String := (s.map fun s => Js.take n (Js.trim s)).filter (· ≠ "")

/-- A dispatch that was claimed too long ago may have been accepted, and does not go back to pending. -/
def expire (destination : String) (now : ℤ) (r : DeliveryRow) : DeliveryRow :=
  if r.destination = destination ∧ r.status = .dispatching ∧ r.claimedAt.any (· ≤ now - DISPATCH_UNKNOWN_AFTER_MS) then
    { r with
      status := .unknown
      completedAt := some now
      lastError := some "dispatch worker не подтвердил исход до истечения lease"
      updatedAt := now }
  else r

def mismatched (token : String) (now : ℤ) (r : DeliveryRow) : DeliveryRow :=
  { r with
    status := .dead
    leaseToken := some token
    claimedAt := some now
    completedAt := some now
    attempts := r.attempts + 1
    lastError := some "outbox payload hash mismatch"
    updatedAt := now }

def dispatched (token : String) (now : ℤ) (r : DeliveryRow) : DeliveryRow :=
  { r with
    status := .dispatching
    leaseToken := some token
    claimedAt := some now
    attempts := r.attempts + 1
    lastError := none
    updatedAt := now }

/-- The oldest pending row that no other transaction holds. -/
def oldestPending (rows : List DeliveryRow) (destination : String) (locked : String → Bool) : Option DeliveryRow :=
  ((rows.filter fun r => r.destination = destination && r.status = .pending && !locked r.id).insertionSort
    fun a b => a.createdAt ≤ b.createdAt).head?

/-- `claim`; `token` is the random UUID of the lease. -/
def claim (host : Js.Host) (rows : List DeliveryRow) (destination token : String) (now : ℤ) (locked : String → Bool) :
    Option DeliveryRow × List DeliveryRow :=
  let rows := rows.map (expire destination now)
  match oldestPending rows destination locked with
  | none => (none, rows)
  | some pending =>
    if pending.payload.canonicalHash host ≠ pending.payloadHash then
      (none, Table.update DeliveryRow.id rows pending.id (mismatched token now))
    else (some (dispatched token now pending), Table.update DeliveryRow.id rows pending.id (dispatched token now))

structure CompleteOptions where
  providerRef : Option String
  error : Option String

def completed (status : TerminalStatus) (options : CompleteOptions) (now : ℤ) (r : DeliveryRow) : DeliveryRow :=
  { r with
    status := status.toStatus
    completedAt := some now
    providerRef := clip 512 options.providerRef
    lastError := clip 2000 options.error
    updatedAt := now }

def complete (rows : List DeliveryRow) (id leaseToken : String) (status : TerminalStatus) (options : CompleteOptions)
    (now : ℤ) : Except HttpError (DeliveryRow × List DeliveryRow) := do
  let existing ← Js.orThrow (Table.lookup DeliveryRow.id rows id) (.notFound s!"Outbox delivery {id} не найдена")
  if existing.status = .dispatching ∧ existing.leaseToken = some leaseToken then
    return (completed status options now existing, Table.update DeliveryRow.id rows id (completed status options now))
  else do
    -- the exact retry of a completion of which the answer was lost
    Js.require (existing.leaseToken = some leaseToken ∧ existing.status = status.toStatus ∧
        existing.providerRef = clip 512 options.providerRef ∧ existing.lastError = clip 2000 options.error)
      (.conflict "Outbox delivery уже принадлежит другому claim или завершена иначе")
    return (existing, rows)

/-! What a call does to a row. -/

section
variable {host : Js.Host} {rows rows' : List DeliveryRow} {destination token id : String} {now : ℤ}
  {locked : String → Bool} {r r' : DeliveryRow}

theorem expire_cases (destination : String) (now : ℤ) (r : DeliveryRow) : expire destination now r = r ∨
    r.status = .dispatching ∧ (expire destination now r).id = r.id ∧ (expire destination now r).status = .unknown ∧
      (expire destination now r).leaseToken = r.leaseToken := by
  unfold expire
  split_ifs with h
  · exact .inr ⟨h.2.1, rfl, rfl, rfl⟩
  · exact .inl rfl

@[simp] theorem expire_id : (expire destination now r).id = r.id := by
  unfold expire
  split_ifs <;> rfl

theorem oldestPending_mem (h : oldestPending rows destination locked = some r) : r ∈ rows ∧ r.status = .pending := by
  unfold oldestPending at h
  have hmem := List.mem_of_mem_head? (Option.mem_def.mpr h)
  rw [List.mem_insertionSort, List.mem_filter] at hmem
  simp only [Bool.and_eq_true, decide_eq_true_eq] at hmem
  exact ⟨hmem.1, hmem.2.1.2⟩

/-- A claim moves the row that it takes and those that it expires. -/
theorem claim_rows (hnd : (rows.map DeliveryRow.id).Nodup) : ∃ f : DeliveryRow → DeliveryRow,
    (claim host rows destination token now locked).2 = rows.map f ∧ ∀ r ∈ rows, f r = expire destination now r ∨
      r.status = .pending ∧ (f r = mismatched token now r ∨ f r = dispatched token now r) := by
  have hexpired : ((rows.map (expire destination now)).map DeliveryRow.id).Nodup := by
    rw [List.map_map]
    exact (List.map_congr_left fun r _ => expire_id (r := r)).symm ▸ hnd
  have hupdate : ∀ (pending : DeliveryRow) (g : DeliveryRow → DeliveryRow),
      pending ∈ rows.map (expire destination now) → pending.status = .pending → ∃ f : DeliveryRow → DeliveryRow,
        Table.update DeliveryRow.id (rows.map (expire destination now)) pending.id g = rows.map f ∧
          ∀ r ∈ rows, f r = expire destination now r ∨ r.status = .pending ∧ f r = g r := by
    intro pending g hmem hpending
    refine ⟨fun r => if (expire destination now r).id = pending.id then g (expire destination now r)
      else expire destination now r, ?_, fun r hr => ?_⟩
    · unfold Table.update
      rw [List.map_map]
      rfl
    · dsimp only
      split_ifs with hid
      · have hsame := Table.eq_of_key_eq hexpired (List.mem_map_of_mem hr) hmem hid
        rcases expire_cases destination now r with hkept | ⟨_, _, hunknown, _⟩
        · rw [hkept] at hsame ⊢
          exact .inr ⟨hsame ▸ hpending, rfl⟩
        · rw [hsame, hpending] at hunknown
          cases hunknown
      · exact .inl rfl
  unfold claim
  dsimp only
  rcases hp : oldestPending (rows.map (expire destination now)) destination locked with _ | pending
  · exact ⟨expire destination now, rfl, fun r _ => .inl rfl⟩
  · obtain ⟨hmem, hpending⟩ := oldestPending_mem hp
    dsimp only
    split_ifs with hhash
    · obtain ⟨f, hrows, hf⟩ := hupdate pending (mismatched token now) hmem hpending
      exact ⟨f, hrows, fun r hr => (hf r hr).imp id (And.imp_right .inl)⟩
    · obtain ⟨f, hrows, hf⟩ := hupdate pending (dispatched token now) hmem hpending
      exact ⟨f, hrows, fun r hr => (hf r hr).imp id (And.imp_right .inr)⟩

/-- A claimed row was pending, and is dispatching under the token of the lease. -/
theorem claim_delivery (h : (claim host rows destination token now locked).1 = some r') :
    (∃ r ∈ rows, r.status = .pending ∧ r' = dispatched token now r) ∧
      r' ∈ (claim host rows destination token now locked).2 := by
  unfold claim at h ⊢
  dsimp only at h ⊢
  rcases hp : oldestPending (rows.map (expire destination now)) destination locked with _ | pending
  · rw [hp] at h
    cases h
  · obtain ⟨hmem, hpending⟩ := oldestPending_mem hp
    rw [hp] at h
    dsimp only at h ⊢
    split_ifs at h ⊢ with hhash
    cases h
    obtain ⟨r, hr, hre⟩ := List.mem_map.mp hmem
    rcases expire_cases destination now r with hkept | ⟨_, _, hunknown, _⟩
    · rw [hkept] at hre
      subst hre
      refine ⟨⟨r, hr, hpending, rfl⟩, ?_⟩
      unfold Table.update
      exact List.mem_map.mpr ⟨r, hmem, if_pos rfl⟩
    · rw [hre, hpending] at hunknown
      cases hunknown

/-- A completion that succeeds is by the holder of the lease: the first one, or its exact replay. -/
theorem complete_eq_ok {status : TerminalStatus} {options : CompleteOptions} (hnd : (rows.map DeliveryRow.id).Nodup)
    (h : complete rows id token status options now = .ok (r', rows')) :
    ∃ r ∈ rows, r.id = id ∧ r.leaseToken = some token ∧
      ((r.status = .dispatching ∧ r' = completed status options now r ∧
          rows' = Table.update DeliveryRow.id rows id (completed status options now)) ∨
        (r.status = status.toStatus ∧ r.providerRef = clip 512 options.providerRef ∧
          r.lastError = clip 2000 options.error ∧ r' = r ∧ rows' = rows)) := by
  unfold complete at h
  obtain ⟨r, hr, h⟩ := Js.bind_eq_ok.mp h
  obtain ⟨hmem, hid⟩ := (Table.lookup_eq_some_iff hnd).mp (Js.orThrow_eq_ok.mp hr)
  split_ifs at h with hholds
  · cases h
    exact ⟨r, hmem, hid, hholds.2, .inl ⟨hholds.1, rfl, rfl⟩⟩
  · obtain ⟨_, hreplay, h⟩ := Js.bind_eq_ok.mp h
    cases h
    obtain ⟨htoken, hstatus, hprovider, herror⟩ := Js.require_eq_ok.mp hreplay
    exact ⟨r', hmem, hid, htoken, .inr ⟨hstatus, hprovider, herror, rfl, rfl⟩⟩

end

/-! Notion. -/

structure NotionBlock where
  heading : Option String
  paragraphs : Option (List String)
  bullets : Option (List String)
  deriving DecidableEq

structure NotionReport where
  title : String
  author : String
  blocks : List NotionBlock
  deriving DecidableEq

/-- A field that may be left out, and is a text otherwise. -/
def optionalText : Option Json → Option (Option String)
  | none => some none
  | some (.str s) => some (some s)
  | some _ => none

def optionalTexts : Option Json → Option (Option (List String))
  | none => some none
  | some (.arr items) => (items.mapM Json.asString).map some
  | some _ => none

def parseNotionBlock (value : Json) : Option NotionBlock :=
  match value with
  | .obj _ => do
    let heading ← optionalText (value.get? "heading")
    let paragraphs ← optionalTexts (value.get? "paragraphs")
    let bullets ← optionalTexts (value.get? "bullets")
    return ⟨heading, paragraphs, bullets⟩
  | _ => none

/-- A text that is not blank. -/
def requiredText (value : Option Json) : Option String := (value.bind Json.asString).filter fun s => Js.trim s ≠ ""

def parseNotionReport (value : Json) : Option NotionReport := do
  let report ← value.get? "report"
  let title ← requiredText (report.get? "title")
  let author ← requiredText (report.get? "author")
  match report.get? "blocks" with
  | some (.arr items) =>
    let blocks ← items.mapM parseNotionBlock
    return ⟨title, author, blocks⟩
  | _ => none

/-- What comes back of a request: nothing that can be read, or a response. -/
inductive NotionReply
  | failed (message : String)
  | response (status : ℕ) (message code pageId : Option String)
  deriving DecidableEq

inductive PublishError
  | notion (reason : String) (status : ℕ)
  | other (message : String)
  deriving DecidableEq

def PublishError.message : PublishError → String
  | .notion reason _ => reason
  | .other message => message

def objectNotFoundDetail : String :=
  "Страница не найдена или не расшарена интеграции. " ++
    "Открой страницу в Notion → «…» → «Connections» → добавь интеграцию MYDON."

def responseDetail (status : ℕ) (message code : Option String) : String :=
  if code = some "object_not_found" then objectNotFoundDetail
  else (message.filter (· ≠ "")).getD s!"HTTP {status}"

/-- `publish`, from what came back: the id of the page or an error. -/
def published : NotionReply → Except PublishError String
  | .failed message => .error (.other message)
  | .response status message code pageId =>
    if 200 ≤ status ∧ status < 300 then
      match pageId with
      | some id => .ok id
      -- a body that cannot be read
      | none => .error (.other "Unexpected end of JSON input")
    else .error (.notion (responseDetail status message code) status)

/-- The statuses that say that no page was made. -/
def refusals : List ℕ := [400, 401, 403, 404, 429]

def isDeterministicClientError : PublishError → Bool
  | .notion _ status => status ∈ [400, 401, 403, 404]
  | .other _ => false

def isRateLimit : PublishError → Bool
  | .notion _ status => status = 429
  | .other _ => false

/-! The worker. -/

structure ClaimedOutboxDelivery where
  id : String
  key : String
  destination : String
  payload : Json
  leaseToken : String

structure DrainOptions where
  /-- `notion.fromEnv` finds a token and a parent page. -/
  configured : Bool
  limit : Option ℤ
  maxRateLimitRetries : Option ℤ

def DrainOptions.limitOf (o : DrainOptions) : ℕ := (min (max (o.limit.getD 10) 1) 100).toNat

def DrainOptions.retriesOf (o : DrainOptions) : ℕ := (min (max (o.maxRateLimitRetries.getD 2) 0) 5).toNat

structure OutboxDrainResult where
  claimed : ℕ
  sent : ℕ
  skipped : ℕ
  unknown : ℕ
  dead : ℕ
  deriving DecidableEq

/-- Where a worker is: before which call. -/
inductive Phase
  | stopped
  | claiming
  | publishing (d : ClaimedOutboxDelivery) (report : NotionReport) (rateLimitRetries : ℕ)
  | confirming (d : ClaimedOutboxDelivery) (report : NotionReport) (rateLimitRetries : ℕ) (page : String)
  | completing (d : ClaimedOutboxDelivery) (status : TerminalStatus) (error : String)

structure Worker where
  phase : Phase
  index : ℕ
  options : DrainOptions
  result : OutboxDrainResult

namespace Worker

variable (w : Worker)

def stop : Worker := { w with phase := .stopped }

/-- The next turn of the loop. -/
def next : Worker :=
  if w.index + 1 < w.options.limitOf then { w with phase := .claiming, index := w.index + 1 } else w.stop

def count (status : TerminalStatus) : Worker :=
  { w with result := match status with
    | .sent => { w.result with sent := w.result.sent + 1 }
    | .skipped => { w.result with skipped := w.result.skipped + 1 }
    | .unknown => { w.result with unknown := w.result.unknown + 1 }
    | .dead => { w.result with dead := w.result.dead + 1 } }

/-- What the worker does with a delivery that it has claimed. -/
def take (d : ClaimedOutboxDelivery) : Worker :=
  let w := { w with result := { w.result with claimed := w.result.claimed + 1 } }
  if w.options.configured = false then { w with phase := .completing d .skipped "Notion не настроен" }
  else
    match parseNotionReport d.payload with
    | none => { w with phase := .completing d .dead "outbox payload не соответствует NotionReport" }
    | some report => { w with phase := .publishing d report 0 }

/-- The catch block around publish and the completion that follows it. -/
def caught (d : ClaimedOutboxDelivery) (report : NotionReport) (rateLimitRetries : ℕ) (e : PublishError) : Worker :=
  if isRateLimit e && rateLimitRetries < w.options.retriesOf then
    { w with phase := .publishing d report (rateLimitRetries + 1) }
  else if isDeterministicClientError e || isRateLimit e then
    { w with phase := .completing d .dead (
      if isRateLimit e then s!"{e.message}; rate-limit retry exhausted after {rateLimitRetries + 1} attempts"
      else e.message) }
  else { w with phase := .completing d .unknown e.message }

end Worker

end Mydon.Outbox
