import Mydon.Issues.Parity
import Mydon.Vending.Slots

/-! Low stock of the machines, kept as one issue and one refill task for each machine. -/

namespace Mydon.Issues.LowStock

open Mydon.Lib
open Js (Json HttpError)
open Lib.Matching (Plan Rules)
open Vending (normalizeMachineSerial normalizeProductName)
open Parity (hexHost hexDigits_hexHost)

inductive Kind
  | lowStock
  deriving DecidableEq

def VENDING_LOW_STOCK_ISSUE_KIND : String := "vending.low_stock"

def VENDING_LOW_STOCK_ISSUE_SOURCE : String := "vending-low-stock-issue"

def VENDING_LOW_STOCK_ISSUES_OPENED_EVENT : String := "vending.low_stock_issues.opened"

def VENDING_LOW_STOCK_ISSUES_RESOLVED_EVENT : String := "vending.low_stock_issues.resolved"

/-- One low product of a current planogram. A quantity that is not finite is none. -/
structure LowStockIssueInput where
  serial : String
  product : String
  productKey : String
  left : Option ℚ
  capacity : Option ℚ
  deriving DecidableEq

structure LowStockIssueCoverage where
  authoritativeSerials : List String
  inactiveSerials : List String
  deriving DecidableEq

structure LowStockIssueItem where
  coverageKey : String
  productKey : String
  product : String
  left : ℚ
  capacity : ℚ
  deriving DecidableEq

abbrev LowStockIssueObservation := Observation Kind LowStockIssueItem

abbrev ExistingLowStockIssue := ExistingIssue Kind

inductive Reason
  | healthy
  | inactive
  deriving DecidableEq

abbrev LowStockIssuePlan := Plan LowStockIssueObservation ExistingLowStockIssue Reason

section
variable (host : Js.Host)

/-! Identity. -/

def lowStockIssueScope (serial : String) : String := normalizeMachineSerial host serial

def lowStockIssueProductScope (serial productKey : String) : String :=
  s!"{lowStockIssueScope host serial}|{normalizeProductName host productKey}"

def lowStockIssueTaskClientKey (fingerprint : String) : String := s!"{VENDING_LOW_STOCK_ISSUE_SOURCE}:{fingerprint}"

/-- The digest of a scope. -/
def scopeFingerprint (serial : String) : String :=
  host.sha256 s!"{VENDING_LOW_STOCK_ISSUE_KIND}|{lowStockIssueScope host serial}"

def lowStockIssueFingerprint (serial : String) : Except HttpError String := do
  Js.require (lowStockIssueScope host serial ≠ "") (.internal "Low-stock issue without a machine serial")
  return scopeFingerprint host serial

/-! Observations. -/

def itemJson (item : LowStockIssueItem) : Json :=
  .obj [("coverageKey", .str item.coverageKey), ("productKey", .str item.productKey), ("product", .str item.product),
    ("left", .num item.left), ("capacity", .num item.capacity)]

def readItem (value : Json) : Option LowStockIssueItem := do
  let coverageKey ← (value.get? "coverageKey").bind Json.asString
  let productKey ← (value.get? "productKey").bind Json.asString
  let product ← (value.get? "product").bind Json.asString
  let left ← (value.get? "left").bind Json.asNumber
  let capacity ← (value.get? "capacity").bind Json.asNumber
  return ⟨coverageKey, productKey, product, left, capacity⟩

def itemsFromPayload (payload : Json) : List LowStockIssueItem := payloadItems readItem payload

def payloadOf (serial scopeDate : String) (items : List LowStockIssueItem) : Json :=
  .obj [("surface", .str "low_stock"), ("serial", .str serial), ("observedDay", .str scopeDate),
    ("items", .arr (items.map itemJson))]

def sortItems (items : List LowStockIssueItem) : List LowStockIssueItem :=
  items.insertionSort fun a b => host.localeCompare a.coverageKey b.coverageKey ≤ 0

/-- `observationWithItems` of a serial that has a scope. -/
def observationWithItems (serial scopeDate : String) (items : List LowStockIssueItem) : LowStockIssueObservation where
  kind := .lowStock
  fingerprint := scopeFingerprint host serial
  scopeDate
  scopeKey := serial
  serial
  items := sortItems host items
  payload := payloadOf serial scopeDate (sortItems host items)

def addInput (byMachine : List (String × List (String × LowStockIssueItem))) (input : LowStockIssueInput) :
    Except HttpError (List (String × List (String × LowStockIssueItem))) := do
  let serial := lowStockIssueScope host input.serial
  Js.require (serial ≠ "") (.internal "Low-stock input without a machine serial")
  let productKey := normalizeProductName host (if input.productKey = "" then input.product else input.productKey)
  Js.require (productKey ≠ "") (.internal s!"Low-stock input {serial} without a product key")
  let nonFinite := HttpError.internal s!"Low-stock input {serial}|{productKey} has a non-finite quantity"
  let left ← Js.orThrow input.left nonFinite
  let capacity ← Js.orThrow input.capacity nonFinite
  let product := Js.trim input.product
  let item : LowStockIssueItem := {
    coverageKey := lowStockIssueProductScope host serial productKey
    productKey
    product := if product = "" then productKey else product
    left
    capacity }
  return OrderedMap.alter (fun products => OrderedMap.alter (fun _ => item) productKey (products.getD [])) serial byMachine

def observeMachine (scopeDate : String) (m : String × List (String × LowStockIssueItem)) :
    Except HttpError LowStockIssueObservation := do
  let _ ← lowStockIssueFingerprint host m.1
  return observationWithItems host m.1 scopeDate (m.2.map Prod.snd)

/-- One observation for each machine. -/
def lowStockIssueObservations (inputs : List LowStockIssueInput) (scopeDate : String) :
    Except HttpError (List LowStockIssueObservation) := do
  let byMachine ← inputs.foldlM (addInput host) []
  let observations ← byMachine.mapM (observeMachine host scopeDate)
  return observations.insertionSort fun a b => host.localeCompare a.fingerprint b.fingerprint ≤ 0

/-! The planner. -/

/-- The canonical serials of a list. -/
def serialSet (serials : List String) : List String := (serials.map (normalizeMachineSerial host)).filter (· ≠ "")

def mergeUnobservedItems (authoritative : List String) (o : LowStockIssueObservation) (issue : ExistingLowStockIssue) :
    LowStockIssueObservation :=
  if issue.scopeKey ∈ authoritative ∨ issue.status ≠ .open then o
  else
    observationWithItems host o.serial o.scopeDate
      (Matching.remember LowStockIssueItem.productKey o.items (itemsFromPayload issue.payload))

def rules (coverage : LowStockIssueCoverage) :
    Rules (Kind × String) LowStockIssueObservation ExistingLowStockIssue Reason where
  keyOf o := (o.kind, o.fingerprint)
  recordKey i := (i.kind, i.fingerprint)
  le a b := host.localeCompare a.2 b.2 ≤ 0
  merge := mergeUnobservedItems host (serialSet host coverage.authoritativeSerials)
  isOpen := ExistingIssue.isOpen
  isOver := ExistingIssue.isOver
  verdict i :=
    if i.scopeKey ∈ serialSet host coverage.inactiveSerials then some .inactive
    else if i.scopeKey ∈ serialSet host coverage.authoritativeSerials then some .healthy
    else none

/-- The registry wins over an observation of a machine that is out of service. -/
def active (coverage : LowStockIssueCoverage) (o : LowStockIssueObservation) : Bool :=
  o.scopeKey ∉ serialSet host coverage.inactiveSerials

def planLowStockIssues (observations : List LowStockIssueObservation) (existing : List ExistingLowStockIssue)
    (coverage : LowStockIssueCoverage) : LowStockIssuePlan :=
  (rules host coverage).plan (observations.filter (active host coverage)) existing

/-! The service. -/

def itemText (item : LowStockIssueItem) : String :=
  s!"{item.product} — остаток {host.numberText item.left} из {host.numberText item.capacity}"

def taskPresentation (registry : MachineIndex) (o : LowStockIssueObservation) : Presentation :=
  let machine := (registry.nameBySerial o.serial).getD o.serial
  let shown := (o.items.take 20).map (itemText host)
  let omitted := o.items.length - shown.length
  { title := s!"Пополнить {machine}: заканчивается товар"
    description := "Заканчивается: " ++ String.intercalate "; " shown ++
      (if 0 < omitted then s!"; и ещё {omitted}." else ".") ++
      " Задача закроется сама, когда свежая валидная планограмма покажет, что дефицита больше нет."
    entityId := registry.firstIdBySerial o.serial }

def resultNote : Reason → String
  | .inactive => "Автомат больше не в строю — задача пополнения закрыта автоматически."
  | .healthy => "Свежая валидная планограмма больше не показывает низкий остаток — закрыто автоматически."

def identity (item : TransitionEventItem Kind) : String := s!"{item.fingerprint}:{item.episode}"

def wording (registry : MachineIndex) : Wording Kind LowStockIssueItem Reason where
  source := VENDING_LOW_STOCK_ISSUE_SOURCE
  openedEvent := VENDING_LOW_STOCK_ISSUES_OPENED_EVENT
  resolvedEvent := VENDING_LOW_STOCK_ISSUES_RESOLVED_EVENT
  present := taskPresentation host registry
  clientKey o := lowStockIssueTaskClientKey o.fingerprint
  keptKey o _ := some (lowStockIssueTaskClientKey o.fingerprint)
  -- field work stays with its human assignee
  reopenOwner e := if e.taskOwnerKind = .human then e.taskOwnerRef else none
  resultNote
  identity
  itemJson item := .obj [("title", .str item.title), ("taskId", .str item.taskId)]
  itemLE a b := host.localeCompare a.fingerprint b.fingerprint ≤ 0

end

/-- A report with what the call reads beside it. -/
structure LowStockIssueCall where
  items : List LowStockIssueInput
  coverage : LowStockIssueCoverage
  registry : MachineIndex
  ids : NewIds Kind
  now : ℤ
  /-- The clock when the events are written. -/
  occurredAt : ℤ

/-- Each serial once, in canonical form. -/
def normalizedCoverage (host : Js.Host) (coverage : LowStockIssueCoverage) : LowStockIssueCoverage where
  authoritativeSerials := OrderedMap.keySet (serialSet host coverage.authoritativeSerials)
  inactiveSerials := OrderedMap.keySet (serialSet host coverage.inactiveSerials)

/-- Tasks of an earlier scheme, one a day for each machine; the service adopts those that are open. -/
def isLegacySource (source : String) : Prop := "low_stock:".toList <+: source.toList

/-! What the observations are. -/

section
variable {host : Js.Host} {inputs : List LowStockIssueInput} {scopeDate : String}
  {observations : List LowStockIssueObservation}

theorem mem_observations (h : lowStockIssueObservations host inputs scopeDate = .ok observations)
    {o : LowStockIssueObservation} (ho : o ∈ observations) :
    ∃ serial items, o = observationWithItems host serial scopeDate items := by
  unfold lowStockIssueObservations at h
  obtain ⟨byMachine, _, h⟩ := Js.bind_eq_ok.mp h
  obtain ⟨made, hmade, h⟩ := Js.bind_eq_ok.mp h
  cases h
  rw [List.mem_insertionSort] at ho
  obtain ⟨m, _, hm⟩ := (Js.mapM_eq_ok hmade).1 o ho
  unfold observeMachine at hm
  obtain ⟨_, _, hm⟩ := Js.bind_eq_ok.mp hm
  cases hm
  exact ⟨_, _, rfl⟩

/-- An input leaves its machine and every other one in the map. -/
theorem keys_addInput {m m' : List (String × List (String × LowStockIssueItem))} {input : LowStockIssueInput}
    (h : addInput host m input = .ok m') :
    lowStockIssueScope host input.serial ∈ OrderedMap.keys m' ∧ ∀ k ∈ OrderedMap.keys m, k ∈ OrderedMap.keys m' := by
  unfold addInput at h
  simp only [Js.bind_eq_ok] at h
  obtain ⟨_, _, _, _, left, _, capacity, _, h⟩ := h
  cases h
  rw [OrderedMap.keys_alter]
  split_ifs with hmem
  · exact ⟨hmem, fun k hk => hk⟩
  · exact ⟨List.mem_append_right _ (List.mem_singleton_self _), fun k hk => List.mem_append_left _ hk⟩

theorem keys_foldlM_addInput {m m' : List (String × List (String × LowStockIssueItem))}
    (h : inputs.foldlM (addInput host) m = .ok m') :
    (∀ input ∈ inputs, lowStockIssueScope host input.serial ∈ OrderedMap.keys m') ∧
      ∀ k ∈ OrderedMap.keys m, k ∈ OrderedMap.keys m' := by
  induction inputs generalizing m with
  | nil =>
    cases h
    exact ⟨List.forall_mem_nil _, fun k hk => hk⟩
  | cons input inputs ih =>
    rw [List.foldlM_cons] at h
    obtain ⟨m₁, hinput, h⟩ := Js.bind_eq_ok.mp h
    obtain ⟨hself, hkept⟩ := keys_addInput hinput
    obtain ⟨hrest, hkept'⟩ := ih h
    exact ⟨List.forall_mem_cons.mpr ⟨hkept' _ hself, hrest⟩, fun k hk => hkept' _ (hkept k hk)⟩

/-- Every machine of the report is observed. -/
theorem exists_observation (h : lowStockIssueObservations host inputs scopeDate = .ok observations)
    {input : LowStockIssueInput} (hinput : input ∈ inputs) :
    ∃ o ∈ observations, o.scopeKey = lowStockIssueScope host input.serial := by
  unfold lowStockIssueObservations at h
  obtain ⟨byMachine, hfold, h⟩ := Js.bind_eq_ok.mp h
  obtain ⟨made, hmade, h⟩ := Js.bind_eq_ok.mp h
  cases h
  obtain ⟨m, hm, hscope⟩ := List.mem_map.mp ((keys_foldlM_addInput hfold).1 input hinput)
  obtain ⟨o, ho, hom⟩ := (Js.mapM_eq_ok hmade).2 m hm
  refine ⟨o, (List.mem_insertionSort _).mpr ho, ?_⟩
  unfold observeMachine at hom
  obtain ⟨_, _, hom⟩ := Js.bind_eq_ok.mp hom
  cases hom
  exact hscope

/-- What is written in a payload is read from it. -/
@[simp] theorem itemsFromPayload_payloadOf (serial scopeDate : String) (items : List LowStockIssueItem) :
    itemsFromPayload (payloadOf serial scopeDate items) = items := by
  have hread : ∀ item : LowStockIssueItem, readItem (itemJson item) = some item := fun _ => rfl
  change (items.map itemJson).filterMap readItem = items
  rw [List.filterMap_map]
  exact (List.filterMap_congr fun item _ => hread item).trans List.filterMap_some

/-- A product that was recorded stays beside the observed ones, unless the machine is authoritative. -/
theorem mem_mergeUnobservedItems {authoritative : List String} {o : LowStockIssueObservation}
    {issue : ExistingLowStockIssue} (hauthoritative : issue.scopeKey ∉ authoritative) (hopen : issue.status = .open)
    {key : String} (hkey : key ∈ (itemsFromPayload issue.payload).map LowStockIssueItem.productKey) :
    key ∈ (itemsFromPayload (mergeUnobservedItems host authoritative o issue).payload).map
      LowStockIssueItem.productKey := by
  unfold mergeUnobservedItems
  rw [if_neg (by simp [hauthoritative, hopen])]
  unfold observationWithItems
  rw [itemsFromPayload_payloadOf]
  have hmem : key ∈ (Matching.remember LowStockIssueItem.productKey o.items (itemsFromPayload issue.payload)).map
      LowStockIssueItem.productKey := Matching.mem_map_remember.mpr (.inr hkey)
  obtain ⟨item, hitem, rfl⟩ := List.mem_map.mp hmem
  exact List.mem_map_of_mem ((List.mem_insertionSort _).mpr hitem)

end

/-! The service. -/

def service (host : Js.Host) : Service Kind LowStockIssueItem Reason LowStockIssueCall where
  host
  source := VENDING_LOW_STOCK_ISSUE_SOURCE
  identity
  openedEvent := VENDING_LOW_STOCK_ISSUES_OPENED_EVENT
  resolvedEvent := VENDING_LOW_STOCK_ISSUES_RESOLVED_EVENT
  fingerprint _ scope := scopeFingerprint host scope
  reserved source := source = VENDING_LOW_STOCK_ISSUE_SOURCE ∨ isLegacySource source
  wording c := wording host c.registry
  rules c := rules host (normalizedCoverage host c.coverage)
  observe c := lowStockIssueObservations host c.items (Clock.dayText (Clock.tashkentDay c.now))
  active c := active host (normalizedCoverage host c.coverage)
  relevant _ _ := true
  ids c := c.ids
  now c := c.now
  occurredAt c := c.occurredAt
  reserved_source := .inl rfl
  wording_source _ := rfl
  wording_identity _ := rfl
  wording_opened _ := rfl
  wording_resolved _ := rfl
  matching _ := ⟨fun _ => rfl, fun _ => rfl, rfl, rfl⟩
  named c observations h o ho := by
    obtain ⟨serial, items, rfl⟩ := mem_observations h ho
    rfl
  merged c observations h o ho e := by
    obtain ⟨serial, items, rfl⟩ := mem_observations h ho
    change (mergeUnobservedItems host _ _ e).scopeKey = _
    unfold mergeUnobservedItems
    split_ifs <;> rfl
  merged_kind _ _ _ := rfl
  events_ne := by decide

theorem readable_service {host : Js.Host} (hhex : host.HexDigests) : (service host).Readable := by
  have hchars : ∀ x : TransitionEventItem Kind, (identity x).toList =
      x.fingerprint.toList ++ ':' :: (toString x.episode).toList := by
    intro x
    unfold identity
    simp only [String.toList_append, List.append_assoc]
    rfl
  have htypes : ':' ∉ VENDING_LOW_STOCK_ISSUES_OPENED_EVENT.toList ∧
      ':' ∉ VENDING_LOW_STOCK_ISSUES_RESOLVED_EVENT.toList := by decide
  refine ⟨htypes, fun _ s => Service.plain_digest hhex _, fun x hbar => ?_, fun x y hx hy hsame => ?_⟩
  · change '|' ∉ (identity x).toList
    rw [hchars]
    exact Service.bar_notMem_episode hbar _
  · have hlist := congrArg String.toList hsame
    change (identity x).toList = (identity y).toList at hlist
    rw [hchars, hchars] at hlist
    refine ⟨?_, Service.episode_inj hx hy hlist⟩
    cases x.kind
    cases y.kind
    rfl

/-- The coverage of a call lists the machine as out of service, as authoritative. -/
def isInactive (host : Js.Host) (c : LowStockIssueCall) (scope : String) : Prop :=
  scope ∈ serialSet host (normalizedCoverage host c.coverage).inactiveSerials

def isAuthoritative (host : Js.Host) (c : LowStockIssueCall) (scope : String) : Prop :=
  scope ∈ serialSet host (normalizedCoverage host c.coverage).authoritativeSerials

/-- What a call does to the issues. -/
structure CallLaw (host : Js.Host) (d : Desk Kind) (c : LowStockIssueCall) (d' : Desk Kind) : Prop where
  closed : ∀ i ∈ d.issues, ∀ i' ∈ d'.issues, i'.id = i.id → i.status = .open → i'.status = .resolved →
    isInactive host c i.scopeKey ∨
      isAuthoritative host c i.scopeKey ∧ ∀ input ∈ c.items, lowStockIssueScope host input.serial ≠ i.scopeKey
  remembered : ∀ i ∈ d.issues, ∀ i' ∈ d'.issues, i'.id = i.id → i.status = .open → i'.status = .open →
    ∀ key ∈ (itemsFromPayload i.payload).map LowStockIssueItem.productKey,
      key ∈ (itemsFromPayload i'.payload).map LowStockIssueItem.productKey ∨ isAuthoritative host c i.scopeKey

section
variable {host : Js.Host} {d : Desk Kind} {c : LowStockIssueCall}

theorem callLaw (hs : (service host).Sound d) : CallLaw host d c ((service host).step d c) := by
  refine ⟨fun i hi i' hi' hid hopen hclosed => ?_, fun i hi i' hi' hid hopen _ key hkey => ?_⟩
  · obtain ⟨observations, hobserve, hfree, e, r, hread, hverdict⟩ := Service.closed_of_step hs hi hi' hid hopen hclosed
    by_cases hinactive : isInactive host c i.scopeKey
    · exact .inl hinactive
    · have hv : (if e.scopeKey ∈ serialSet host (normalizedCoverage host c.coverage).inactiveSerials then
          some Reason.inactive
        else if e.scopeKey ∈ serialSet host (normalizedCoverage host c.coverage).authoritativeSerials then some .healthy
        else none) = some r := hverdict
      unfold isInactive at hinactive
      rw [hread.scopeKey, if_neg hinactive] at hv
      split_ifs at hv with hauthoritative
      refine .inr ⟨hauthoritative, fun input hinput hscope => ?_⟩
      -- the machine would have been observed under the fingerprint of the issue
      obtain ⟨o, ho, hos⟩ := exists_observation hobserve hinput
      have hkey : o.scopeKey = i.scopeKey := hos.trans hscope
      refine hfree o ho ?_ ⟨rfl, ?_⟩
      · change decide (o.scopeKey ∉ serialSet host (normalizedCoverage host c.coverage).inactiveSerials) = true
        rw [hkey]
        exact decide_eq_true hinactive
      · rw [(service host).named c observations hobserve o ho, hs.named i hi, hkey]
  · by_cases hauthoritative : isAuthoritative host c i.scopeKey
    · exact .inr hauthoritative
    · refine .inl ?_
      rcases Service.payload_of_step hs hi hi' hid with hsame | ⟨observations, _, o, _, e, hread, _, hpayload⟩
      · rwa [hsame]
      · rw [hpayload]
        refine mem_mergeUnobservedItems ?_ (hread.status.trans hopen) (hread.payload ▸ hkey)
        rw [hread.scopeKey]
        exact hauthoritative

/-- The life cycle of the issues at a state that a run reaches. -/
structure LowStockLaw (host : Js.Host) (steps : List (Step (Desk Kind) (Act LowStockIssueCall))) (d : Desk Kind) :
    Prop where
  oneEach : (service host).OneEach d
  late : ∀ c : LowStockIssueCall, (∃ t ∈ (steps.filterMap (service host).acceptedAt).getLast?, c.now ≤ t) →
    (service host).step d c = d
  call : ∀ c, CallLaw host d c ((service host).step d c)
  plan : ∀ observations existing coverage, (existing.map fun e : ExistingLowStockIssue => (e.kind, e.fingerprint)).Nodup →
    PlanLaw (mergeUnobservedItems host (serialSet host coverage.authoritativeSerials))
      (observations.filter (active host coverage)) existing (planLowStockIssues host observations existing coverage)

theorem lowStockLaw_of_run {d₀ : Desk Kind} {steps : List (Step (Desk Kind) (Act LowStockIssueCall))}
    (h : Run (service host).Next d₀ steps d) (hfresh : (service host).Fresh d₀) : LowStockLaw host steps d := by
  have hs := Service.sound_of_run h hfresh
  refine ⟨hs.oneEach, fun c => Service.late_of_run h hfresh, fun c => callLaw hs,
    fun observations existing coverage hrecords => ?_⟩
  have hmatches : Matches (rules host coverage) := ⟨fun _ => rfl, fun _ => rfl, rfl, rfl⟩
  exact planLaw hmatches hrecords

/-- Every opening, reopening and resolving of an issue is announced, by one call and by one event. -/
theorem low_stock_announced_once {d₀ : Desk Kind} {steps : List (Step (Desk Kind) (Act LowStockIssueCall))}
    (hhex : host.HexDigests) (h : Run (service host).Next d₀ steps d) (hfresh : (service host).Fresh d₀)
    (hdigest : Set.InjOn host.sha256 ((service host).digested steps)) : (service host).AnnouncedOnce steps d :=
  Service.announcedOnce_of_run (readable_service hhex) h hfresh hdigest

end

/-! A machine that runs low, is refilled and is seen to be full. -/

def emptyDesk : Desk Kind := ⟨[], [], [], none⟩

def scan (items : List LowStockIssueInput) (authoritative : List String) (now : ℤ) : LowStockIssueCall where
  items
  coverage := ⟨authoritative, []⟩
  registry := ⟨fun _ => none, fun _ => none⟩
  ids := ⟨fun _ f => f, fun _ f => f⟩
  now
  occurredAt := now

def refillRun : List (Step (Desk Kind) (Act LowStockIssueCall)) × Desk Kind :=
  (service hexHost).callSteps emptyDesk [scan [⟨"m1", "cola", "", some 1, some 10⟩] [] 1000, scan [] ["m1"] 2000]

theorem lowStockLaw_refillRun : (refillRun.2.issues.map fun i => (i.status, i.episode)) = [(.resolved, 1)] ∧
    LowStockLaw hexHost refillRun.1 refillRun.2 := by
  refine ⟨by decide +kernel, lowStockLaw_of_run (Service.run_callSteps emptyDesk _)
    ⟨rfl, rfl, List.nodup_nil, ?_, ?_⟩⟩
  · exact List.forall_mem_nil _
  · exact List.forall_mem_nil _

theorem low_stock_announced_once_hexRun : refillRun.2.events.map (·.type) =
      [VENDING_LOW_STOCK_ISSUES_OPENED_EVENT, VENDING_LOW_STOCK_ISSUES_RESOLVED_EVENT] ∧
    (service hexHost).AnnouncedOnce refillRun.1 refillRun.2 := by
  refine ⟨by decide +kernel, low_stock_announced_once hexDigits_hexHost (Service.run_callSteps emptyDesk _)
    ⟨rfl, rfl, List.nodup_nil, ?_, ?_⟩ Parity.hexText_injective.injOn⟩
  · exact List.forall_mem_nil _
  · exact List.forall_mem_nil _

end Mydon.Issues.LowStock
