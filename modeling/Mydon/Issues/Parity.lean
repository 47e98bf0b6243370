import Mydon.Issues.Events
import Mydon.Vending.Slots

/-! Discrepancies between the machines' own figures and the donor's, kept as one issue and one task
for each kind, machine and day. -/

namespace Mydon.Issues.Parity

open Mydon.Lib
open Js (Json HttpError)
open Lib.Matching (Plan Rules)
open Vending (normalizeMachineSerial normalizeProductName)

inductive ParityIssueKind
  | sales
  | stock
  deriving DecidableEq

def PARITY_SALES_ISSUE_KIND : String := "ourvend.parity.sales"

def PARITY_STOCK_ISSUE_KIND : String := "ourvend.parity.stock"

def ParityIssueKind.text : ParityIssueKind → String
  | .sales => PARITY_SALES_ISSUE_KIND
  | .stock => PARITY_STOCK_ISSUE_KIND

def PARITY_ISSUE_SOURCE : String := "ourvend-parity-issue"

def PARITY_ISSUES_OPENED_EVENT : String := "ourvend.parity_issues.opened"

def PARITY_ISSUES_RESOLVED_EVENT : String := "ourvend.parity_issues.resolved"

structure ParityMismatch where
  dt : String
  serial : String
  ownQty : ℚ
  stockQty : ℚ
  ownAmount : ℚ
  stockAmount : ℚ
  reason : String
  deriving DecidableEq

structure ParityStockMismatch where
  dt : String
  serial : String
  product : String
  own : ℚ
  stock : ℚ
  reason : String
  deriving DecidableEq

structure ParityCoverage where
  salesScopes : List String
  stockScopes : List String
  deriving DecidableEq

structure ParityIssueReport where
  mismatches : List ParityMismatch
  stockMismatches : List ParityStockMismatch
  coverage : ParityCoverage
  deriving DecidableEq

structure ParityIssueItem where
  coverageKey : String
  product : Option String
  ownQty : ℚ
  donorQty : ℚ
  ownAmount : Option ℚ
  donorAmount : Option ℚ
  reason : String
  deriving DecidableEq

abbrev ParityIssueObservation := Observation ParityIssueKind ParityIssueItem

abbrev ExistingParityIssue := ExistingIssue ParityIssueKind

abbrev ParityIssuePlan := Plan ParityIssueObservation ExistingParityIssue Unit

section
variable (host : Js.Host)

/-! Identity. -/

def parityIssueScope (dt serial : String) : String := s!"{dt}|{normalizeMachineSerial host serial}"

def parityStockIssueScope (dt serial product : String) : String :=
  s!"{parityIssueScope host dt serial}|{normalizeProductName host product}"

def parityIssueFingerprint (kind : ParityIssueKind) (exactIdentity : String) : String :=
  host.sha256 s!"{kind.text}|{exactIdentity}"

/-! Observations. -/

def optionJson (n : Option ℚ) : Json := (n.map Json.num).getD .null

def itemJson (item : ParityIssueItem) : Json :=
  .obj [("coverageKey", .str item.coverageKey), ("product", (item.product.map Json.str).getD .null),
    ("ownQty", .num item.ownQty), ("donorQty", .num item.donorQty), ("ownAmount", optionJson item.ownAmount),
    ("donorAmount", optionJson item.donorAmount), ("reason", .str item.reason)]

def readItem (value : Json) : Option ParityIssueItem := do
  let coverageKey ← (value.get? "coverageKey").bind Json.asString
  let ownQty ← (value.get? "ownQty").bind Json.asNumber
  let donorQty ← (value.get? "donorQty").bind Json.asNumber
  let reason ← (value.get? "reason").bind Json.asString
  return {
    coverageKey
    product := (value.get? "product").bind Json.asString
    ownQty
    donorQty
    ownAmount := (value.get? "ownAmount").bind Json.asNumber
    donorAmount := (value.get? "donorAmount").bind Json.asNumber
    reason }

def stockItemsFromPayload (payload : Json) : List ParityIssueItem := payloadItems readItem payload

def surface : ParityIssueKind → String
  | .sales => "sales"
  | .stock => "stock"

def payloadOf (kind : ParityIssueKind) (scopeDate serial : String) (items : List ParityIssueItem) : Json :=
  .obj [("surface", .str (surface kind)), ("dt", .str scopeDate), ("serial", .str serial),
    ("items", .arr (items.map itemJson))]

def sortItems (items : List ParityIssueItem) : List ParityIssueItem :=
  items.insertionSort fun a b => host.localeCompare a.coverageKey b.coverageKey ≤ 0

/-- An observation but for its items. -/
structure Base where
  kind : ParityIssueKind
  fingerprint : String
  scopeDate : String
  scopeKey : String
  serial : String

def observationWithItems (base : Base) (items : List ParityIssueItem) : ParityIssueObservation where
  kind := base.kind
  fingerprint := base.fingerprint
  scopeDate := base.scopeDate
  scopeKey := base.scopeKey
  serial := base.serial
  items := sortItems host items
  payload := payloadOf base.kind base.scopeDate base.serial (sortItems host items)

/-- The identity of a machine's day, with the canonical serial. -/
def baseOf (kind : ParityIssueKind) (dt serial : String) : Base where
  kind
  fingerprint := parityIssueFingerprint host kind (parityIssueScope host dt serial)
  scopeDate := dt
  scopeKey := parityIssueScope host dt serial
  serial

abbrev ByKey := List ((ParityIssueKind × String) × ParityIssueObservation)

/-- `byKey.set(observationKey(observation), observation)`: a kind holds no bar, so that the text of
kind and fingerprint is their pair. -/
def setObservation (m : ByKey) (o : ParityIssueObservation) : ByKey :=
  OrderedMap.alter (fun _ => o) (o.kind, o.fingerprint) m

def salesObservation (mismatch : ParityMismatch) : ParityIssueObservation :=
  let base := baseOf host .sales mismatch.dt (normalizeMachineSerial host mismatch.serial)
  observationWithItems host base [{
    coverageKey := base.scopeKey
    product := none
    ownQty := mismatch.ownQty
    donorQty := mismatch.stockQty
    ownAmount := some mismatch.ownAmount
    donorAmount := some mismatch.stockAmount
    reason := mismatch.reason }]

structure StockGroup where
  base : Base
  items : List (String × ParityIssueItem)

def addStock (groups : List (String × StockGroup)) (mismatch : ParityStockMismatch) : List (String × StockGroup) :=
  let serial := normalizeMachineSerial host mismatch.serial
  let product := Js.trim mismatch.product
  let machineScope := parityIssueScope host mismatch.dt serial
  let coverageKey := parityStockIssueScope host mismatch.dt serial product
  let item : ParityIssueItem := {
    coverageKey
    product := some product
    ownQty := mismatch.own
    donorQty := mismatch.stock
    ownAmount := none
    donorAmount := none
    reason := mismatch.reason }
  OrderedMap.alter (fun group =>
      let group := group.getD ⟨baseOf host .stock mismatch.dt serial, []⟩
      { group with items := OrderedMap.alter (fun _ => item) coverageKey group.items })
    s!"{PARITY_STOCK_ISSUE_KIND}|{machineScope}" groups

def stockObservation (group : StockGroup) : ParityIssueObservation :=
  observationWithItems host group.base (group.items.map Prod.snd)

def keyText (key : ParityIssueKind × String) : String := s!"{key.1.text}|{key.2}"

/-- One observation for each fact of the sales, and one for all products of a machine's day. -/
def parityIssueObservations (report : ParityIssueReport) : List ParityIssueObservation :=
  let sales := (report.mismatches.map (salesObservation host)).foldl setObservation []
  let groups := report.stockMismatches.foldl (addStock host) []
  let all := (groups.map fun g => stockObservation host g.2).foldl setObservation sales
  (all.map Prod.snd).insertionSort fun a b =>
    host.localeCompare (keyText (a.kind, a.fingerprint)) (keyText (b.kind, b.fingerprint)) ≤ 0

/-! The planner. -/

def mergeUnobservedStockItems (stockCoverage : List String) (o : ParityIssueObservation) (issue : ExistingParityIssue) :
    ParityIssueObservation :=
  if o.kind ≠ .stock ∨ issue.status ≠ .open then o
  else if issue.scopeKey ∈ stockCoverage then o
  else
    observationWithItems host ⟨o.kind, o.fingerprint, o.scopeDate, o.scopeKey, o.serial⟩
      (Matching.remember ParityIssueItem.coverageKey o.items (stockItemsFromPayload issue.payload))

/-- The coverage that decides on an issue of this kind. -/
def ParityCoverage.scopes (coverage : ParityCoverage) : ParityIssueKind → List String
  | .sales => coverage.salesScopes
  | .stock => coverage.stockScopes

def rules (coverage : ParityCoverage) :
    Rules (ParityIssueKind × String) ParityIssueObservation ExistingParityIssue Unit where
  keyOf o := (o.kind, o.fingerprint)
  recordKey i := (i.kind, i.fingerprint)
  le a b := host.localeCompare (keyText a) (keyText b) ≤ 0
  merge := mergeUnobservedStockItems host coverage.stockScopes
  isOpen := ExistingIssue.isOpen
  isOver := ExistingIssue.isOver
  verdict i := if i.scopeKey ∈ coverage.scopes i.kind then some () else none

def planParityIssues (observations : List ParityIssueObservation) (existing : List ExistingParityIssue)
    (coverage : ParityCoverage) : ParityIssuePlan :=
  (rules host coverage).plan observations existing

/-! The service. -/

def stockItemText (item : ParityIssueItem) : String :=
  let product := match item.product with
    | none => "товар"
    | some product => if product = "" then "товар" else product
  s!"{product} — {host.numberText item.ownQty} / {host.numberText item.donorQty} шт ({item.reason})"

def taskPresentation (registry : MachineIndex) (o : ParityIssueObservation) : Presentation :=
  let machine := (registry.nameBySerial o.serial).getD o.serial
  match o.kind, o.items with
  -- an observation of the sales has its fact
  | .sales, item :: _ =>
    { title := s!"Исправить продажи OurVend: {machine}, {o.scopeDate}"
      description := s!"Сверка MYDON с mydon-stock за {o.scopeDate}. " ++
        s!"Продано: {host.numberText item.ownQty} / {host.numberText item.donorQty} шт; " ++
        s!"сумма: {host.numberText (item.ownAmount.getD 0)} / {host.numberText (item.donorAmount.getD 0)}. " ++
        s!"Причина: {item.reason}. Задача закроется сама после совпадения данных."
      entityId := registry.firstIdBySerial o.serial }
  | _, items =>
    let shown := (items.take 20).map (stockItemText host)
    let omitted := items.length - shown.length
    { title := s!"Исправить остатки OurVend: {machine}, {o.scopeDate} ({items.length})"
      description := s!"Сверка MYDON с mydon-stock за {o.scopeDate}. " ++
        "Позиции: " ++ String.intercalate "; " shown ++ (if 0 < omitted then s!"; и ещё {omitted}." else ".") ++
        " Задача закроется сама, когда полные снапшоты этого автомата за день снова совпадут."
      entityId := registry.firstIdBySerial o.serial }

def resultNote (_ : Unit) : String :=
  "Расхождение больше не воспроизводится в авторитетной сверке — закрыто автоматически."

def identity (item : TransitionEventItem ParityIssueKind) : String :=
  s!"{item.kind.text}:{item.fingerprint}:{item.episode}"

def itemBefore (a b : TransitionEventItem ParityIssueKind) : Bool :=
  let byKind := host.localeCompare a.kind.text b.kind.text
  if byKind ≠ 0 then byKind ≤ 0 else host.localeCompare a.fingerprint b.fingerprint ≤ 0

def wording (registry : MachineIndex) : Wording ParityIssueKind ParityIssueItem Unit where
  source := PARITY_ISSUE_SOURCE
  openedEvent := PARITY_ISSUES_OPENED_EVENT
  resolvedEvent := PARITY_ISSUES_RESOLVED_EVENT
  present := taskPresentation host registry
  clientKey o := s!"{PARITY_ISSUE_SOURCE}:{o.kind.text}:{o.fingerprint}"
  keptKey _ key := key
  reopenOwner _ := none
  resultNote
  identity
  itemJson item := .obj [("title", .str item.title), ("taskId", .str item.taskId), ("kind", .str item.kind.text)]
  itemLE := itemBefore host

end

/-- A report with what the call reads beside it. -/
structure ParityIssueCall where
  report : ParityIssueReport
  registry : MachineIndex
  ids : NewIds ParityIssueKind
  now : ℤ

/-- Open issues, and those whose fingerprint is observed again. -/
def relevant (observations : List ParityIssueObservation) (i : IssueRow ParityIssueKind) : Bool :=
  i.status = .open || observations.any (·.fingerprint = i.fingerprint)

/-! What the observations are. -/

section
variable {host : Js.Host} {report : ParityIssueReport}

/-- The stock groups of a report. -/
def stockGroups (host : Js.Host) (report : ParityIssueReport) : List (String × StockGroup) :=
  report.stockMismatches.foldl (addStock host) []

/-- The observations are the last ones of each identity. -/
theorem mem_observations_iff {o : ParityIssueObservation} : o ∈ parityIssueObservations host report ↔
    o ∈ Matching.values (Matching.byKey (fun o : ParityIssueObservation => (o.kind, o.fingerprint))
      (report.mismatches.map (salesObservation host) ++ (stockGroups host report).map fun g => stockObservation host g.2)) := by
  unfold parityIssueObservations Matching.byKey Matching.values
  rw [List.mem_insertionSort, List.foldl_append]
  rfl

/-- An observation made for a machine's day. -/
def Made (host : Js.Host) (o : ParityIssueObservation) : Prop :=
  ∃ kind dt serial items, o = observationWithItems host (baseOf host kind dt serial) items

/-- Every group is kept under the scope that its observation has. -/
theorem stockGroup_eq {g : String × StockGroup} (hg : g ∈ stockGroups host report) :
    (∃ dt serial, g.2.base = baseOf host .stock dt serial) ∧ g.1 = s!"{PARITY_STOCK_ISSUE_KIND}|{g.2.base.scopeKey}" := by
  suffices h : ∀ (mismatches : List ParityStockMismatch) (groups : List (String × StockGroup)),
      (∀ g ∈ groups, (∃ dt serial, g.2.base = baseOf host .stock dt serial) ∧
        g.1 = s!"{PARITY_STOCK_ISSUE_KIND}|{g.2.base.scopeKey}") →
      ∀ g ∈ mismatches.foldl (addStock host) groups, (∃ dt serial, g.2.base = baseOf host .stock dt serial) ∧
        g.1 = s!"{PARITY_STOCK_ISSUE_KIND}|{g.2.base.scopeKey}" from h _ [] (List.forall_mem_nil _) g hg
  intro mismatches
  induction mismatches with
  | nil => exact fun groups hgroups => hgroups
  | cons mismatch mismatches ih =>
    intro groups hgroups
    refine ih _ fun g hg => ?_
    unfold addStock at hg
    rcases Matching.mem_alter_of hg with hold | ⟨hkey, hvalue⟩
    · exact hgroups g hold
    · rcases hget : OrderedMap.get groups
          s!"{PARITY_STOCK_ISSUE_KIND}|{parityIssueScope host mismatch.dt (normalizeMachineSerial host mismatch.serial)}"
        with _ | old
      · rw [hget] at hvalue
        rw [hkey, hvalue]
        exact ⟨⟨_, _, rfl⟩, rfl⟩
      · have hold := hgroups _ (OrderedMap.mem_of_get hget)
        rw [hget] at hvalue
        rw [hkey, hvalue]
        exact hold

theorem exists_stockGroup {mismatch : ParityStockMismatch} (hm : mismatch ∈ report.stockMismatches) :
    ∃ g ∈ stockGroups host report,
      g.1 = s!"{PARITY_STOCK_ISSUE_KIND}|{parityIssueScope host mismatch.dt (normalizeMachineSerial host mismatch.serial)}" := by
  suffices h : ∀ (mismatches : List ParityStockMismatch) (groups : List (String × StockGroup)),
      (∀ m ∈ mismatches, s!"{PARITY_STOCK_ISSUE_KIND}|{parityIssueScope host m.dt (normalizeMachineSerial host m.serial)}" ∈
        OrderedMap.keys (mismatches.foldl (addStock host) groups)) ∧
      ∀ k ∈ OrderedMap.keys groups, k ∈ OrderedMap.keys (mismatches.foldl (addStock host) groups) from
    List.mem_map.mp ((h report.stockMismatches []).1 mismatch hm)
  intro mismatches
  induction mismatches with
  | nil => exact fun groups => ⟨List.forall_mem_nil _, fun k hk => hk⟩
  | cons m mismatches ih =>
    intro groups
    have hkeys : s!"{PARITY_STOCK_ISSUE_KIND}|{parityIssueScope host m.dt (normalizeMachineSerial host m.serial)}" ∈
        OrderedMap.keys (addStock host groups m) ∧
        ∀ k ∈ OrderedMap.keys groups, k ∈ OrderedMap.keys (addStock host groups m) := by
      unfold addStock
      rw [OrderedMap.keys_alter]
      split_ifs with hmem
      · exact ⟨hmem, fun k hk => hk⟩
      · exact ⟨List.mem_append_right _ (List.mem_singleton_self _), fun k hk => List.mem_append_left _ hk⟩
    obtain ⟨hrest, hkept⟩ := ih (addStock host groups m)
    exact ⟨List.forall_mem_cons.mpr ⟨hkept _ hkeys.1, hrest⟩, fun k hk => hkept k (hkeys.2 k hk)⟩

theorem made_of_mem {o : ParityIssueObservation} (ho : o ∈ parityIssueObservations host report) : Made host o := by
  obtain ⟨e, he, rfl⟩ := List.mem_map.mp (mem_observations_iff.mp ho)
  obtain ⟨_, hmem⟩ := Matching.mem_byKey he
  rcases List.mem_append.mp hmem with hmem | hmem
  · obtain ⟨mismatch, _, hm⟩ := List.mem_map.mp hmem
    rw [← hm]
    exact ⟨_, _, _, _, rfl⟩
  · obtain ⟨g, hg, hgo⟩ := List.mem_map.mp hmem
    obtain ⟨⟨dt, serial, hbase⟩, _⟩ := stockGroup_eq hg
    rw [← hgo]
    unfold stockObservation
    rw [hbase]
    exact ⟨_, _, _, _, rfl⟩

/-- The report observes a machine's day. -/
def observes (host : Js.Host) (report : ParityIssueReport) (scopeKey : String) : ParityIssueKind → Prop
  | .sales => ∃ m ∈ report.mismatches, parityIssueScope host m.dt (normalizeMachineSerial host m.serial) = scopeKey
  | .stock => ∃ m ∈ report.stockMismatches, parityIssueScope host m.dt (normalizeMachineSerial host m.serial) = scopeKey

/-- What the report observes is among the observations, under its identity. -/
theorem exists_observation {kind : ParityIssueKind} {scopeKey : String} (h : observes host report scopeKey kind) :
    ∃ o ∈ parityIssueObservations host report, o.kind = kind ∧ o.fingerprint = parityIssueFingerprint host kind scopeKey := by
  have hmade : ∃ o ∈ report.mismatches.map (salesObservation host) ++
      (stockGroups host report).map (fun g => stockObservation host g.2),
      o.kind = kind ∧ o.fingerprint = parityIssueFingerprint host kind scopeKey := by
    rcases kind with _ | _
    · obtain ⟨m, hm, rfl⟩ := h
      exact ⟨_, List.mem_append_left _ (List.mem_map_of_mem hm), rfl, rfl⟩
    · obtain ⟨m, hm, rfl⟩ := h
      obtain ⟨g, hg, hgm⟩ := exists_stockGroup hm
      obtain ⟨⟨dt, serial, hbase⟩, hkey⟩ := stockGroup_eq hg
      have hscope : g.2.base.scopeKey = parityIssueScope host m.dt (normalizeMachineSerial host m.serial) := by
        have hchars := congrArg String.toList (hkey.symm.trans hgm)
        simp only [String.toList_append, List.append_assoc, List.append_cancel_left_eq] at hchars
        exact String.ext hchars
      refine ⟨_, List.mem_append_right _ (List.mem_map_of_mem hg), ?_, ?_⟩
      · exact (congrArg Base.kind hbase)
      · rw [← hscope]
        change g.2.base.fingerprint = _
        rw [hbase]
        rfl
  obtain ⟨o, ho, hkind, hfingerprint⟩ := hmade
  have hkeys : (o.kind, o.fingerprint) ∈ OrderedMap.keys (Matching.byKey (fun o : ParityIssueObservation =>
    (o.kind, o.fingerprint)) (report.mismatches.map (salesObservation host) ++
      (stockGroups host report).map fun g => stockObservation host g.2)) := Matching.mem_keys_byKey ho
  obtain ⟨e, he, hek⟩ := List.mem_map.mp hkeys
  obtain ⟨hkey, _⟩ := Matching.mem_byKey he
  rw [hkey, Prod.mk.injEq] at hek
  exact ⟨e.2, mem_observations_iff.mpr (List.mem_map_of_mem he), hek.1.trans hkind, hek.2.trans hfingerprint⟩

/-- What is written in a payload is read from it. -/
@[simp] theorem stockItemsFromPayload_payloadOf (kind : ParityIssueKind) (scopeDate serial : String)
    (items : List ParityIssueItem) : stockItemsFromPayload (payloadOf kind scopeDate serial items) = items := by
  have hread : ∀ item : ParityIssueItem, readItem (itemJson item) = some item := by
    rintro ⟨coverageKey, product, ownQty, donorQty, ownAmount, donorAmount, reason⟩
    rcases product with _ | product <;> rcases ownAmount with _ | ownAmount <;> rcases donorAmount with _ | donorAmount <;>
      rfl
  change (items.map itemJson).filterMap readItem = items
  rw [List.filterMap_map]
  exact (List.filterMap_congr fun item _ => hread item).trans List.filterMap_some

/-- A product that was recorded stays beside the observed ones, unless the stock of the scope is covered. -/
theorem mem_mergeUnobservedStockItems {stockCoverage : List String} {o : ParityIssueObservation}
    {issue : ExistingParityIssue} (hkind : o.kind = .stock) (hcovered : issue.scopeKey ∉ stockCoverage)
    (hopen : issue.status = .open) {key : String}
    (hkey : key ∈ (stockItemsFromPayload issue.payload).map ParityIssueItem.coverageKey) :
    key ∈ (stockItemsFromPayload (mergeUnobservedStockItems host stockCoverage o issue).payload).map
      ParityIssueItem.coverageKey := by
  unfold mergeUnobservedStockItems
  rw [if_neg (by simp [hkind, hopen]), if_neg hcovered]
  unfold observationWithItems
  rw [stockItemsFromPayload_payloadOf]
  have hmem : key ∈ (Matching.remember ParityIssueItem.coverageKey o.items (stockItemsFromPayload issue.payload)).map
      ParityIssueItem.coverageKey := Matching.mem_map_remember.mpr (.inr hkey)
  obtain ⟨item, hitem, rfl⟩ := List.mem_map.mp hmem
  exact List.mem_map_of_mem ((List.mem_insertionSort _).mpr hitem)

end

/-! The service. -/

def service (host : Js.Host) : Service ParityIssueKind ParityIssueItem Unit ParityIssueCall where
  host
  source := PARITY_ISSUE_SOURCE
  identity
  openedEvent := PARITY_ISSUES_OPENED_EVENT
  resolvedEvent := PARITY_ISSUES_RESOLVED_EVENT
  fingerprint := parityIssueFingerprint host
  reserved source := source = PARITY_ISSUE_SOURCE
  wording c := wording host c.registry
  rules c := rules host c.report.coverage
  observe c := .ok (parityIssueObservations host c.report)
  active _ _ := true
  relevant
  ids c := c.ids
  now c := c.now
  occurredAt c := c.now
  reserved_source := rfl
  wording_source _ := rfl
  wording_identity _ := rfl
  wording_opened _ := rfl
  wording_resolved _ := rfl
  matching _ := ⟨fun _ => rfl, fun _ => rfl, rfl, rfl⟩
  named c observations h o ho := by
    cases h
    obtain ⟨kind, dt, serial, items, rfl⟩ := made_of_mem ho
    rfl
  merged c observations _ o _ e := by
    change (mergeUnobservedStockItems host _ o e).scopeKey = _
    unfold mergeUnobservedStockItems
    split_ifs <;> rfl
  merged_kind c o e := by
    change (mergeUnobservedStockItems host _ o e).kind = _
    unfold mergeUnobservedStockItems
    split_ifs <;> rfl
  events_ne := by decide

theorem readable_service {host : Js.Host} (hhex : host.HexDigests) : (service host).Readable := by
  have hkind : ∀ k : ParityIssueKind, ':' ∉ k.text.toList ∧ '|' ∉ k.text.toList := by
    rintro (_ | _) <;> decide
  have hchars : ∀ x : TransitionEventItem ParityIssueKind, (identity x).toList =
      x.kind.text.toList ++ ':' :: (x.fingerprint.toList ++ ':' :: (toString x.episode).toList) := by
    intro x
    unfold identity
    simp only [String.toList_append, List.append_assoc]
    rfl
  have htypes : ':' ∉ PARITY_ISSUES_OPENED_EVENT.toList ∧ ':' ∉ PARITY_ISSUES_RESOLVED_EVENT.toList := by decide
  refine ⟨htypes, fun k s => Service.plain_digest hhex _, fun x hbar => ?_, fun x y hx hy hsame => ?_⟩
  · change '|' ∉ (identity x).toList
    rw [hchars, List.mem_append, List.mem_cons, not_or, not_or]
    exact ⟨(hkind _).2, by decide, Service.bar_notMem_episode hbar _⟩
  · have hlist := congrArg String.toList hsame
    change (identity x).toList = (identity y).toList at hlist
    rw [hchars, hchars] at hlist
    obtain ⟨hk, hrest⟩ := Js.cut_inj (hkind _).1 (hkind _).1 hlist
    refine ⟨?_, Service.episode_inj hx hy hrest⟩
    rcases hxk : x.kind with _ | _ <;> rcases hyk : y.kind with _ | _
    · rfl
    · rw [hxk, hyk] at hk
      exact absurd hk (by decide)
    · rw [hxk, hyk] at hk
      exact absurd hk (by decide)
    · rfl

/-- What a call does to the issues. -/
structure CallLaw (host : Js.Host) (d : Desk ParityIssueKind) (c : ParityIssueCall) (d' : Desk ParityIssueKind) :
    Prop where
  resolved : ∀ i ∈ d.issues, ∀ i' ∈ d'.issues, i'.id = i.id → i.status = .open → i'.status = .resolved →
    i.scopeKey ∈ c.report.coverage.scopes i.kind ∧ ¬ observes host c.report i.scopeKey i.kind
  remembered : ∀ i ∈ d.issues, ∀ i' ∈ d'.issues, i'.id = i.id → i.kind = .stock → i.status = .open → i'.status = .open →
    ∀ key ∈ (stockItemsFromPayload i.payload).map ParityIssueItem.coverageKey,
      key ∈ (stockItemsFromPayload i'.payload).map ParityIssueItem.coverageKey ∨ i.scopeKey ∈ c.report.coverage.stockScopes
  episode : ∀ i ∈ d.issues, ∀ i' ∈ d'.issues, i'.id = i.id →
    (Service.Reopened d d' i i' → i'.episode = i.episode + 1) ∧ (¬ Service.Reopened d d' i i' → i'.episode = i.episode)

section
variable {host : Js.Host} {d : Desk ParityIssueKind} {c : ParityIssueCall}

theorem callLaw (hs : (service host).Sound d) : CallLaw host d c ((service host).step d c) := by
  refine ⟨fun i hi i' hi' hid hopen hclosed => ?_, fun i hi i' hi' hid hkind hopen _ key hkey => ?_,
    fun i hi i' hi' hid => Service.episode_of_step hs hi hi' hid⟩
  · obtain ⟨observations, hobserve, hfree, e, r, hread, hverdict⟩ := Service.closed_of_step hs hi hi' hid hopen hclosed
    have hv : (if e.scopeKey ∈ c.report.coverage.scopes e.kind then some () else none) = some r := hverdict
    rw [hread.scopeKey, hread.kind] at hv
    split_ifs at hv with hcovered
    refine ⟨hcovered, fun hobserves => ?_⟩
    obtain ⟨o, ho, hokind, hofingerprint⟩ := exists_observation hobserves
    cases hobserve
    refine hfree o ho rfl ⟨hokind, ?_⟩
    rw [hofingerprint, hs.named i hi]
    rfl
  · by_cases hcovered : i.scopeKey ∈ c.report.coverage.stockScopes
    · exact .inr hcovered
    · refine .inl ?_
      rcases Service.payload_of_step hs hi hi' hid with hsame | ⟨observations, _, o, _, e, hread, hokind, hpayload⟩
      · rwa [hsame]
      · rw [hpayload]
        refine mem_mergeUnobservedStockItems (hokind.trans hkind) ?_ (hread.status.trans hopen) (hread.payload ▸ hkey)
        rw [hread.scopeKey]
        exact hcovered

/-- The life cycle of the issues at a state that a run reaches, and the events of the run. -/
structure ParityLaw (host : Js.Host) (steps : List (Step (Desk ParityIssueKind) (Act ParityIssueCall)))
    (d : Desk ParityIssueKind) : Prop where
  oneEach : (service host).OneEach d
  late : ∀ c : ParityIssueCall, (∃ t ∈ (steps.filterMap (service host).acceptedAt).getLast?, c.now ≤ t) →
    (service host).step d c = d
  plan : ∀ observations existing coverage, (existing.map fun e : ExistingParityIssue => (e.kind, e.fingerprint)).Nodup →
    PlanLaw (mergeUnobservedStockItems host coverage.stockScopes) observations existing
      (planParityIssues host observations existing coverage) ∧
    (∀ x ∈ (planParityIssues host observations existing coverage).resolve, x.1.scopeKey ∈ coverage.scopes x.1.kind) ∧
    ∀ e ∈ (planParityIssues host observations existing coverage).retained, e.scopeKey ∉ coverage.scopes e.kind
  call : ∀ c, CallLaw host d c ((service host).step d c)
  announced : (service host).AnnouncedOnce steps d

/-- Two texts that a run digests are assumed to have different digests. -/
theorem parityLaw_of_run {d₀ : Desk ParityIssueKind} {steps : List (Step (Desk ParityIssueKind) (Act ParityIssueCall))}
    (hhex : host.HexDigests) (h : Run (service host).Next d₀ steps d) (hfresh : (service host).Fresh d₀)
    (hdigest : Set.InjOn host.sha256 ((service host).digested steps)) : ParityLaw host steps d := by
  have hs := Service.sound_of_run h hfresh
  refine ⟨hs.oneEach, fun c => Service.late_of_run h hfresh, fun observations existing coverage hrecords => ?_, fun c => callLaw hs,
    Service.announcedOnce_of_run (readable_service hhex) h hfresh hdigest⟩
  have hmatches : Matches (rules host coverage) := ⟨fun _ => rfl, fun _ => rfl, rfl, rfl⟩
  have hrecords' : (existing.map (rules host coverage).recordKey).Nodup := hrecords
  have hverdict : ∀ e : ExistingParityIssue, (rules host coverage).verdict e =
      if e.scopeKey ∈ coverage.scopes e.kind then some () else none := fun _ => rfl
  refine ⟨planLaw hmatches hrecords, fun x hx => ?_, fun e he => ?_⟩
  · obtain ⟨_, _, _, hv⟩ := (Rules.mem_resolve hrecords').mp hx
    rw [hverdict] at hv
    split_ifs at hv with hcovered
    exact hcovered
  · obtain ⟨_, _, _, hv⟩ := (Rules.mem_retained hrecords').mp he
    rw [hverdict] at hv
    split_ifs at hv with hcovered
    exact hcovered

end

/-! A machine's day that differs, agrees and differs again. -/

/-- Two hexadecimal digits for an ASCII character, seven for another one. -/
def hexChar (c : Char) : List Char :=
  if c.toNat < 128 then [Json.hexDigit (c.toNat / 16), Json.hexDigit (c.toNat % 16)]
  else '8' :: [0, 1, 2, 3, 4, 5].map fun k => Json.hexDigit (c.toNat / 16 ^ k % 16)

def hexText (s : String) : String := String.ofList (s.toList.flatMap hexChar)

theorem hexChar_append_inj {c d : Char} {xs ys : List Char} (h : hexChar c ++ xs = hexChar d ++ ys) : c = d ∧ xs = ys := by
  have hdigit : ∀ m < 16, ∀ n < 16, Json.hexDigit m = Json.hexDigit n → m = n := by decide +kernel
  have hmark : ∀ m < 8, Json.hexDigit m ≠ '8' := by decide
  have hbound : ∀ x : Char, x.toNat < 0x110000 := by
    intro x
    have hx : x.toNat.isValidChar := x.valid
    unfold Nat.isValidChar at hx
    omega
  have hc := hbound c
  have hd := hbound d
  rw [hexChar, hexChar] at h
  rw [← Char.toNat_inj]
  split_ifs at h with hc' hd' hd' <;>
    simp only [List.map_cons, List.map_nil, List.cons_append, List.nil_append, List.cons.injEq, true_and] at h
  · have hhigh := hdigit _ (by omega) _ (by omega) h.1
    have hlow := hdigit _ (by omega) _ (by omega) h.2.1
    exact ⟨by omega, h.2.2⟩
  · exact absurd h.1 (hmark _ (by omega))
  · exact absurd h.1.symm (hmark _ (by omega))
  · have hk : ∀ m n, Json.hexDigit (m % 16) = Json.hexDigit (n % 16) → m % 16 = n % 16 := fun m n =>
      hdigit _ (Nat.mod_lt _ (by decide)) _ (Nat.mod_lt _ (by decide))
    obtain ⟨h0, h1, h2, h3, h4, h5, hrest⟩ := h
    have := hk _ _ h0
    have := hk _ _ h1
    have := hk _ _ h2
    have := hk _ _ h3
    have := hk _ _ h4
    have := hk _ _ h5
    exact ⟨by omega, hrest⟩

theorem hexText_injective : Function.Injective hexText := by
  have hne : ∀ c, hexChar c ≠ [] := by
    intro c
    unfold hexChar
    split_ifs <;> simp
  intro s t h
  have hchars := String.ofList_inj.mp h
  rw [← String.toList_inj]
  generalize s.toList = cs, t.toList = ds at hchars
  induction cs generalizing ds with
  | nil => cases ds <;> simp_all
  | cons c cs ih =>
    cases ds with
    | nil => simp [hne] at hchars
    | cons d ds =>
      obtain ⟨rfl, hrest⟩ := hexChar_append_inj hchars
      rw [ih ds hrest]

def hexHost : Js.Host where
  toLowerCase := id
  number _ := none
  numberText n := toString n.num
  toFixed12 _ := ""
  localeCompare a b := if a < b then -1 else if a = b then 0 else 1
  sha256 := hexText

theorem hexDigits_hexHost : hexHost.HexDigests := by
  have hdigit : ∀ n < 16, '0' ≤ Json.hexDigit n ∧ Json.hexDigit n ≤ '9' ∨ 'a' ≤ Json.hexDigit n ∧ Json.hexDigit n ≤ 'f' := by
    decide
  intro s c hc
  change c ∈ (hexText s).toList at hc
  unfold hexText at hc
  rw [String.toList_ofList, List.mem_flatMap] at hc
  obtain ⟨x, _, hc⟩ := hc
  rw [hexChar] at hc
  split_ifs at hc with hx
  · simp only [List.mem_cons, List.not_mem_nil, or_false] at hc
    rcases hc with rfl | rfl
    · exact hdigit _ (by omega)
    · exact hdigit _ (by omega)
  · rcases List.mem_cons.mp hc with rfl | hc
    · exact hdigit 8 (by decide)
    · obtain ⟨k, _, rfl⟩ := List.mem_map.mp hc
      exact hdigit _ (Nat.mod_lt _ (by decide))

def emptyDesk : Desk ParityIssueKind := ⟨[], [], [], none⟩

def check (mismatches : List ParityMismatch) (salesScopes : List String) (now : ℤ) : ParityIssueCall where
  report := ⟨mismatches, [], ⟨salesScopes, []⟩⟩
  registry := ⟨fun _ => none, fun _ => none⟩
  ids := ⟨fun k f => k.text ++ f, fun k f => k.text ++ f⟩
  now

def differs (now : ℤ) : ParityIssueCall := check [⟨"2026-08-01", "m1", 1, 2, 10, 20, "qty"⟩] [] now

def agrees (now : ℤ) : ParityIssueCall := check [] ["2026-08-01|m1"] now

def parityRun : List (Step (Desk ParityIssueKind) (Act ParityIssueCall)) × Desk ParityIssueKind :=
  (service hexHost).callSteps emptyDesk [differs 1000, agrees 2000, differs 3000]

theorem parityLaw_parityRun : (parityRun.2.issues.map fun i => (i.status, i.episode)) = [(.open, 2)] ∧
    ParityLaw hexHost parityRun.1 parityRun.2 := by
  refine ⟨by decide +kernel, parityLaw_of_run hexDigits_hexHost (Service.run_callSteps emptyDesk _)
    ⟨rfl, rfl, List.nodup_nil, ?_, ?_⟩ hexText_injective.injOn⟩
  · exact List.forall_mem_nil _
  · exact List.forall_mem_nil _

end Mydon.Issues.Parity
