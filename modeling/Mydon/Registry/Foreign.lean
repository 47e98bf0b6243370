import Mathlib.Tactic.IntervalCases
import Mydon.Lib.Run
import Mydon.Registry.Rows

/-! Money of one company on the contract of another. A row of the import does not link such money to the client that
it names itself; the card that the row finds by its number may have another one. -/

namespace Mydon.Registry

open Mydon.Lib Mydon.Finance

/-- No flow stands on a contract of another company. -/
def Db.Clean (db : Db) : Prop := ∀ f ∈ db.flows, ∀ card ∈ db.contracts, isForeign f card = false

instance (db : Db) : Decidable db.Clean :=
  inferInstanceAs (Decidable (∀ f ∈ db.flows, ∀ card ∈ db.contracts, isForeign f card = false))

/-! When a row links no such money: on a card of the import's own, the money that is there already is of the row's
client; on another card, the money that the row names is of the card's client. -/

def rowAgrees (mineIds : List ℕ) (s : ContractsRun) (c : ImportContract) : Bool :=
  match OrderedMap.get s.idByNo (Js.trim c.contractNo) with
  | none => true
  | some id =>
    if id ∈ mineIds then
      s.db.flows.all fun f => f.contractId ≠ some id || !differ f.counterpartyId (clientOf s.db c)
    else
      s.db.contracts.all fun card => card.id ≠ id ||
        s.db.flows.all fun f => !linkable s.db c f || !differ f.counterpartyId card.clientId

/-- Each row at its turn. -/
def rowsAgree (source : String) (mineIds : List ℕ) : ContractsRun → List ImportContract → Bool
  | _, [] => true
  | s, c :: rows =>
    rowAgrees mineIds s c &&
      match importRow source mineIds s c with
      | .ok s => rowsAgree source mineIds s rows
      | .error _ => true

def contractsAgree (db : Db) (p : ImportPayload) : Bool :=
  match prepareContracts db p.contracts p.sourceName p.contractsFinal p.contractsKeep with
  | .ok s => rowsAgree p.sourceName (db.mineIds p.sourceName) s (p.contracts.filter fun c => contractImportError c = none)
  | .error _ => true

def importAgrees (db : Db) (p : ImportPayload) : Bool :=
  match importMoney db p with
  | (db, .ok _) => p.contracts = [] || contractsAgree db p
  | (_, .error _) => true

variable {db db' : Db} {source : String} {mineIds : List ℕ} {s s' : ContractsRun} {c : ImportContract}
  {rows : List ImportContract} {card : Contract} {id : ℕ} {nos : List String}

theorem not_differ_of_linkable {f : MoneyFlow} (h : linkable db c f = true) :
    differ f.counterpartyId (clientOf db c) = false := by
  unfold linkable names at h
  simp only [Bool.and_eq_true] at h
  have hguard := h.2.2
  rcases hclient : clientOf db c with _ | client
  · cases f.counterpartyId <;> rfl
  · simp only [hclient, Bool.or_eq_true, decide_eq_true_eq] at hguard
    rcases hguard with hnone | hsome
    · rw [hnone]
      rfl
    · simp [hsome, differ]

theorem isForeign_eq_false {f : MoneyFlow} :
    isForeign f card = false ↔ (f.contractId = some card.id → differ f.counterpartyId card.clientId = false) := by
  unfold isForeign
  simp only [Bool.and_eq_false_iff, decide_eq_false_iff_not]
  exact imp_iff_not_or.symm

/-! Rows. -/

theorem importRow_clean (h : importRow source mineIds s c = .ok s') (hs : s.Sound nos) (hclean : s.db.Clean)
    (hagrees : rowAgrees mineIds s c = true) : s'.db.Clean := by
  obtain ⟨db', id, hplaced, hdb, -, -⟩ := importRow_eq_ok h
  rw [hdb]
  intro f hf card' hcard'
  rw [link_contracts] at hcard'
  refine isForeign_eq_false.mpr fun hon => ?_
  obtain ⟨f₀, hf₀, -, hpayer, hlink⟩ := mem_link_cases hf
  rw [hpayer]
  unfold rowAgrees at hagrees
  cases hplaced with
  | @inserted x hget hx =>
    rcases List.mem_append.mp hcard' with hold | hnew
    · have hlt := hs.wf.fresh card' hold
      rcases hlink with ⟨-, hlinked⟩ | hsame
      · have := Option.some.inj (hon.symm.trans hlinked)
        omega
      · exact isForeign_eq_false.mp (hclean f₀ hf₀ card' hold) (hsame ▸ hon)
    · have hclient : card'.clientId = clientOf s.db c := by
        rw [List.mem_singleton.mp hnew]
        exact fieldsOf_clientId hx
      rcases hlink with ⟨hlinkable, -⟩ | hsame
      · rw [hclient]
        exact not_differ_of_linkable hlinkable
      · obtain ⟨old, hold, hid⟩ := hs.wf.flowContract f₀ hf₀ _ (hsame ▸ hon)
        rw [List.mem_singleton.mp hnew] at hid
        exact absurd hid (hs.wf.fresh old hold).ne
  | @overwritten x id hget hmine hx =>
    rw [hget] at hagrees
    simp only [if_pos hmine, List.all_eq_true] at hagrees
    obtain ⟨card, hcard, rfl⟩ := mem_overwriteCard.mp hcard'
    by_cases hid : card.id = id
    · simp only [if_pos hid, overwrite_id, overwrite_clientId, fieldsOf_clientId hx] at hon ⊢
      rcases hlink with ⟨hlinkable, -⟩ | hsame
      · exact not_differ_of_linkable hlinkable
      · have hon₀ : f₀.contractId = some id := by rw [← hsame, hon, hid]
        simpa [hon₀] using hagrees f₀ hf₀
    · simp only [if_neg hid] at hon ⊢
      rcases hlink with ⟨-, hlinked⟩ | hsame
      · exact absurd (Option.some.inj (hon.symm.trans hlinked)) hid
      · exact isForeign_eq_false.mp (hclean f₀ hf₀ card hcard) (hsame ▸ hon)
  | passed hget hmine =>
    rw [hget] at hagrees
    simp only [if_neg hmine, List.all_eq_true] at hagrees
    rcases hlink with ⟨hlinkable, hlinked⟩ | hsame
    · have hid : card'.id = id := Option.some.inj (hon.symm.trans hlinked)
      have hall := hagrees card' hcard'
      simp only [hid, ne_eq, not_true_eq_false, decide_false, Bool.false_or, List.all_eq_true] at hall
      simpa [hlinkable] using hall f₀ hf₀
    · exact isForeign_eq_false.mp (hclean f₀ hf₀ card' hcard') (hsame ▸ hon)

theorem importRows_sound (h : rows.foldlM (importRow source mineIds) s = .ok s')
    (hno : ∀ c ∈ rows, Js.trim c.contractNo ∈ nos) (hs : s.Sound nos) : s'.Sound nos :=
  Js.foldlM_invariant (fun c hc _ _ hs hrow => importRow_sound hrow hs (hno c hc)) h hs

theorem importRows_clean (h : rows.foldlM (importRow source mineIds) s = .ok s')
    (hno : ∀ c ∈ rows, Js.trim c.contractNo ∈ nos) (hs : s.Sound nos) (hclean : s.db.Clean)
    (hagree : rowsAgree source mineIds s rows = true) : s'.db.Clean := by
  induction rows generalizing s with
  | nil =>
    obtain rfl := Except.ok.inj h
    exact hclean
  | cons c rows ih =>
    rw [List.foldlM_cons] at h
    obtain ⟨s₁, hrow, h⟩ := Js.bind_eq_ok.mp h
    unfold rowsAgree at hagree
    rw [hrow, Bool.and_eq_true] at hagree
    have hs₁ := importRow_sound hrow hs (hno c List.mem_cons_self)
    have hclean₁ := importRow_clean hrow hs hclean hagree.1
    exact ih h (fun c' hc' => hno c' (List.mem_cons_of_mem _ hc')) hs₁ hclean₁ hagree.2

/-! The cleanup before the rows, and the stages before the contracts. -/

theorem Db.Clean.deleteContract (h : db.Clean) : (db.deleteContract id).Clean := by
  intro f hf card hcard
  obtain ⟨f₀, hf₀, rfl⟩ := mem_deleteContract.mp hf
  refine isForeign_eq_false.mpr fun hon => ?_
  rw [freed_counterpartyId]
  exact isForeign_eq_false.mp (h f₀ hf₀ card (List.mem_of_mem_filter hcard)) (freed_contractId.mp hon).1

theorem removeStale_clean (h : removeStale s card = .ok s') (hclean : s.db.Clean) : s'.db.Clean := by
  rcases (removeStale_eq_ok h).2 with hdb | hdb
  · exact hdb ▸ hclean
  · exact hdb ▸ hclean.deleteContract

theorem startContracts_sound (wf : db.WF) :
    (startContracts db rows).Sound
      ((rows.filter fun c => contractImportError c = none).map fun c => Js.trim c.contractNo) := by
  refine ⟨wf, fun no hno hget card hcard hsame => ?_⟩
  refine OrderedMap.get_eq_none_iff.mp hget ?_
  unfold OrderedMap.keys startContracts
  rw [List.map_map]
  refine List.mem_map.mpr ⟨card, List.mem_filter.mpr ⟨hcard, ?_⟩, hsame⟩
  rw [hsame]
  simpa using hno

variable {final : Bool} {keepNos : Option (List String)}

theorem prepareContracts_sound (h : prepareContracts db rows source final keepNos = .ok s) (wf : db.WF) :
    s.Sound ((rows.filter fun c => contractImportError c = none).map fun c => Js.trim c.contractNo) := by
  have hstart := @startContracts_sound db rows wf
  unfold prepareContracts at h
  split_ifs at h
  · unfold cleanUp at h
    dsimp only at h
    split_ifs at h
    · obtain rfl := Except.ok.inj h
      exact ⟨hstart.wf, hstart.unknown⟩
    · exact Js.foldlM_invariant (fun card _ s s' hs hstep => removeStale_sound hstep hs) h hstart
  · obtain rfl := Except.ok.inj h
    exact hstart

theorem prepareContracts_clean (h : prepareContracts db rows source final keepNos = .ok s) (hclean : db.Clean) :
    s.db.Clean := by
  unfold prepareContracts at h
  split_ifs at h
  · unfold cleanUp at h
    dsimp only at h
    split_ifs at h
    · obtain rfl := Except.ok.inj h
      exact hclean
    · exact @Js.foldlM_invariant _ _ _ _ (fun s : ContractsRun => s.db.Clean) _ _ _
        (fun card _ s s' hs hstep => removeStale_clean hstep hs) h hclean
  · obtain rfl := Except.ok.inj h
    exact hclean

theorem importContracts_spec {p : ImportPayload} {count : ContractsCount}
    (h : importContracts db p.contracts p.sourceName p.contractsFinal p.contractsKeep = .ok (db', count))
    (wf : db.WF) : db'.WF ∧ (db.Clean → contractsAgree db p = true → db'.Clean) := by
  obtain ⟨s, hprepare, h⟩ := Js.bind_eq_ok.mp h
  obtain ⟨s', hrows, h⟩ := Js.bind_eq_ok.mp h
  obtain ⟨rfl, -⟩ := Prod.ext_iff.mp (Except.ok.inj h)
  have hs := prepareContracts_sound hprepare wf
  have hno : ∀ c ∈ p.contracts.filter fun c => contractImportError c = none,
      Js.trim c.contractNo ∈
        (p.contracts.filter fun c => contractImportError c = none).map fun c => Js.trim c.contractNo :=
    fun c hc => List.mem_map.mpr ⟨c, hc, rfl⟩
  refine ⟨(importRows_sound hrows hno hs).wf, fun hclean hagree => ?_⟩
  unfold contractsAgree at hagree
  rw [hprepare] at hagree
  exact importRows_clean hrows hno hs (prepareContracts_clean hprepare hclean) hagree

/-- The stages before the contracts touch no card, and link no flow. -/
structure Before (db db' : Db) : Prop where
  wf : db.WF → db'.WF
  contracts : db'.contracts = db.contracts
  flows : ∀ f ∈ db'.flows, f ∈ db.flows ∨ f.contractId = none

theorem Before.refl : Before db db := ⟨id, rfl, fun _ => .inl⟩

theorem Before.trans {db'' : Db} (h : Before db db') (h' : Before db' db'') : Before db db'' := by
  refine ⟨fun wf => h'.wf (h.wf wf), h'.contracts.trans h.contracts, fun f hf => ?_⟩
  rcases h'.flows f hf with hold | hfree
  · exact h.flows f hold
  · exact .inr hfree

theorem Before.clean (h : Before db db') (hclean : db.Clean) : db'.Clean := by
  intro f hf card hcard
  rcases h.flows f hf with hold | hfree
  · exact hclean f hold card (h.contracts ▸ hcard)
  · exact isForeign_eq_false.mpr fun hon => by simp [hfree] at hon

theorem importContractors_before {rows : List ImportContractor} {count : ImportCount}
    (h : importContractors db rows = .ok (db', count)) : Before db db' := by
  obtain ⟨_, -, h⟩ := Js.bind_eq_ok.mp h
  obtain ⟨rfl, -⟩ := Prod.ext_iff.mp (Except.ok.inj h)
  refine ⟨fun wf => ?_, rfl, fun _ => .inl⟩
  refine ⟨wf.ids, wf.nos, fun card hcard => Nat.lt_add_right _ (wf.fresh card hcard), wf.flowIds,
    fun f hf => Nat.lt_add_right _ (wf.flowFresh f hf), wf.flowContract, fun f hf id hid => ?_,
    fun card hcard id hid => ?_⟩
  · obtain ⟨e, he, rfl⟩ := wf.flowPayer f hf id hid
    exact ⟨e, List.mem_append_left _ he, rfl⟩
  · obtain ⟨e, he, rfl⟩ := wf.client card hcard id hid
    exact ⟨e, List.mem_append_left _ he, rfl⟩

theorem flowRow_eq_ok {f : ImportFlow} {row : MoneyFlow} (h : flowRow db f = .ok row) :
    row.id = db.nextId ∧ row.contractId = none ∧ row.counterpartyId = f.counterpartyInn.bind db.contractorByInn := by
  obtain ⟨_, -, h⟩ := Js.bind_eq_ok.mp h
  obtain ⟨_, -, h⟩ := Js.bind_eq_ok.mp h
  obtain rfl := Except.ok.inj h
  exact ⟨rfl, rfl, rfl⟩

theorem importFlow_before {s s' : FlowsRun} {f : ImportFlow} (h : importFlow s f = .ok s') : Before s.db s'.db := by
  unfold importFlow at h
  dsimp only at h
  split_ifs at h
  · obtain rfl := Except.ok.inj h
    exact .refl
  obtain ⟨row, hrow, h⟩ := Js.bind_eq_ok.mp h
  obtain rfl := Except.ok.inj h
  obtain ⟨hid, hfree, hpayer⟩ := flowRow_eq_ok hrow
  refine ⟨fun wf => ?_, rfl, List.forall_mem_append.mpr ⟨fun _ => .inl, List.forall_mem_singleton.mpr (.inr hfree)⟩⟩
  refine ⟨wf.ids, wf.nos, fun card hcard => Nat.lt_succ_of_lt (wf.fresh card hcard), ?_, ?_, ?_, ?_, wf.client⟩
  · refine Table.nodup_append_singleton wf.flowIds fun old hold hsame => ?_
    have := wf.flowFresh old hold
    omega
  · refine List.forall_mem_append.mpr ⟨fun old hold => Nat.lt_succ_of_lt (wf.flowFresh old hold), ?_⟩
    exact List.forall_mem_singleton.mpr (hid ▸ Nat.lt_succ_self _)
  · refine List.forall_mem_append.mpr ⟨wf.flowContract, List.forall_mem_singleton.mpr fun id hid => ?_⟩
    simp [hfree] at hid
  · refine List.forall_mem_append.mpr ⟨wf.flowPayer, List.forall_mem_singleton.mpr fun id hid => ?_⟩
    rw [hpayer] at hid
    obtain ⟨inn, -, hid⟩ := Option.bind_eq_some_iff.mp hid
    exact mem_of_contractorByInn hid

theorem importFlows_before {rows : List ImportFlow} {count : ImportCount} (h : importFlows db rows = .ok (db', count)) :
    Before db db' := by
  obtain ⟨s, hfold, h⟩ := Js.bind_eq_ok.mp h
  obtain ⟨rfl, -⟩ := Prod.ext_iff.mp (Except.ok.inj h)
  exact @Js.foldlM_invariant _ _ _ _ (fun s : FlowsRun => Before db s.db) _ _ _
    (fun f _ s s' hs hstep => hs.trans (importFlow_before hstep)) hfold .refl

theorem importMoney_before (db : Db) (p : ImportPayload) : Before db (importMoney db p).1 := by
  unfold importMoney
  split
  · exact .refl
  next db₁ _ hcontractors =>
    have hfirst : Before db db₁ := by
      split_ifs at hcontractors
      · obtain ⟨rfl, -⟩ := Prod.ext_iff.mp (Except.ok.inj hcontractors)
        exact .refl
      · exact importContractors_before hcontractors
    split
    · exact hfirst
    next db₂ _ hflows =>
      refine hfirst.trans ?_
      split_ifs at hflows
      · obtain ⟨rfl, -⟩ := Prod.ext_iff.mp (Except.ok.inj hflows)
        exact .refl
      · exact importFlows_before hflows

theorem importGloberent_spec (wf : db.WF) (p : ImportPayload) :
    (importGloberent db p).1.WF ∧ (db.Clean → importAgrees db p = true → (importGloberent db p).1.Clean) := by
  have hmoney := importMoney_before db p
  unfold importGloberent importAgrees
  split
  next db₁ _ hfailed =>
    rw [hfailed] at hmoney
    exact ⟨hmoney.wf wf, fun hclean _ => hmoney.clean hclean⟩
  next db₁ _ _ hdone =>
    rw [hdone] at hmoney
    split
    · exact ⟨hmoney.wf wf, fun hclean _ => hmoney.clean hclean⟩
    next db₂ _ hcontracts =>
      split_ifs at hcontracts with hnone
      · obtain ⟨rfl, -⟩ := Prod.ext_iff.mp (Except.ok.inj hcontracts)
        exact ⟨hmoney.wf wf, fun hclean _ => hmoney.clean hclean⟩
      · obtain ⟨hwf, hkeeps⟩ := importContracts_spec hcontracts (hmoney.wf wf)
        refine ⟨hwf, fun hclean hagrees => hkeeps (hmoney.clean hclean) ?_⟩
        simpa [hdone, hnone] using hagrees

/-! Clearing named links. -/

/-- The texts of the request, each once. -/
def askedIds (flowIds : List String) : List String := (OrderedMap.keySet (flowIds.map Js.trim)).filter (· ≠ "")

/-- The request names the flow. -/
def named (uuid : String → Option ℕ) (flowIds : List String) (f : MoneyFlow) : Bool :=
  f.id ∈ (askedIds flowIds).filterMap uuid

/-- The named flows that stand on a contract of another company are cleared, and they are what is reported. -/
structure Unlinked (uuid : String → Option ℕ) (db : Db) (flowIds : List String) (db' : Db) (r : UnlinkForeignResult) :
    Prop where
  flows : db'.flows = db.flows.map fun f =>
    if named uuid flowIds f && db.hasForeign f then { f with contractId := none } else f
  rest : db'.contracts = db.contracts ∧ db'.entities = db.entities
  report : r.unlinked =
    (db.foreignLinks.filter fun l => named uuid flowIds l.1).map fun l => (l.1.docNo, l.2.contractNo)
  skipped : r.unlinked.length + r.skipped = (askedIds flowIds).length

variable {uuid : String → Option ℕ} {flowIds : List String} {r : UnlinkForeignResult} {l l' : MoneyFlow × Contract}

theorem mem_foreignLinks : l ∈ db.foreignLinks ↔ l.1 ∈ db.flows ∧ l.2 ∈ db.contracts ∧ isForeign l.1 l.2 = true := by
  unfold Db.foreignLinks
  simp only [List.mem_flatMap, List.mem_map, List.mem_filter]
  constructor
  · rintro ⟨f, hf, card, hcard, rfl⟩
    exact ⟨hf, hcard⟩
  · rintro ⟨hf, hcard⟩
    exact ⟨l.1, hf, l.2, hcard, rfl⟩

theorem contractId_of_isForeign {f : MoneyFlow} (h : isForeign f card = true) : f.contractId = some card.id := by
  unfold isForeign at h
  rw [Bool.and_eq_true, decide_eq_true_eq] at h
  exact h.1

/-- A flow stands on one contract. -/
theorem foreignLinks_unique (wf : db.WF) (hl : l ∈ db.foreignLinks) (hl' : l' ∈ db.foreignLinks)
    (hid : l.1.id = l'.1.id) : l = l' := by
  obtain ⟨hf, hcard, hforeign⟩ := mem_foreignLinks.mp hl
  obtain ⟨hf', hcard', hforeign'⟩ := mem_foreignLinks.mp hl'
  have hflow : l.1 = l'.1 := Table.eq_of_key_eq wf.flowIds hf hf' hid
  have hids : l.2.id = l'.2.id := by
    have hon := contractId_of_isForeign hforeign
    rw [hflow, contractId_of_isForeign hforeign'] at hon
    exact (Option.some.inj hon).symm
  exact Prod.ext hflow (Table.eq_of_key_eq wf.ids hcard hcard' hids)

theorem contracts_of_hasForeign (wf : db.WF) {f : MoneyFlow} (hf : f ∈ db.flows) (h : db.hasForeign f = true) :
    ∃ card, (f, card) ∈ db.foreignLinks ∧ db.contracts.filter (isForeign f) = [card] := by
  obtain ⟨card, hcard, hforeign⟩ := List.any_eq_true.mp h
  refine ⟨card, mem_foreignLinks.mpr ⟨hf, hcard, hforeign⟩, ?_⟩
  have hall : ∀ card' ∈ db.contracts.filter (isForeign f), card' = card := by
    intro card' hcard'
    obtain ⟨hmem, hforeign'⟩ := List.mem_filter.mp hcard'
    have hlink' : (f, card') ∈ db.foreignLinks := mem_foreignLinks.mpr ⟨hf, hmem, hforeign'⟩
    have hlink : (f, card) ∈ db.foreignLinks := mem_foreignLinks.mpr ⟨hf, hcard, hforeign⟩
    have hsame := foreignLinks_unique wf hlink' hlink rfl
    exact (Prod.ext_iff.mp hsame).2
  have hnd : (db.contracts.filter (isForeign f)).Nodup := (List.Nodup.of_map _ wf.ids).filter _
  refine ((List.perm_ext_iff_of_nodup hnd (List.nodup_singleton _)).mpr fun card' => ?_).eq_singleton
  refine ⟨fun hmem => List.mem_singleton.mpr (hall card' hmem), fun hmem => ?_⟩
  rw [List.mem_singleton.mp hmem]
  exact List.mem_filter.mpr ⟨hcard, hforeign⟩

theorem map_filter_eq_flatMap {α β : Type} {p : α → Bool} {g : α → β} {F : α → List β} {items : List α}
    (h : ∀ a ∈ items, F a = if p a then [g a] else []) : (items.filter p).map g = items.flatMap F := by
  induction items with
  | nil => rfl
  | cons a items ih =>
    rw [List.flatMap_cons, ← ih fun b hb => h b (List.mem_cons_of_mem _ hb), h a List.mem_cons_self, List.filter_cons]
    split_ifs <;> rfl

/-- The number that the report finds for a flow. -/
theorem reported_contractNo (wf : db.WF) {f : MoneyFlow} (h : (f, card) ∈ db.foreignLinks) :
    (((db.foreignLinks.filter fun l => (db.entities.any fun e => l.1.counterpartyId = some e.id) &&
      db.entities.any fun e => l.2.clientId = some e.id).reverse.find? fun l => l.1.id = f.id).map
        fun l => l.2.contractNo) = some card.contractNo := by
  obtain ⟨hf, hcard, hforeign⟩ := mem_foreignLinks.mp h
  have hknown : (db.entities.any fun e => f.counterpartyId = some e.id) = true ∧
      (db.entities.any fun e => card.clientId = some e.id) = true := by
    unfold isForeign differ at hforeign
    rcases hpayer : f.counterpartyId with _ | payer
    · simp [hpayer] at hforeign
    rcases hclient : card.clientId with _ | client
    · simp [hclient] at hforeign
    obtain ⟨e, he, rfl⟩ := wf.flowPayer f hf payer hpayer
    obtain ⟨e', he', rfl⟩ := wf.client card hcard client hclient
    exact ⟨List.any_eq_true.mpr ⟨e, he, by simp⟩, List.any_eq_true.mpr ⟨e', he', by simp⟩⟩
  generalize hbefore : (db.foreignLinks.filter _).reverse = before
  have hmem : (f, card) ∈ before := by
    rw [← hbefore, List.mem_reverse, List.mem_filter]
    exact ⟨h, by rw [hknown.1, hknown.2]; rfl⟩
  rcases hfind : before.find? fun l => l.1.id = f.id with _ | l
  · exact absurd (by simp) (List.find?_eq_none.mp hfind _ hmem)
  · have hl : l ∈ db.foreignLinks := by
      have := List.mem_of_find?_eq_some hfind
      rw [← hbefore, List.mem_reverse] at this
      exact List.mem_of_mem_filter this
    rw [hfind, foreignLinks_unique wf hl h (by simpa using List.find?_some hfind)]
    rfl

theorem unlinkForeignContractLinks_spec (wf : db.WF)
    (h : unlinkForeignContractLinks uuid db flowIds = .ok (db', r)) : Unlinked uuid db flowIds db' r := by
  obtain ⟨_, -, h⟩ := Js.bind_eq_ok.mp h
  obtain ⟨rfl, rfl⟩ := Prod.ext_iff.mp (Except.ok.inj h)
  refine ⟨rfl, ⟨rfl, rfl⟩, ?_, ?_⟩
  · have hfold : (db.foreignLinks.filter fun l => named uuid flowIds l.1).map (fun l => (l.1.docNo, l.2.contractNo)) =
        db.flows.flatMap fun f => if named uuid flowIds f then
          (db.contracts.filter (isForeign f)).map fun card => (f.docNo, card.contractNo) else [] := by
      unfold Db.foreignLinks
      rw [List.filter_flatMap, List.map_flatMap]
      congr 1
      funext f
      split_ifs with hnamed
      · rw [List.filter_map, List.map_map]
        simp [Function.comp_def, hnamed]
      · rw [List.filter_map, List.map_map]
        simp [Function.comp_def, hnamed]
    rw [hfold]
    refine map_filter_eq_flatMap fun f hf => ?_
    unfold named askedIds
    rcases hasked : decide (f.id ∈ ((OrderedMap.keySet (flowIds.map Js.trim)).filter (· ≠ "")).filterMap uuid)
    · rfl
    · rcases hforeign : db.hasForeign f
      · have hnone : db.contracts.filter (isForeign f) = [] := by
          refine List.filter_eq_nil_iff.mpr fun card hcard hon => ?_
          rw [Db.hasForeign, List.any_eq_false] at hforeign
          exact hforeign card hcard hon
        rw [hnone]
        rfl
      · obtain ⟨card, hlink, hcards⟩ := contracts_of_hasForeign wf hf hforeign
        dsimp only
        rw [hcards, reported_contractNo wf hlink]
        rfl
  · rw [List.length_map]
    refine Nat.add_sub_cancel' ?_
    refine le_trans ?_ (List.length_filterMap_le uuid _)
    rw [← List.length_map fun f : MoneyFlow => f.id]
    refine (List.subperm_of_subset (wf.flowIds.sublist (List.filter_sublist.map _)) fun id hid => ?_).length_le
    obtain ⟨f, hf, rfl⟩ := List.mem_map.mp hid
    have hasked := (List.mem_filter.mp hf).2
    simp only [Bool.and_eq_true, decide_eq_true_eq] at hasked
    exact hasked.1

/-! Runs of imports and of requests to clear links. -/

inductive RegistryCall
  | importGloberent (p : ImportPayload)
  | unlinkForeign (flowIds : List String)
  deriving DecidableEq

def serve (uuid : String → Option ℕ) (db : Db) : RegistryCall → Db
  | .importGloberent p => (importGloberent db p).1
  | .unlinkForeign flowIds =>
    match unlinkForeignContractLinks uuid db flowIds with
    | .ok (db, _) => db
    | .error _ => db

/-- Each row of an imported contract agrees, at its turn, with the card that it finds. -/
def callAgrees (e : Step Db RegistryCall) : Bool :=
  match e.action with
  | .importGloberent p => importAgrees e.before p
  | .unlinkForeign _ => true

/-- A step makes no foreign link where there was none, and a request clears exactly the foreign ones that it names. -/
structure ForeignLaw (uuid : String → Option ℕ) (e : Step Db RegistryCall) : Prop where
  clean : e.before.Clean → e.after.Clean
  unlinked : ∀ flowIds r, e.action = .unlinkForeign flowIds →
    unlinkForeignContractLinks uuid e.before flowIds = .ok (e.after, r) → Unlinked uuid e.before flowIds e.after r

theorem Db.WF.of_unlinked (wf : db.WF) (h : Unlinked uuid db flowIds db' r) (hnext : db'.nextId = db.nextId) :
    db'.WF := by
  obtain ⟨hcontracts, hentities⟩ := h.rest
  have hkept : ∀ f ∈ db'.flows, ∃ f₀ ∈ db.flows, f.id = f₀.id ∧ f.counterpartyId = f₀.counterpartyId ∧
      ∀ id, f.contractId = some id → f₀.contractId = some id := by
    intro f hf
    rw [h.flows] at hf
    obtain ⟨f₀, hf₀, rfl⟩ := List.mem_map.mp hf
    refine ⟨f₀, hf₀, ?_⟩
    split_ifs
    · exact ⟨rfl, rfl, fun id hid => nomatch hid⟩
    · exact ⟨rfl, rfl, fun id hid => hid⟩
  have hids : db'.flows.map (fun f => f.id) = db.flows.map fun f => f.id := by
    rw [h.flows, List.map_map]
    refine List.map_congr_left fun f _ => ?_
    rw [Function.comp_apply]
    split_ifs <;> rfl
  refine ⟨hcontracts ▸ wf.ids, hcontracts ▸ wf.nos, hcontracts ▸ hnext ▸ wf.fresh, hids ▸ wf.flowIds, fun f hf => ?_,
    fun f hf id hid => ?_, fun f hf id hid => ?_, hcontracts ▸ hentities ▸ wf.client⟩
  · obtain ⟨f₀, hf₀, hid, -⟩ := hkept f hf
    rw [hid, hnext]
    exact wf.flowFresh f₀ hf₀
  · obtain ⟨f₀, hf₀, -, -, hon⟩ := hkept f hf
    rw [hcontracts]
    exact wf.flowContract f₀ hf₀ id (hon id hid)
  · obtain ⟨f₀, hf₀, -, hpayer, -⟩ := hkept f hf
    rw [hentities]
    exact wf.flowPayer f₀ hf₀ id (hpayer ▸ hid)

theorem Db.Clean.of_unlinked (hclean : db.Clean) (h : Unlinked uuid db flowIds db' r) : db'.Clean := by
  intro f hf card hcard
  rw [h.flows] at hf
  rw [h.rest.1] at hcard
  obtain ⟨f₀, hf₀, rfl⟩ := List.mem_map.mp hf
  split_ifs
  · exact isForeign_eq_false.mpr fun hon => nomatch hon
  · exact hclean f₀ hf₀ card hcard

theorem nextId_of_unlink (h : unlinkForeignContractLinks uuid db flowIds = .ok (db', r)) : db'.nextId = db.nextId := by
  obtain ⟨_, -, h⟩ := Js.bind_eq_ok.mp h
  obtain ⟨rfl, -⟩ := Prod.ext_iff.mp (Except.ok.inj h)
  rfl

theorem serve_wf (wf : db.WF) (call : RegistryCall) : (serve uuid db call).WF := by
  cases call with
  | importGloberent p => exact (importGloberent_spec wf p).1
  | unlinkForeign flowIds =>
    unfold serve
    dsimp only
    split
    next db' r h => exact wf.of_unlinked (unlinkForeignContractLinks_spec wf h) (nextId_of_unlink h)
    · exact wf

/-- One step. -/
theorem foreignLaw_of_agrees (wf : db.WF) {call : RegistryCall}
    (h : callAgrees ⟨db, call, serve uuid db call⟩ = true) : ForeignLaw uuid ⟨db, call, serve uuid db call⟩ := by
  cases call with
  | importGloberent p =>
    exact ⟨fun hclean => (importGloberent_spec wf p).2 hclean h, fun flowIds r hcall => nomatch hcall⟩
  | unlinkForeign flowIds =>
    refine ⟨fun hclean => ?_, fun flowIds' r hcall hr => ?_⟩
    · unfold serve
      dsimp only
      split
      next db' r h => exact hclean.of_unlinked (unlinkForeignContractLinks_spec wf h)
      · exact hclean
    · obtain rfl := RegistryCall.unlinkForeign.inj hcall
      exact unlinkForeignContractLinks_spec wf hr

theorem foreignLaw_of_run {steps : List (Step Db RegistryCall)}
    (hrun : Run (fun db call db' => db' = serve uuid db call) db steps db') (wf : db.WF)
    (hagree : ∀ e ∈ steps, callAgrees e = true) : (∀ e ∈ steps, ForeignLaw uuid e) ∧ (db.Clean → db'.Clean) := by
  have hsteps : ∀ e ∈ steps, ForeignLaw uuid e := by
    intro e he
    obtain ⟨earlier, later, -, hbefore, hnext, -⟩ := hrun.split he
    have hwf : e.before.WF := by
      refine Run.invariant (fun s call s' hs hn => ?_) hbefore wf
      rw [hn]
      exact serve_wf hs call
    obtain ⟨before, call, after⟩ := e
    dsimp only at hnext hwf
    subst hnext
    exact foreignLaw_of_agrees hwf (hagree _ he)
  refine ⟨hsteps, fun hclean => ?_⟩
  exact @Run.invariant_of _ _ _ _ _ _ Db.Clean (ForeignLaw uuid) (fun s call s' hs _ hlaw => hlaw.clean hs) hrun hclean
    hsteps

/-! Two companies, a card that the owner entered for the first of them, and an invoice that the second has paid. -/

def ownersCard : Contract where
  id := 2
  contractNo := "GFH-04/0126"
  contractDate := 20474
  clientId := some 0
  totalWithVat := 100
  totalVat := 0
  status := .active
  buyer := .obj []
  sellerCompanyId := none
  docParams := .obj []
  createdFrom := none

def invoice (id payer : ℕ) (docNo : String) (contractId : Option ℕ) : MoneyFlow where
  id := id
  direction := .incoming
  amount := 100
  currency := "UZS"
  purpose := some "оплата"
  date := 0
  status := .actual
  category := some "sale"
  rate := none
  amountUzs := none
  counterpartyId := some payer
  docNo := some docNo
  dueDate := none
  paidAt := some 0
  contractId := contractId
  importContractId := none
  unitId := none
  method := none
  isOfficial := true
  counterparty := none

def registryDb (flows : List MoneyFlow) : Db where
  entities := [⟨0, "contractor", "АГМК", some "200000001"⟩, ⟨1, "contractor", "НГМК", some "200000002"⟩]
  units := []
  contracts := [ownersCard]
  flows := flows
  acts := []
  imports := []
  nextId := 10

/-- A row of the export for the number of the owner's card. -/
def exportRow (inn docNo : String) : ImportContract where
  contractNo := "GFH-04/0126"
  contractDate := "2026-01-21"
  buyerName := "покупатель"
  buyerInn := some inn
  totalWithVat := 100
  totalVat := none
  status := none
  subject := none
  didoxRows := none
  didoxDuplicatesDropped := none
  extraDates := none
  invoicedTotal := none
  flowDocNos := [docNo]

def exportCall (row : ImportContract) : RegistryCall :=
  .importGloberent ⟨some "Didox: реестр", [], [], [row], true, none⟩

def sampleUuid (s : String) : Option ℕ := if s = "11111111-1111-4111-8111-111111111111" then some 3 else none

theorem registryDb_wf {id payer : ℕ} {docNo : String} {contractId : Option ℕ} (hid : id < 10) (hpayer : payer < 2)
    (hcontract : contractId = none ∨ contractId = some 2) : (registryDb [invoice id payer docNo contractId]).WF := by
  refine ⟨List.nodup_singleton _, List.nodup_singleton _, ?_, List.nodup_singleton _, ?_, ?_, ?_, ?_⟩
  · exact List.forall_mem_singleton.mpr (show 2 < 10 by decide)
  · exact List.forall_mem_singleton.mpr hid
  · refine List.forall_mem_singleton.mpr fun cid hcid => ⟨ownersCard, List.mem_singleton_self _, ?_⟩
    rcases hcontract with rfl | rfl
    · exact nomatch hcid
    · exact Option.some.inj hcid
  · refine List.forall_mem_singleton.mpr fun p hp => ?_
    obtain rfl : payer = p := Option.some.inj hp
    interval_cases payer
    · exact ⟨_, List.mem_cons_self, rfl⟩
    · exact ⟨_, List.mem_cons_of_mem _ List.mem_cons_self, rfl⟩
  · refine List.forall_mem_singleton.mpr fun p hp => ⟨_, List.mem_cons_self, ?_⟩
    exact Option.some.inj hp

theorem foreignLaw_firstBuyer :
    (∀ e ∈ (runActions (serve sampleUuid) (registryDb [invoice 3 0 "СФ 2026-5" none])
        [exportCall (exportRow "200000001" "СФ 2026-5"), .unlinkForeign ["11111111-1111-4111-8111-111111111111"]]).1,
        ForeignLaw sampleUuid e) ∧
      ((registryDb [invoice 3 0 "СФ 2026-5" none]).Clean →
        (runActions (serve sampleUuid) (registryDb [invoice 3 0 "СФ 2026-5" none])
          [exportCall (exportRow "200000001" "СФ 2026-5"),
            .unlinkForeign ["11111111-1111-4111-8111-111111111111"]]).2.Clean) := by
  refine foreignLaw_of_run (run_runActions _ _ _) (registryDb_wf (by decide) (by decide) (.inl rfl)) fun e he => ?_
  have hall : (runActions (serve sampleUuid) (registryDb [invoice 3 0 "СФ 2026-5" none])
      [exportCall (exportRow "200000001" "СФ 2026-5"),
        .unlinkForeign ["11111111-1111-4111-8111-111111111111"]]).1.all callAgrees = true := by decide +kernel
  exact List.all_eq_true.mp hall e he

/-- The export gives the number of the owner's card to the second company, and its money is put on the card of the
first. -/
theorem foreign_link_made :
    (registryDb [invoice 3 1 "СФ 2026-5" none]).WF ∧
      ¬ ∀ e ∈ (runActions (serve sampleUuid) (registryDb [invoice 3 1 "СФ 2026-5" none])
        [exportCall (exportRow "200000002" "СФ 2026-5")]).1, ForeignLaw sampleUuid e := by
  refine ⟨registryDb_wf (by decide) (by decide) (.inl rfl), fun hlaws => ?_⟩
  have hlaw := (hlaws _ List.mem_cons_self).clean (by decide +kernel)
  exact absurd hlaw (by decide +kernel)

end Mydon.Registry
