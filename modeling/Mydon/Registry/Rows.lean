import Mydon.Registry.Import

/-! What one row of the contracts does to the tables, and one removed card: the three ways a row's card is placed,
and the keys and references that all of it keeps. -/

namespace Mydon.Registry

open Mydon.Lib Mydon.Finance

variable {db : Db} {source : String} {mineIds : List ℕ} {s s' : ContractsRun} {c : ImportContract} {card : Contract}
  {x : Fields} {id : ℕ}

/-! The columns that the operations leave. -/

@[simp] theorem overwrite_id : (card.overwrite source x).id = card.id := rfl

@[simp] theorem overwrite_contractNo : (card.overwrite source x).contractNo = card.contractNo := rfl

@[simp] theorem overwrite_clientId : (card.overwrite source x).clientId = x.clientId := rfl

@[simp] theorem link_contracts : (db.link c id).contracts = db.contracts := rfl

@[simp] theorem link_entities : (db.link c id).entities = db.entities := rfl

@[simp] theorem link_nextId : (db.link c id).nextId = db.nextId := rfl

theorem mem_link {f : MoneyFlow} :
    f ∈ (db.link c id).flows ↔ ∃ f₀ ∈ db.flows, f = if linkable db c f₀ then f₀.linkedTo id else f₀ := by
  unfold Db.link
  rw [List.mem_map]
  exact exists_congr fun f₀ => and_congr_right fun _ => eq_comm

/-- A flow after the linking was linked, or is as it was. -/
theorem mem_link_cases {f : MoneyFlow} (h : f ∈ (db.link c id).flows) :
    ∃ f₀ ∈ db.flows, f.id = f₀.id ∧ f.counterpartyId = f₀.counterpartyId ∧
      (linkable db c f₀ = true ∧ f.contractId = some id ∨ f.contractId = f₀.contractId) := by
  obtain ⟨f₀, hf₀, rfl⟩ := mem_link.mp h
  refine ⟨f₀, hf₀, ?_⟩
  split_ifs with hlinkable
  · exact ⟨rfl, rfl, .inl ⟨hlinkable, rfl⟩⟩
  · exact ⟨rfl, rfl, .inr rfl⟩

theorem mem_overwriteCard {card' : Contract} :
    card' ∈ (db.overwriteCard id source x).contracts ↔
      ∃ card ∈ db.contracts, card' = if card.id = id then card.overwrite source x else card := by
  unfold Db.overwriteCard Table.update
  rw [List.mem_map]
  exact exists_congr fun card => and_congr_right fun _ => eq_comm

theorem fieldsOf_clientId (h : fieldsOf db c = .ok x) : x.clientId = clientOf db c := by
  obtain ⟨_, -, h⟩ := Js.bind_eq_ok.mp h
  obtain ⟨_, -, h⟩ := Js.bind_eq_ok.mp h
  obtain ⟨_, -, h⟩ := Js.bind_eq_ok.mp h
  obtain rfl := Except.ok.inj h
  rfl

theorem mem_of_findContract (h : db.findContract id = some card) : card ∈ db.contracts ∧ card.id = id :=
  ⟨Table.mem_of_lookup h, @Table.key_of_lookup _ _ _ (fun c : Contract => c.id) _ _ _ h⟩

/-! Known companies are in the tables. -/

theorem mem_of_contractorByInn {inn : String} (h : db.contractorByInn inn = some id) : ∃ e ∈ db.entities, e.id = id := by
  unfold Db.contractorByInn at h
  split_ifs at h
  obtain ⟨e, he, rfl⟩ := Option.map_eq_some_iff.mp h
  exact ⟨e, List.mem_of_mem_filter (List.mem_of_getLast? he), rfl⟩

theorem mem_of_clientOf (h : clientOf db c = some id) : ∃ e ∈ db.entities, e.id = id := by
  obtain ⟨inn, -, h⟩ := Option.bind_eq_some_iff.mp h
  exact mem_of_contractorByInn h

/-! One row. -/

/-- The ways that a row's card is placed, before the flows are linked to it. -/
inductive Placed (source : String) (mineIds : List ℕ) (s : ContractsRun) (c : ImportContract) : Db → ℕ → Prop
  | inserted {x : Fields} (hget : OrderedMap.get s.idByNo (Js.trim c.contractNo) = none)
    (hx : fieldsOf s.db c = .ok x) :
    Placed source mineIds s c (s.db.insertCard (newCard s.db source (Js.trim c.contractNo) x)) s.db.nextId
  | overwritten {x : Fields} {id : ℕ} (hget : OrderedMap.get s.idByNo (Js.trim c.contractNo) = some id)
    (hmine : id ∈ mineIds) (hx : fieldsOf s.db c = .ok x) :
    Placed source mineIds s c (s.db.overwriteCard id source x) id
  | passed {id : ℕ} (hget : OrderedMap.get s.idByNo (Js.trim c.contractNo) = some id) (hmine : id ∉ mineIds) :
    Placed source mineIds s c s.db id

theorem importRow_eq_ok (h : importRow source mineIds s c = .ok s') :
    ∃ db id, Placed source mineIds s c db id ∧ s'.db = db.link c id ∧
      s'.idByNo = (if OrderedMap.get s.idByNo (Js.trim c.contractNo) = none
        then OrderedMap.set (Js.trim c.contractNo) id s.idByNo else s.idByNo) ∧
      ((∀ f ∈ db.flows, linkable db c f = false) ∨ (db.findContract id).isSome) := by
  obtain ⟨⟨s₁, id⟩, hplace, h⟩ := Js.bind_eq_ok.mp h
  obtain ⟨_, hrequire, h⟩ := Js.bind_eq_ok.mp h
  obtain rfl := Except.ok.inj h
  have hfk : (∀ f ∈ s₁.db.flows, linkable s₁.db c f = false) ∨ (s₁.db.findContract id).isSome := by
    refine (Js.require_eq_ok.mp hrequire).imp_left fun hlength f hf => ?_
    rw [List.length_eq_zero_iff, List.filter_eq_nil_iff] at hlength
    simpa using hlength f hf
  unfold placeCard at hplace
  dsimp only at hplace
  split at hplace
  next hget =>
    obtain ⟨x, hx, hplace⟩ := Js.bind_eq_ok.mp hplace
    obtain ⟨rfl, rfl⟩ := Prod.ext_iff.mp (Except.ok.inj hplace)
    exact ⟨_, _, .inserted hget hx, rfl, by rw [if_pos hget], hfk⟩
  next id' hget =>
    split_ifs at hplace with hmine
    · obtain ⟨x, hx, hplace⟩ := Js.bind_eq_ok.mp hplace
      obtain ⟨rfl, rfl⟩ := Prod.ext_iff.mp (Except.ok.inj hplace)
      exact ⟨_, _, .overwritten hget hmine hx, rfl, by rw [if_neg (by simp [hget])], hfk⟩
    · obtain ⟨rfl, rfl⟩ := Prod.ext_iff.mp (Except.ok.inj hplace)
      exact ⟨_, _, .passed hget hmine, rfl, by rw [if_neg (by simp [hget])], hfk⟩

/-! The keys and references are kept. -/

theorem Db.WF.link (wf : db.WF) (hfk : (∀ f ∈ db.flows, linkable db c f = false) ∨ (db.findContract id).isSome) :
    (db.link c id).WF := by
  refine ⟨wf.ids, wf.nos, wf.fresh, ?_, fun f hf => ?_, fun f hf cid hcid => ?_, fun f hf p hp => ?_, wf.client⟩
  · have hsame : (db.link c id).flows.map (fun f => f.id) = db.flows.map fun f => f.id := by
      unfold Db.link
      rw [List.map_map]
      refine List.map_congr_left fun f _ => ?_
      rw [Function.comp_apply]
      split_ifs <;> rfl
    rw [hsame]
    exact wf.flowIds
  · obtain ⟨f₀, hf₀, hid, -⟩ := mem_link_cases hf
    rw [hid]
    exact wf.flowFresh f₀ hf₀
  · obtain ⟨f₀, hf₀, -, -, ⟨hlinkable, hlinked⟩ | hsame⟩ := mem_link_cases hf
    · have hsome := hfk.resolve_left fun hnone => Bool.false_ne_true ((hnone f₀ hf₀).symm.trans hlinkable)
      obtain ⟨card, hcard⟩ := Option.isSome_iff_exists.mp hsome
      obtain ⟨hmem, hid⟩ := mem_of_findContract hcard
      rw [hlinked, Option.some.injEq] at hcid
      exact ⟨card, hmem, hid.trans hcid⟩
    · exact wf.flowContract f₀ hf₀ cid (hsame ▸ hcid)
  · obtain ⟨f₀, hf₀, -, hpayer, -⟩ := mem_link_cases hf
    exact wf.flowPayer f₀ hf₀ p (hpayer ▸ hp)

theorem Db.WF.insertCard (wf : db.WF) (hid : card.id = db.nextId)
    (hno : ∀ old ∈ db.contracts, old.contractNo ≠ card.contractNo)
    (hclient : ∀ p, card.clientId = some p → ∃ e ∈ db.entities, e.id = p) : (db.insertCard card).WF := by
  have hlt : db.nextId < (db.insertCard card).nextId := Nat.lt_succ_self _
  refine ⟨?_, ?_, ?_, wf.flowIds, fun f hf => (wf.flowFresh f hf).trans hlt, fun f hf cid hcid => ?_, wf.flowPayer, ?_⟩
  · refine Table.nodup_append_singleton wf.ids fun old hold hsame => ?_
    have := wf.fresh old hold
    omega
  · exact Table.nodup_append_singleton wf.nos hno
  · refine List.forall_mem_append.mpr ⟨fun old hold => (wf.fresh old hold).trans hlt, ?_⟩
    exact List.forall_mem_singleton.mpr (hid ▸ hlt)
  · obtain ⟨old, hold, hidOld⟩ := wf.flowContract f hf cid hcid
    exact ⟨old, List.mem_append_left _ hold, hidOld⟩
  · exact List.forall_mem_append.mpr ⟨wf.client, List.forall_mem_singleton.mpr hclient⟩

theorem Db.WF.overwriteCard (wf : db.WF) (hclient : ∀ p, x.clientId = some p → ∃ e ∈ db.entities, e.id = p) :
    (db.overwriteCard id source x).WF := by
  have hids : (db.overwriteCard id source x).contracts.map (fun c => c.id) = db.contracts.map fun c => c.id := by
    unfold Db.overwriteCard Table.update
    rw [List.map_map]
    refine List.map_congr_left fun card _ => ?_
    rw [Function.comp_apply]
    split_ifs <;> rfl
  have hnos : (db.overwriteCard id source x).contracts.map (fun c => c.contractNo) =
      db.contracts.map fun c => c.contractNo := by
    unfold Db.overwriteCard Table.update
    rw [List.map_map]
    refine List.map_congr_left fun card _ => ?_
    rw [Function.comp_apply]
    split_ifs <;> rfl
  refine ⟨hids ▸ wf.ids, hnos ▸ wf.nos, fun card' hcard' => ?_, wf.flowIds, wf.flowFresh, fun f hf cid hcid => ?_,
    wf.flowPayer, fun card' hcard' p hp => ?_⟩
  · obtain ⟨card, hcard, rfl⟩ := mem_overwriteCard.mp hcard'
    have := wf.fresh card hcard
    split_ifs <;> exact this
  · obtain ⟨card, hcard, hid⟩ := wf.flowContract f hf cid hcid
    refine ⟨_, mem_overwriteCard.mpr ⟨card, hcard, rfl⟩, ?_⟩
    split_ifs <;> exact hid
  · obtain ⟨card, hcard, rfl⟩ := mem_overwriteCard.mp hcard'
    split_ifs at hp
    · exact hclient p hp
    · exact wf.client card hcard p hp

theorem mem_deleteContract {f : MoneyFlow} : f ∈ (db.deleteContract id).flows ↔ ∃ f₀ ∈ db.flows, f = f₀.freed id := by
  unfold Db.deleteContract
  rw [List.mem_map]
  exact exists_congr fun f₀ => and_congr_right fun _ => eq_comm

@[simp] theorem freed_id {f : MoneyFlow} : (f.freed id).id = f.id := by
  unfold MoneyFlow.freed
  split_ifs <;> rfl

@[simp] theorem freed_counterpartyId {f : MoneyFlow} : (f.freed id).counterpartyId = f.counterpartyId := by
  unfold MoneyFlow.freed
  split_ifs <;> rfl

theorem freed_contractId {f : MoneyFlow} {cid : ℕ} :
    (f.freed id).contractId = some cid ↔ f.contractId = some cid ∧ cid ≠ id := by
  unfold MoneyFlow.freed
  split_ifs with h
  · simp only [false_iff]
    exact fun ⟨hcid, hne⟩ => hne (Option.some.inj (hcid.symm.trans h))
  · exact ⟨fun hcid => ⟨hcid, fun hid => h (hid ▸ hcid)⟩, And.left⟩

theorem Db.WF.deleteContract (wf : db.WF) : (db.deleteContract id).WF := by
  have hflowIds : (db.deleteContract id).flows.map (fun f => f.id) = db.flows.map fun f => f.id := by
    unfold Db.deleteContract
    rw [List.map_map]
    exact List.map_congr_left fun f _ => freed_id
  refine ⟨wf.ids.sublist (List.filter_sublist.map _), wf.nos.sublist (List.filter_sublist.map _),
    fun card hcard => wf.fresh card (List.mem_of_mem_filter hcard), hflowIds ▸ wf.flowIds, fun f hf => ?_,
    fun f hf cid hcid => ?_, fun f hf p hp => ?_, fun card hcard => wf.client card (List.mem_of_mem_filter hcard)⟩
  · obtain ⟨f₀, hf₀, rfl⟩ := mem_deleteContract.mp hf
    rw [freed_id]
    exact wf.flowFresh f₀ hf₀
  · obtain ⟨f₀, hf₀, rfl⟩ := mem_deleteContract.mp hf
    obtain ⟨hcid, hne⟩ := freed_contractId.mp hcid
    obtain ⟨card, hcard, rfl⟩ := wf.flowContract f₀ hf₀ cid hcid
    exact ⟨card, List.mem_filter.mpr ⟨hcard, by simpa using hne⟩, rfl⟩
  · obtain ⟨f₀, hf₀, rfl⟩ := mem_deleteContract.mp hf
    rw [freed_counterpartyId] at hp
    exact wf.flowPayer f₀ hf₀ p hp

/-! The transaction: what the numbers of the batch are looked up in stays true to the cards. -/

structure ContractsRun.Sound (nos : List String) (s : ContractsRun) : Prop where
  wf : s.db.WF
  unknown : ∀ no ∈ nos, OrderedMap.get s.idByNo no = none → ∀ card ∈ s.db.contracts, card.contractNo ≠ no

variable {nos : List String}

theorem Placed.sound {db' : Db} (h : Placed source mineIds s c db' id) (hs : s.Sound nos)
    (hno : Js.trim c.contractNo ∈ nos) : db'.WF := by
  cases h with
  | inserted hget hx =>
    refine hs.wf.insertCard rfl (hs.unknown _ hno hget) fun p hp => mem_of_clientOf (c := c) ?_
    exact (fieldsOf_clientId hx).symm.trans hp
  | overwritten hget hmine hx =>
    exact hs.wf.overwriteCard fun p hp => mem_of_clientOf (c := c) ((fieldsOf_clientId hx).symm.trans hp)
  | passed => exact hs.wf

/-- A card after the row is one of before, with its number, or the new one. -/
theorem Placed.contractNo {db' : Db} (h : Placed source mineIds s c db' id) {card' : Contract}
    (hcard' : card' ∈ db'.contracts) :
    (∃ card ∈ s.db.contracts, card'.contractNo = card.contractNo) ∨
      card'.contractNo = Js.trim c.contractNo ∧ OrderedMap.get s.idByNo (Js.trim c.contractNo) = none := by
  cases h with
  | inserted hget hx =>
    rcases List.mem_append.mp hcard' with hold | hnew
    · exact .inl ⟨card', hold, rfl⟩
    · exact .inr ⟨by rw [List.mem_singleton.mp hnew]; rfl, hget⟩
  | overwritten hget hmine hx =>
    obtain ⟨card, hcard, rfl⟩ := mem_overwriteCard.mp hcard'
    refine .inl ⟨card, hcard, ?_⟩
    split_ifs <;> rfl
  | passed => exact .inl ⟨card', hcard', rfl⟩

theorem importRow_sound (h : importRow source mineIds s c = .ok s') (hs : s.Sound nos)
    (hno : Js.trim c.contractNo ∈ nos) : s'.Sound nos := by
  obtain ⟨db', id, hplaced, hdb, hidByNo, hfk⟩ := importRow_eq_ok h
  refine ⟨hdb ▸ (hplaced.sound hs hno).link hfk, fun no hmem hget card' hcard' => ?_⟩
  rw [hidByNo] at hget
  rw [hdb, link_contracts] at hcard'
  split_ifs at hget with hnew
  · rw [OrderedMap.get_set] at hget
    split_ifs at hget with hne
    rcases hplaced.contractNo hcard' with ⟨card, hcard, hsame⟩ | ⟨hsame, -⟩
    · exact hsame ▸ hs.unknown no hmem hget card hcard
    · exact hsame ▸ hne
  · rcases hplaced.contractNo hcard' with ⟨card, hcard, hsame⟩ | ⟨-, hnone⟩
    · exact hsame ▸ hs.unknown no hmem hget card hcard
    · exact absurd hnone hnew

theorem removeStale_eq_ok (h : removeStale s card = .ok s') :
    s'.idByNo = s.idByNo ∧ (s'.db = s.db ∨ s'.db = s.db.deleteContract card.id) := by
  unfold removeStale at h
  split_ifs at h
  · obtain rfl := Except.ok.inj h
    exact ⟨rfl, .inl rfl⟩
  · obtain ⟨_, -, h⟩ := Js.bind_eq_ok.mp h
    obtain rfl := Except.ok.inj h
    exact ⟨rfl, .inr rfl⟩

theorem removeStale_sound (h : removeStale s card = .ok s') (hs : s.Sound nos) : s'.Sound nos := by
  obtain ⟨hidByNo, hdb | hdb⟩ := removeStale_eq_ok h
  · exact ⟨hdb ▸ hs.wf, fun no hno hget => hdb ▸ hs.unknown no hno (hidByNo ▸ hget)⟩
  · refine ⟨hdb ▸ hs.wf.deleteContract, fun no hno hget card' hcard' => ?_⟩
    rw [hdb] at hcard'
    exact hs.unknown no hno (hidByNo ▸ hget) card' (List.mem_of_mem_filter hcard')

end Mydon.Registry
