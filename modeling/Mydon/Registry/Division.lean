import Mydon.Registry.Batches

/-! An export cut into batches. What the last batch takes away could as well be taken away before the first one, where
the earlier batches want no money that stands on it; and an export that is sent again finds everything in its place. -/

namespace Mydon.Registry

open Mydon.Lib Mydon.Finance

variable {db db' : Db} {source : String} {c : ImportContract} {card : Contract} {x : Fields} {id : ℕ}
  {rows : List ImportContract} {keep : List String} {ids : List ℕ}

/-! Rows and removals commute. -/

theorem link_remove (hid : id ∉ ids)
    (hmoney : ∀ f ∈ db.flows, ∀ old ∈ ids, f.contractId = some old → names db c f = false) :
    (db.link c id).remove ids = (db.remove ids).link c id := by
  unfold Db.link Db.remove
  congr 1
  rw [List.map_map, List.map_map]
  refine List.map_congr_left fun f hf => ?_
  rw [Function.comp_apply, Function.comp_apply]
  rcases hon : f.contractId with _ | old
  · by_cases hnames : names db c f = true
    · have hnames' : ∀ contracts flows, names { db with contracts := contracts, flows := flows } c f = true := fun _ _ => hnames
      simp [linkable, MoneyFlow.linkedTo, hon, hnames, hnames', hid]
    · have hnames' : ∀ contracts flows, names { db with contracts := contracts, flows := flows } c f = false :=
        fun _ _ => Bool.not_eq_true _ ▸ hnames
      simp [linkable, hon, hnames, hnames']
  · by_cases hold : old ∈ ids
    · have hnames : ∀ contracts flows, names { db with contracts := contracts, flows := flows } c
          { f with contractId := none } = false := fun _ _ => hmoney f hf old hold hon
      simp [linkable, hon, hold, hnames]
    · simp [linkable, hon, hold]

theorem insertCard_remove (hid : card.id ∉ ids) : (db.insertCard card).remove ids = (db.remove ids).insertCard card := by
  unfold Db.insertCard Db.remove
  rw [List.filter_append, List.filter_cons_of_pos (by simpa using hid), List.filter_nil]

theorem overwriteCard_remove : (db.overwriteCard id source x).remove ids = (db.remove ids).overwriteCard id source x := by
  unfold Db.overwriteCard Db.remove Table.update
  congr 1
  rw [List.filter_map]
  congr 1
  refine List.filter_congr fun card _ => ?_
  rw [Function.comp_apply]
  split_ifs <;> rfl

/-- What is taken away is of no use for the rows of the export. -/
structure Spared (keep : List String) (rows : List ImportContract) (ids : List ℕ) (db : Db) : Prop where
  cards : ∀ card ∈ db.contracts, card.id ∈ ids → card.contractNo ∉ keep
  fresh : ∀ id ∈ ids, id < db.nextId
  money : ∀ f ∈ db.flows, ∀ id ∈ ids, f.contractId = some id → ∀ c ∈ rows, names db c f = false

theorem place_remove (wf : db.WF) (hvalid : c.Valid) (hs : Spared keep rows ids db) (hc : c ∈ rows) (hkeep : c.no ∈ keep) :
    (db.remove ids).place source c = (db.place source c).remove ids := by
  have hmoney : ∀ f ∈ db.flows, ∀ old ∈ ids, f.contractId = some old → names db c f = false :=
    fun f hf old hold hon => hs.money f hf old hold hon c hc
  have hnext : db.nextId ∉ ids := fun hmem => (hs.fresh _ hmem).ne rfl
  have hno : ∀ card ∈ db.contracts, card.contractNo = c.no → card.id ∉ ids :=
    fun card hcard hsame hmem => hs.cards card hcard hmem (hsame ▸ hkeep)
  obtain ⟨x, hx⟩ := hvalid.fields db
  have hx' : fieldsOf (db.remove ids) c = .ok x := (fieldsOf_congr rfl c).trans hx
  unfold Db.place
  rw [hx, hx', findByNo_remove hno]
  rcases hfind : db.findByNo c.no with _ | card
  · dsimp only
    have hinserted : (db.insertCard (newCard db source c.no x)).remove ids =
        (db.remove ids).insertCard (newCard db source c.no x) := insertCard_remove hnext
    rw [@link_remove (db.insertCard (newCard db source c.no x)) c db.nextId ids hnext hmoney, hinserted]
    rfl
  · obtain ⟨hcard, hsame⟩ := (findByNo_eq_some wf).mp hfind
    dsimp only
    split_ifs
    · rw [@link_remove (db.overwriteCard card.id source x) c card.id ids (hno card hcard hsame) hmoney, overwriteCard_remove]
    · rw [link_remove (hno card hcard hsame) hmoney]

/-- The cards after a row: those of before, by id and number, and the new one. -/
theorem mem_place_contracts (wf : db.WF) (hvalid : c.Valid) (h : card ∈ (db.place source c).contracts) :
    (∃ old ∈ db.contracts, card.id = old.id ∧ card.contractNo = old.contractNo) ∨
      card.id = db.nextId ∧ card.contractNo = c.no := by
  obtain ⟨x, -, ⟨-, hplace⟩ | ⟨old, -, -, ⟨-, hplace⟩ | ⟨-, hplace⟩⟩⟩ := place_cases source wf hvalid
  · rw [hplace, link_contracts] at h
    rcases List.mem_append.mp h with hold | hnew
    · exact .inl ⟨card, hold, rfl, rfl⟩
    · rw [List.mem_singleton.mp hnew]
      exact .inr ⟨rfl, rfl⟩
  · rw [hplace, link_contracts, mem_overwriteCard] at h
    obtain ⟨old, hold, rfl⟩ := h
    refine .inl ⟨old, hold, ?_⟩
    split_ifs <;> exact ⟨rfl, rfl⟩
  · rw [hplace, link_contracts] at h
    exact .inl ⟨card, h, rfl, rfl⟩

/-- The flows after a row: as before, or linked to the row's card. -/
theorem mem_place_flows (wf : db.WF) (hvalid : c.Valid) {f : MoneyFlow} (h : f ∈ (db.place source c).flows) :
    ∃ f₀ ∈ db.flows, f.docNo = f₀.docNo ∧ f.counterpartyId = f₀.counterpartyId ∧
      (f.contractId = f₀.contractId ∧ linkable db c f₀ = false ∨ linkable db c f₀ = true ∧
        ∃ id, f.contractId = some id ∧ (id = db.nextId ∨ ∃ card ∈ db.contracts, card.contractNo = c.no ∧ card.id = id)) := by
  have hlink : ∀ (db₁ : Db) (id : ℕ), db₁.flows = db.flows → db₁.entities = db.entities →
      (id = db.nextId ∨ ∃ card ∈ db.contracts, card.contractNo = c.no ∧ card.id = id) → f ∈ (db₁.link c id).flows →
      ∃ f₀ ∈ db.flows, f.docNo = f₀.docNo ∧ f.counterpartyId = f₀.counterpartyId ∧
        (f.contractId = f₀.contractId ∧ linkable db c f₀ = false ∨ linkable db c f₀ = true ∧
          ∃ id, f.contractId = some id ∧
            (id = db.nextId ∨ ∃ card ∈ db.contracts, card.contractNo = c.no ∧ card.id = id)) := by
    intro db₁ id hflows hentities hid hf
    obtain ⟨f₀, hf₀, rfl⟩ := mem_link.mp hf
    have hsame : linkable db₁ c f₀ = linkable db c f₀ := by
      unfold linkable
      rw [names_congr hentities]
    refine ⟨f₀, hflows ▸ hf₀, ?_⟩
    rw [hsame]
    split_ifs with hlinkable
    · exact ⟨rfl, rfl, .inr ⟨hlinkable, id, rfl, hid⟩⟩
    · exact ⟨rfl, rfl, .inl ⟨rfl, Bool.not_eq_true _ ▸ hlinkable⟩⟩
  obtain ⟨x, -, ⟨-, hplace⟩ | ⟨old, hold, hno, ⟨-, hplace⟩ | ⟨-, hplace⟩⟩⟩ := place_cases source wf hvalid
  · rw [hplace] at h
    exact hlink (db.insertCard _) _ rfl rfl (.inl rfl) h
  · rw [hplace] at h
    exact hlink (db.overwriteCard _ _ _) _ rfl rfl (.inr ⟨old, hold, hno, rfl⟩) h
  · rw [hplace] at h
    exact hlink db _ rfl rfl (.inr ⟨old, hold, hno, rfl⟩) h

theorem Spared.place (hs : Spared keep rows ids db) (wf : db.WF) (hvalid : c.Valid) (hkeep : c.no ∈ keep) :
    Spared keep rows ids (db.place source c) := by
  have hnext : db.nextId ∉ ids := fun hmem => (hs.fresh _ hmem).ne rfl
  refine ⟨fun card hcard hid => ?_, fun id hid => (hs.fresh id hid).trans_le nextId_le_place, fun f hf id hid hon c' hc' => ?_⟩
  · rcases mem_place_contracts wf hvalid hcard with ⟨old, hold, hsame, hno⟩ | ⟨hsame, -⟩
    · rw [hno]
      exact hs.cards old hold (hsame ▸ hid)
    · exact absurd (hsame ▸ hid) hnext
  · rw [names_congr place_entities]
    obtain ⟨f₀, hf₀, hdocNo, hpayer, ⟨hsame, -⟩ | ⟨-, id', hid', hnew | ⟨card, hcard, hno, hidCard⟩⟩⟩ :=
      mem_place_flows wf hvalid hf
    · have hnames : names db c' f = names db c' f₀ := by
        unfold names
        rw [hdocNo, hpayer]
      rw [hnames]
      exact hs.money f₀ hf₀ id hid (hsame ▸ hon) c' hc'
    · obtain rfl : id = id' := Option.some.inj (hon.symm.trans hid')
      exact absurd (hnew ▸ hid) hnext
    · obtain rfl : id = id' := Option.some.inj (hon.symm.trans hid')
      exact absurd (hno ▸ hkeep) (hs.cards card hcard (hidCard ▸ hid))

theorem foldl_place_wf (wf : db.WF) (hvalid : ∀ c ∈ rows, c.Valid) : (rows.foldl (Db.place source) db).WF := by
  induction rows generalizing db with
  | nil => exact wf
  | cons c rows ih =>
    rw [List.foldl_cons]
    exact ih (place_wf wf (hvalid c List.mem_cons_self)) fun c' hc' => hvalid c' (List.mem_cons_of_mem _ hc')

theorem foldl_place_imports : (rows.foldl (Db.place source) db).imports = db.imports := by
  induction rows generalizing db with
  | nil => rfl
  | cons c rows ih => rw [List.foldl_cons, ih, place_imports]

/-- Whatever is spared by the rows may go before them or after them. -/
theorem foldl_place_remove {todo : List ImportContract} (wf : db.WF) (hvalid : ∀ c ∈ todo, c.Valid)
    (hs : Spared keep rows ids db) (hrows : ∀ c ∈ todo, c ∈ rows) (hkeep : ∀ c ∈ todo, c.no ∈ keep) :
    todo.foldl (Db.place source) (db.remove ids) = (todo.foldl (Db.place source) db).remove ids := by
  induction todo generalizing db with
  | nil => rfl
  | cons c todo ih =>
    have hc := hvalid c List.mem_cons_self
    have hno := hkeep c List.mem_cons_self
    rw [List.foldl_cons, List.foldl_cons, place_remove wf hc hs (hrows c List.mem_cons_self) hno]
    exact ih (place_wf wf hc) (fun c' hc' => hvalid c' (List.mem_cons_of_mem _ hc')) (hs.place wf hc hno)
      (fun c' hc' => hrows c' (List.mem_cons_of_mem _ hc')) fun c' hc' => hkeep c' (List.mem_cons_of_mem _ hc')

/-! What is stale, and whether the cleanup is called off. -/

theorem filter_map_of_fixed {α : Type} {g : α → α} {p : α → Bool} {items : List α}
    (h : ∀ a ∈ items, g a = a ∨ p (g a) = false ∧ p a = false) : (items.map g).filter p = items.filter p := by
  induction items with
  | nil => rfl
  | cons a items ih =>
    rw [List.map_cons, List.filter_cons, List.filter_cons, ih fun b hb => h b (List.mem_cons_of_mem _ hb)]
    rcases h a List.mem_cons_self with hsame | ⟨hafter, hbefore⟩
    · rw [hsame]
    · rw [hafter, hbefore, if_neg Bool.false_ne_true, if_neg Bool.false_ne_true]

theorem stale_place (wf : db.WF) (hvalid : c.Valid) (hkeep : c.no ∈ keep) :
    (db.place source c).stale source keep = db.stale source keep := by
  unfold Db.stale Db.mine
  rw [List.filter_filter, List.filter_filter]
  obtain ⟨x, -, ⟨-, hplace⟩ | ⟨card, hcard, hno, ⟨-, hplace⟩ | ⟨-, hplace⟩⟩⟩ := place_cases source wf hvalid
  · rw [hplace, link_contracts]
    unfold Db.insertCard
    rw [List.filter_append, List.filter_cons_of_neg (by simp [newCard, hkeep]), List.filter_nil,
      List.append_nil]
  · rw [hplace, link_contracts]
    refine filter_map_of_fixed fun card' hcard' => ?_
    by_cases hid : card'.id = card.id
    · have hkept : card'.contractNo ∈ keep := by
        rw [Table.eq_of_key_eq wf.ids hcard' hcard hid, hno]
        exact hkeep
      simp [hid, hkept]
    · exact .inl (if_neg hid)
  · rw [hplace, link_contracts]

theorem length_mine_place (wf : db.WF) (hvalid : c.Valid) (hsource : like (ownPattern source) source.toList = true) :
    (db.mine source).length ≤ ((db.place source c).mine source).length := by
  unfold Db.mine
  obtain ⟨x, -, ⟨-, hplace⟩ | ⟨card, hcard, -, ⟨hown, hplace⟩ | ⟨-, hplace⟩⟩⟩ := place_cases source wf hvalid
  · rw [hplace, link_contracts]
    unfold Db.insertCard
    rw [List.filter_append, List.length_append]
    exact Nat.le_add_right _ _
  · rw [hplace, link_contracts]
    unfold Db.overwriteCard Table.update
    rw [List.filter_map, List.length_map]
    refine le_of_eq (congrArg List.length (List.filter_congr fun card' hcard' => ?_))
    rw [Function.comp_apply]
    split_ifs with hid
    · rw [Table.eq_of_key_eq wf.ids hcard' hcard hid, hown]
      exact hsource.symm
    · rfl
  · rw [hplace, link_contracts]

/-- The own cards are the stale ones, and some of those that the export names. -/
theorem length_mine_le (wf : db.WF) : (db.mine source).length ≤ (db.stale source keep).length + keep.length := by
  have hkept : ((db.mine source).filter fun m => m.contractNo ∈ keep).length ≤ keep.length := by
    rw [← List.length_map fun m : Contract => m.contractNo]
    refine (List.subperm_of_subset ?_ fun no hno => ?_).length_le
    · exact wf.nos.sublist ((List.filter_sublist.trans List.filter_sublist).map _)
    · obtain ⟨m, hm, rfl⟩ := List.mem_map.mp hno
      simpa using (List.mem_filter.mp hm).2
  have hsplit := List.length_eq_length_filter_add (l := db.mine source) fun m => m.contractNo ∈ keep
  have hstale : db.stale source keep = (db.mine source).filter fun m => !decide (m.contractNo ∈ keep) :=
    List.filter_congr fun m _ => decide_not
  rw [hstale]
  omega

theorem calledOff_iff : db.calledOff source keep = true ↔
    2 * keep.length < (db.mine source).length ∧ (db.mine source).length < 2 * (db.stale source keep).length ∧
      10 < (db.stale source keep).length := by
  unfold Db.calledOff lostSet
  simp only [Bool.and_eq_true, decide_eq_true_eq, and_assoc]

/-- A cleanup that was called off stays called off: what the rows add is named by the export. -/
theorem calledOff_of_grown (wf : db'.WF) (hstale : db'.stale source keep = db.stale source keep)
    (hmine : (db.mine source).length ≤ (db'.mine source).length) (h : db.calledOff source keep = true) :
    db'.calledOff source keep = true := by
  rw [calledOff_iff] at h ⊢
  have hbound := @length_mine_le db' source keep wf
  rw [hstale] at hbound ⊢
  omega

/-- What a series of rows leaves of the own cards. -/
structure Kept (source : String) (keep : List String) (db db' : Db) : Prop where
  stale : db'.stale source keep = db.stale source keep
  mine : (db.mine source).length ≤ (db'.mine source).length
  acts : db'.acts = db.acts
  units : db'.units = db.units

theorem kept_foldl (wf : db.WF) (hvalid : ∀ c ∈ rows, c.Valid) (hkeep : ∀ c ∈ rows, c.no ∈ keep)
    (hsource : like (ownPattern source) source.toList = true) : Kept source keep db (rows.foldl (Db.place source) db) := by
  induction rows generalizing db with
  | nil => exact ⟨rfl, le_rfl, rfl, rfl⟩
  | cons c rows ih =>
    have hc := hvalid c List.mem_cons_self
    have hrest := ih (@place_wf db source c wf hc) (fun c' hc' => hvalid c' (List.mem_cons_of_mem _ hc'))
      fun c' hc' => hkeep c' (List.mem_cons_of_mem _ hc')
    rw [List.foldl_cons]
    exact ⟨hrest.stale.trans (stale_place wf hc (hkeep c List.mem_cons_self)),
      (length_mine_place wf hc hsource).trans hrest.mine, hrest.acts.trans place_acts, hrest.units.trans place_units⟩

theorem Kept.worked (h : Kept source keep db db') (id : ℕ) : db'.worked id = db.worked id := by
  unfold Db.worked
  rw [h.acts, h.units]

theorem Kept.outdated (h : Kept source keep db db') (hoff : db'.calledOff source keep = db.calledOff source keep) :
    db'.outdated source keep = db.outdated source keep := by
  unfold Db.outdated
  rw [hoff, h.stale]
  simp only [h.worked]

/-! Rows that find everything in its place. -/

structure Settled (source : String) (c : ImportContract) (db : Db) : Prop where
  card : ∃ card ∈ db.contracts, card.contractNo = c.no ∧
    (isOwn source card = true → ∀ x, fieldsOf db c = .ok x → card.overwrite source x = card)
  flows : ∀ f ∈ db.flows, linkable db c f = false

theorem linkable_congr (h : db'.entities = db.entities) (f : MoneyFlow) : linkable db' c f = linkable db c f := by
  unfold linkable
  rw [names_congr h]

/-- No flow that a row names is left without a contract. -/
theorem not_linkable_link {f : MoneyFlow} (h : f ∈ (db.link c id).flows) : linkable db c f = false := by
  obtain ⟨f₀, -, rfl⟩ := mem_link.mp h
  split_ifs with hlinkable
  · rfl
  · exact Bool.not_eq_true _ ▸ hlinkable

theorem settled_place (wf : db.WF) (hvalid : c.Valid) : Settled source c (db.place source c) := by
  obtain ⟨x, hx, ⟨-, hplace⟩ | ⟨card, hcard, hno, ⟨-, hplace⟩ | ⟨hown, hplace⟩⟩⟩ :=
    place_cases source wf hvalid
  · rw [hplace]
    refine ⟨⟨newCard db source c.no x, List.mem_append_right _ (List.mem_singleton_self _), rfl, fun _ x' hx' => ?_⟩,
      fun f hf => @not_linkable_link (db.insertCard _) c _ f hf⟩
    obtain rfl : x = x' := Except.ok.inj (hx.symm.trans hx')
    rfl
  · rw [hplace]
    refine ⟨⟨card.overwrite source x, mem_overwriteCard.mpr ⟨card, hcard, (if_pos rfl).symm⟩, hno, fun _ x' hx' => ?_⟩,
      fun f hf => @not_linkable_link (db.overwriteCard _ _ _) c _ f hf⟩
    obtain rfl : x = x' := Except.ok.inj (hx.symm.trans hx')
    rfl
  · rw [hplace]
    exact ⟨⟨card, hcard, hno, fun hown' => absurd (hown.symm.trans hown') Bool.false_ne_true⟩,
      fun f hf => @not_linkable_link db c _ f hf⟩

/-- Rows of other numbers leave it settled. -/
theorem Settled.place {other : ImportContract} (h : Settled source c db) (wf : db.WF) (hvalid : other.Valid)
    (hne : c.no ≠ other.no) : Settled source c (db.place source other) := by
  obtain ⟨card, hcard, hno, hsame⟩ := h.card
  refine ⟨⟨card, (mem_place_of_ne wf hvalid (hno ▸ hne)).mpr hcard, hno, fun hown x hx => ?_⟩, fun f hf => ?_⟩
  · exact hsame hown x ((fieldsOf_congr place_entities c).symm.trans hx)
  · rw [linkable_congr place_entities]
    obtain ⟨f₀, hf₀, hdocNo, hpayer, ⟨hcontract, -⟩ | ⟨-, id, hid, -⟩⟩ := mem_place_flows wf hvalid hf
    · have hlinkable : linkable db c f = linkable db c f₀ := by
        unfold linkable names
        rw [hdocNo, hpayer, hcontract]
      rw [hlinkable]
      exact h.flows f₀ hf₀
    · unfold linkable
      simp [hid]

theorem Settled.foldl (h : Settled source c db) (wf : db.WF) (hvalid : ∀ c ∈ rows, c.Valid)
    (hne : c.no ∉ rows.map ImportContract.no) : Settled source c (rows.foldl (Db.place source) db) := by
  induction rows generalizing db with
  | nil => exact h
  | cons other rows ih =>
    rw [List.map_cons, List.mem_cons, not_or] at hne
    have hother := hvalid other List.mem_cons_self
    exact ih (h.place wf hother hne.1) (place_wf wf hother) (fun c' hc' => hvalid c' (List.mem_cons_of_mem _ hc')) hne.2

theorem settled_foldl (wf : db.WF) (hvalid : ∀ c ∈ rows, c.Valid) (hnd : (rows.map ImportContract.no).Nodup) :
    ∀ c ∈ rows, Settled source c (rows.foldl (Db.place source) db) := by
  induction rows generalizing db with
  | nil => exact List.forall_mem_nil _
  | cons c rows ih =>
    rw [List.map_cons, List.nodup_cons] at hnd
    have hc := hvalid c List.mem_cons_self
    have hrest : ∀ c' ∈ rows, c'.Valid := fun c' hc' => hvalid c' (List.mem_cons_of_mem _ hc')
    have hwf : (db.place source c).WF := place_wf wf hc
    exact List.forall_mem_cons.mpr ⟨(settled_place wf hc).foldl hwf hrest hnd.1, ih hwf hrest hnd.2⟩

theorem link_of_none_linkable (h : ∀ f ∈ db.flows, linkable db c f = false) : db.link c id = db := by
  unfold Db.link
  have hflows : db.flows.map (fun f => if linkable db c f then f.linkedTo id else f) = db.flows :=
    (List.map_congr_left fun f hf => if_neg (by simp [h f hf])).trans (List.map_id _)
  rw [hflows]

theorem Settled.quiet (h : Settled source c db) (wf : db.WF) (hvalid : c.Valid) : Quiet source db c := by
  obtain ⟨card, hcard, hno, hsame⟩ := h.card
  refine ⟨?_, fun hnone => findByNo_eq_none.mp hnone card hcard hno, h.flows⟩
  obtain ⟨x, hx, ⟨hnew, -⟩ | ⟨card', hcard', hno', ⟨hown, hplace⟩ | ⟨-, hplace⟩⟩⟩ :=
    place_cases source wf hvalid
  · exact absurd hno (hnew card hcard)
  · obtain rfl : card' = card := Table.eq_of_key_eq wf.nos hcard' hcard (hno'.trans hno.symm)
    have hover : db.overwriteCard card'.id source x = db := by
      unfold Db.overwriteCard Table.update
      have hcards : db.contracts.map (fun r => if r.id = card'.id then r.overwrite source x else r) = db.contracts := by
        refine (List.map_congr_left fun r hr => ?_).trans (List.map_id _)
        split_ifs with hid
        · rw [Table.eq_of_key_eq wf.ids hr hcard' hid]
          exact hsame hown x hx
        · rfl
      rw [hcards]
    rw [hplace, hover, link_of_none_linkable h.flows]
  · rw [hplace, link_of_none_linkable h.flows]

theorem foldl_place_of_quiet (h : ∀ c ∈ rows, Quiet source db c) : rows.foldl (Db.place source) db = db := by
  induction rows with
  | nil => rfl
  | cons c rows ih =>
    rw [List.foldl_cons, (h c List.mem_cons_self).place]
    exact ih fun c' hc' => h c' (List.mem_cons_of_mem _ hc')

/-! An export, sent in one payload or in several. -/

/-- A batch that is not the last one. -/
def batch (source : Option String) (rows : List ImportContract) : ImportPayload := ⟨source, [], [], rows, false, none⟩

/-- The last batch, with the numbers of the whole export. -/
def lastBatch (source : Option String) (rows : List ImportContract) (nos : List String) : ImportPayload :=
  ⟨source, [], [], rows, true, some nos⟩

def payloads (source : Option String) (init : List (List ImportContract)) (last : List ImportContract) :
    List ImportPayload :=
  init.map (batch source) ++ [lastBatch source last ((init.flatten ++ last).map ImportContract.contractNo)]

def sendAll (db : Db) : List ImportPayload → Db × List (Except Js.HttpError ImportSummary)
  | [] => (db, [])
  | p :: ps =>
    let sent := importGloberent db p
    let rest := sendAll sent.1 ps
    (rest.1, sent.2 :: rest.2)

/-- The name that the import gives to the source. -/
def nameOf (source : Option String) : String := (batch source []).sourceName

/-- The numbers that the last batch tells to keep. -/
def keptNos (rows : List ImportContract) : List String := keepOf (some (rows.map ImportContract.contractNo)) []

def Passed (r : Except Js.HttpError ImportSummary) : Prop := ∃ summary, r = .ok summary

/-- The import went through, and made, removed and linked nothing. -/
def Idle (r : Except Js.HttpError ImportSummary) : Prop :=
  ∃ summary, r = .ok summary ∧ summary.contracts.created = 0 ∧ summary.contracts.deleted = 0 ∧
    summary.contracts.flowsLinked = 0

variable {name : Option String} {init : List (List ImportContract)} {last : List ImportContract} {nos : List String}

theorem mem_keptNos (hvalid : ∀ c ∈ rows, c.Valid) {no : String} : no ∈ keptNos rows ↔ ∃ c ∈ rows, c.no = no := by
  unfold keptNos keepOf
  rw [OrderedMap.mem_keySet, List.mem_filter, Option.getD_some, List.map_map, List.mem_map]
  refine ⟨And.left, fun h => ⟨h, ?_⟩⟩
  obtain ⟨c, hc, rfl⟩ := h
  have hchecked := (hvalid c hc).checked
  unfold contractImportError at hchecked
  rw [decide_eq_true_eq]
  intro hempty
  rw [ImportContract.no] at hempty
  simp [hempty] at hchecked

theorem importMoney_batch {final : Bool} {keepNos : Option (List String)} :
    importMoney db ⟨name, [], [], rows, final, keepNos⟩ = (db, .ok (.zero, .zero)) := rfl

theorem importGloberent_batch (wf : db.WF) (hvalid : ∀ c ∈ rows, c.Valid) (hnd : (rows.map ImportContract.no).Nodup) :
    ∃ r, importGloberent db (batch name rows) = (rows.foldl (Db.place (nameOf name)) db, r) ∧ Passed r ∧
      ((∀ c ∈ rows, Quiet (nameOf name) db c) → Idle r) := by
  unfold importGloberent batch
  rw [importMoney_batch]
  dsimp only
  by_cases hrows : rows = []
  · rw [if_pos hrows, hrows]
    exact ⟨_, rfl, ⟨_, rfl⟩, fun _ => ⟨_, rfl, rfl, rfl, rfl⟩⟩
  · obtain ⟨count, himport, hdeleted, hquiet⟩ := @importContracts_place db (nameOf name) rows false none wf hvalid hnd
      (fun h => nomatch h) (fun h => nomatch h)
    rw [if_neg hrows, show ImportPayload.sourceName ⟨name, [], [], rows, false, none⟩ = nameOf name from rfl, himport]
    exact ⟨_, rfl, ⟨_, rfl⟩, fun hall => ⟨_, rfl, (hquiet hall).1, hdeleted, (hquiet hall).2⟩⟩

theorem importGloberent_lastBatch (wf : db.WF) (hvalid : ∀ c ∈ rows, c.Valid) (hnd : (rows.map ImportContract.no).Nodup)
    (hrows : rows ≠ []) (hkeep : ∀ c ∈ rows, c.no ∈ keepOf (some nos) [])
    (hfree : ∀ id ∈ db.outdated (nameOf name) (keepOf (some nos) []), some id ∉ db.imports) :
    ∃ r, importGloberent db (lastBatch name rows nos) =
        (rows.foldl (Db.place (nameOf name)) (db.remove (db.outdated (nameOf name) (keepOf (some nos) []))), r) ∧
      Passed r ∧ (db.outdated (nameOf name) (keepOf (some nos) []) = [] →
        (∀ c ∈ rows, Quiet (nameOf name) db c) → Idle r) := by
  unfold importGloberent lastBatch
  rw [importMoney_batch]
  dsimp only
  obtain ⟨count, himport, hdeleted, hquiet⟩ := @importContracts_place db (nameOf name) rows true (some nos) wf hvalid hnd
    (fun _ => hkeep) (fun _ => hfree)
  rw [if_neg hrows, show ImportPayload.sourceName ⟨name, [], [], rows, true, some nos⟩ = nameOf name from rfl, himport]
  refine ⟨_, rfl, ⟨_, rfl⟩, fun hnone hall => ?_⟩
  have hcleaned : db.cleaned (nameOf name) true (keepOf (some nos) rows) = db := by
    unfold Db.cleaned
    rw [if_pos rfl, show keepOf (some nos) rows = keepOf (some nos) [] from rfl, hnone, remove_nil]
  have hcounts := hquiet (hcleaned.symm ▸ hall)
  refine ⟨_, rfl, hcounts.1, hdeleted.trans ?_, hcounts.2⟩
  rw [if_pos rfl, show keepOf (some nos) rows = keepOf (some nos) [] from rfl, hnone]
  rfl

theorem sendAll_append (db : Db) (ps qs : List ImportPayload) :
    sendAll db (ps ++ qs) = ((sendAll (sendAll db ps).1 qs).1, (sendAll db ps).2 ++ (sendAll (sendAll db ps).1 qs).2) := by
  induction ps generalizing db with
  | nil => rfl
  | cons p ps ih =>
    rw [List.cons_append, sendAll, ih]
    rfl

theorem sendAll_batches (wf : db.WF) (hvalid : ∀ c ∈ init.flatten, c.Valid)
    (hnd : (init.flatten.map ImportContract.no).Nodup) :
    (sendAll db (init.map (batch name))).1 = init.flatten.foldl (Db.place (nameOf name)) db ∧
      (∀ r ∈ (sendAll db (init.map (batch name))).2, Passed r) ∧
      ((∀ c ∈ init.flatten, Quiet (nameOf name) db c) → ∀ r ∈ (sendAll db (init.map (batch name))).2, Idle r) := by
  induction init generalizing db with
  | nil => exact ⟨rfl, List.forall_mem_nil _, fun _ => List.forall_mem_nil _⟩
  | cons rows init ih =>
    rw [List.flatten_cons] at hvalid hnd ⊢
    rw [List.map_append, List.nodup_append] at hnd
    obtain ⟨hfirst, hrest⟩ := List.forall_mem_append.mp hvalid
    obtain ⟨r, hsend, hpassed, hidle⟩ := @importGloberent_batch db rows name wf hfirst hnd.1
    obtain ⟨hdb, hall, hidleAll⟩ := @ih (rows.foldl (Db.place (nameOf name)) db) (foldl_place_wf wf hfirst) hrest hnd.2.1
    rw [List.map_cons, sendAll, hsend]
    rw [List.foldl_append]
    refine ⟨hdb, List.forall_mem_cons.mpr ⟨hpassed, hall⟩, fun hquiet => ?_⟩
    obtain ⟨hquietFirst, hquietRest⟩ := List.forall_mem_append.mp hquiet
    have hsame := foldl_place_of_quiet hquietFirst
    refine List.forall_mem_cons.mpr ⟨hidle hquietFirst, hidleAll ?_⟩
    rw [hsame]
    exact hquietRest

/-! The law of an export that is cut into batches. -/

/-- The cards of the source that the export does not name, that nobody worked with, where the cleanup is made. -/
def Leaves (db : Db) (name : Option String) (rows : List ImportContract) (card : Contract) : Prop :=
  isOwn (nameOf name) card = true ∧ (∀ c ∈ rows, c.no ≠ card.contractNo) ∧ db.worked card.id = false ∧
    db.calledOff (nameOf name) (keptNos rows) = false

structure DivisionLaw (db : Db) (name : Option String) (init : List (List ImportContract)) (last : List ImportContract) :
    Prop where
  passed : ∀ r ∈ (sendAll db (payloads name init last)).2, Passed r
  whole : (sendAll db (payloads name init last)).1 = (sendAll db (payloads name [] (init.flatten ++ last))).1
  cards : ∀ card ∈ db.contracts, (∃ card' ∈ (sendAll db (payloads name init last)).1.contracts, card'.id = card.id) ↔
    ¬ Leaves db name (init.flatten ++ last) card
  again : (sendAll (sendAll db (payloads name init last)).1 (payloads name init last)).1 =
    (sendAll db (payloads name init last)).1
  idle : ∀ r ∈ (sendAll (sendAll db (payloads name init last)).1 (payloads name init last)).2, Idle r

theorem mem_outdated (wf : db.WF) (hvalid : ∀ c ∈ rows, c.Valid) (hcard : card ∈ db.contracts) :
    card.id ∈ db.outdated (nameOf name) (keptNos rows) ↔ Leaves db name rows card := by
  unfold Db.outdated Leaves
  split_ifs with hoff
  · simp [hoff]
  · rw [List.mem_map]
    have hkeep : card.contractNo ∉ keptNos rows ↔ ∀ c ∈ rows, c.no ≠ card.contractNo := by
      rw [mem_keptNos hvalid]
      push Not
      rfl
    constructor
    · rintro ⟨m, hm, hid⟩
      obtain ⟨hstale, hworked⟩ := List.mem_filter.mp hm
      obtain ⟨hmine, hno⟩ := List.mem_filter.mp hstale
      obtain ⟨hmem, hown⟩ := List.mem_filter.mp hmine
      obtain rfl : m = card := Table.eq_of_key_eq wf.ids hmem hcard hid
      exact ⟨hown, hkeep.mp (by simpa using hno), by simpa using hworked, Bool.not_eq_true _ ▸ hoff⟩
    · rintro ⟨hown, hno, hworked, -⟩
      refine ⟨card, List.mem_filter.mpr ⟨List.mem_filter.mpr ⟨List.mem_filter.mpr ⟨hcard, hown⟩, ?_⟩, ?_⟩, rfl⟩
      · simpa using hkeep.mpr hno
      · simp [hworked]

/-- Cards are not lost by rows, and new ones have new ids. -/
theorem exists_id_place (wf : db.WF) (hvalid : c.Valid) (hid : id < db.nextId) :
    (∃ card ∈ (db.place source c).contracts, card.id = id) ↔ ∃ card ∈ db.contracts, card.id = id := by
  constructor
  · rintro ⟨card, hcard, rfl⟩
    rcases mem_place_contracts wf hvalid hcard with ⟨old, hold, hsame, -⟩ | ⟨hnew, -⟩
    · exact ⟨old, hold, hsame.symm⟩
    · omega
  · rintro ⟨card, hcard, rfl⟩
    obtain ⟨x, -, ⟨-, hplace⟩ | ⟨old, -, -, ⟨-, hplace⟩ | ⟨-, hplace⟩⟩⟩ := place_cases source wf hvalid
    · rw [hplace, link_contracts]
      exact ⟨card, List.mem_append_left _ hcard, rfl⟩
    · rw [hplace, link_contracts]
      refine ⟨_, mem_overwriteCard.mpr ⟨card, hcard, rfl⟩, ?_⟩
      split_ifs <;> rfl
    · rw [hplace, link_contracts]
      exact ⟨card, hcard, rfl⟩

theorem exists_id_foldl (wf : db.WF) (hvalid : ∀ c ∈ rows, c.Valid) (hid : id < db.nextId) :
    (∃ card ∈ (rows.foldl (Db.place source) db).contracts, card.id = id) ↔ ∃ card ∈ db.contracts, card.id = id := by
  induction rows generalizing db with
  | nil => exact Iff.rfl
  | cons c rows ih =>
    have hc := hvalid c List.mem_cons_self
    rw [List.foldl_cons, ih (place_wf wf hc) (fun c' hc' => hvalid c' (List.mem_cons_of_mem _ hc'))
      (hid.trans_le nextId_le_place), exists_id_place wf hc hid]

/-- The batches are placed, what is outdated by then is removed, and the last batch is placed. -/
theorem sendAll_payloads (wf : db.WF) (hvalid : ∀ c ∈ init.flatten ++ last, c.Valid)
    (hnd : ((init.flatten ++ last).map ImportContract.no).Nodup) (hlast : last ≠ [])
    (hfree : ∀ id ∈ (init.flatten.foldl (Db.place (nameOf name)) db).outdated (nameOf name) (keptNos (init.flatten ++ last)),
      some id ∉ db.imports) :
    (sendAll db (payloads name init last)).1 = last.foldl (Db.place (nameOf name))
        ((init.flatten.foldl (Db.place (nameOf name)) db).remove
          ((init.flatten.foldl (Db.place (nameOf name)) db).outdated (nameOf name) (keptNos (init.flatten ++ last)))) ∧
      (∀ r ∈ (sendAll db (payloads name init last)).2, Passed r) ∧
      (db.outdated (nameOf name) (keptNos (init.flatten ++ last)) = [] →
        (∀ c ∈ init.flatten ++ last, Quiet (nameOf name) db c) → ∀ r ∈ (sendAll db (payloads name init last)).2, Idle r) := by
  obtain ⟨hfirst, hsecond⟩ := List.forall_mem_append.mp hvalid
  have hnds := hnd
  rw [List.map_append, List.nodup_append] at hnds
  obtain ⟨hdb, hpassed, hidle⟩ := @sendAll_batches db name init wf hfirst hnds.1
  have himports : (init.flatten.foldl (Db.place (nameOf name)) db).imports = db.imports := foldl_place_imports
  have hkeep : ∀ c ∈ last, c.no ∈ keptNos (init.flatten ++ last) := fun c hc =>
    (mem_keptNos hvalid).mpr ⟨c, List.mem_append_right _ hc, rfl⟩
  obtain ⟨r, hsend, hr, hidleLast⟩ := @importGloberent_lastBatch _ last name _ (foldl_place_wf wf hfirst) hsecond
    hnds.2.1 hlast hkeep (himports ▸ hfree)
  have hall : sendAll db (payloads name init last) = (_, _) := sendAll_append db (init.map (batch name)) _
  rw [hdb, sendAll, hsend] at hall
  rw [hall]
  refine ⟨rfl, List.forall_mem_append.mpr ⟨hpassed, List.forall_mem_singleton.mpr hr⟩, fun hnone hquiet => ?_⟩
  obtain ⟨hquietFirst, hquietLast⟩ := List.forall_mem_append.mp hquiet
  have hsame := foldl_place_of_quiet hquietFirst
  refine List.forall_mem_append.mpr ⟨hidle hquietFirst, List.forall_mem_singleton.mpr (hidleLast ?_ ?_)⟩
  · rw [hsame]
    exact hnone
  · rw [hsame]
    exact hquietLast

/-- After an export there is nothing left to take away. -/
theorem outdated_after (wf : db.WF) (hvalid : ∀ c ∈ rows, c.Valid) (hkeep : ∀ c ∈ rows, c.no ∈ keep)
    (hsource : like (ownPattern source) source.toList = true) :
    (rows.foldl (Db.place source) (db.remove (db.outdated source keep))).outdated source keep = [] := by
  have hkept := kept_foldl (@remove_wf db (db.outdated source keep) wf) hvalid hkeep hsource
  generalize hafter : rows.foldl (Db.place source) (db.remove (db.outdated source keep)) = after at hkept ⊢
  unfold Db.outdated
  split_ifs with hoff
  · rfl
  · rcases hbefore : db.calledOff source keep
    · rw [List.map_eq_nil_iff, List.filter_eq_nil_iff]
      intro m hm hfree
      rw [hkept.stale] at hm
      rw [hkept.worked] at hfree
      -- a stale card that is still there was not among those that nobody worked with
      obtain ⟨hmine, hno⟩ := List.mem_filter.mp hm
      obtain ⟨hmem, hown⟩ := List.mem_filter.mp hmine
      obtain ⟨hcard, hstays⟩ := List.mem_filter.mp hmem
      rw [decide_eq_true_eq] at hstays
      refine hstays ?_
      unfold Db.outdated
      rw [if_neg (by simp [hbefore])]
      refine List.mem_map.mpr ⟨m, List.mem_filter.mpr ⟨List.mem_filter.mpr ⟨List.mem_filter.mpr ⟨hcard, hown⟩, hno⟩, ?_⟩, rfl⟩
      exact hfree
    · have hnone : db.outdated source keep = [] := by
        unfold Db.outdated
        rw [if_pos hbefore]
      rw [hnone, remove_nil] at hkept hafter
      refine absurd (calledOff_of_grown ?_ hkept.stale hkept.mine hbefore) hoff
      exact hafter ▸ foldl_place_wf wf hvalid

theorem divisionLaw_of_spared (wf : db.WF) (hvalid : ∀ c ∈ init.flatten ++ last, c.Valid)
    (hnd : ((init.flatten ++ last).map ImportContract.no).Nodup) (hlast : last ≠ [])
    (hsource : like (ownPattern (nameOf name)) (nameOf name).toList = true)
    (hfree : ∀ id ∈ db.outdated (nameOf name) (keptNos (init.flatten ++ last)), some id ∉ db.imports)
    (hmoney : ∀ f ∈ db.flows, ∀ id ∈ db.outdated (nameOf name) (keptNos (init.flatten ++ last)),
      f.contractId = some id → ∀ c ∈ init.flatten, names db c f = false)
    (hguard : (sendAll db (init.map (batch name))).1.calledOff (nameOf name) (keptNos (init.flatten ++ last)) = true →
      db.calledOff (nameOf name) (keptNos (init.flatten ++ last)) = true) : DivisionLaw db name init last := by
  obtain ⟨hfirst, hsecond⟩ := List.forall_mem_append.mp hvalid
  have hnds := hnd
  rw [List.map_append, List.nodup_append] at hnds
  have hkeep : ∀ c ∈ init.flatten ++ last, c.no ∈ keptNos (init.flatten ++ last) := fun c hc =>
    (mem_keptNos hvalid).mpr ⟨c, hc, rfl⟩
  have hkeepFirst := (List.forall_mem_append.mp hkeep).1
  have hnonempty : init.flatten ++ last ≠ [] := fun h => hlast (List.append_eq_nil_iff.mp h).2
  -- the earlier batches leave the last one the same cards to take away
  have hout : (init.flatten.foldl (Db.place (nameOf name)) db).outdated (nameOf name) (keptNos (init.flatten ++ last)) =
      db.outdated (nameOf name) (keptNos (init.flatten ++ last)) := by
    have hkept := kept_foldl wf hfirst hkeepFirst hsource
    rw [(sendAll_batches wf hfirst hnds.1).1] at hguard
    exact hkept.outdated (Bool.eq_iff_iff.mpr ⟨hguard,
      calledOff_of_grown (foldl_place_wf wf hfirst) hkept.stale hkept.mine⟩)
  have hspared : Spared (keptNos (init.flatten ++ last)) init.flatten
      (db.outdated (nameOf name) (keptNos (init.flatten ++ last))) db := by
    refine ⟨fun card hcard hid hno => not_mem_outdated wf hcard hno hid, fun id hid => ?_, hmoney⟩
    unfold Db.outdated at hid
    split_ifs at hid
    · exact absurd hid List.not_mem_nil
    · obtain ⟨m, hm, rfl⟩ := List.mem_map.mp hid
      exact wf.fresh m (List.mem_of_mem_filter (List.mem_of_mem_filter (List.mem_of_mem_filter hm)))
  have hcut := @sendAll_payloads db name init last wf hvalid hnd hlast (hout ▸ hfree)
  have hwhole := @sendAll_payloads db name [] (init.flatten ++ last) wf hvalid hnd hnonempty hfree
  have hsame : (sendAll db (payloads name init last)).1 = (init.flatten ++ last).foldl (Db.place (nameOf name))
      (db.remove (db.outdated (nameOf name) (keptNos (init.flatten ++ last)))) := by
    rw [hcut.1, hout, List.foldl_append, ← foldl_place_remove wf hfirst hspared (fun c hc => hc) hkeepFirst]
  have hwf := @remove_wf db (db.outdated (nameOf name) (keptNos (init.flatten ++ last))) wf
  have hquiet : ∀ c ∈ init.flatten ++ last, Quiet (nameOf name) (sendAll db (payloads name init last)).1 c := by
    rw [hsame]
    exact fun c hc => (settled_foldl hwf hvalid hnd c hc).quiet (foldl_place_wf hwf hvalid) (hvalid c hc)
  have hnone : (sendAll db (payloads name init last)).1.outdated (nameOf name) (keptNos (init.flatten ++ last)) = [] := by
    rw [hsame]
    exact outdated_after wf hvalid hkeep hsource
  have hfixed : init.flatten.foldl (Db.place (nameOf name)) (sendAll db (payloads name init last)).1 =
      (sendAll db (payloads name init last)).1 :=
    foldl_place_of_quiet fun c hc => hquiet c (List.mem_append_left _ hc)
  have hwfAfter : (sendAll db (payloads name init last)).1.WF := hsame ▸ foldl_place_wf hwf hvalid
  have hagain := @sendAll_payloads _ name init last hwfAfter hvalid hnd hlast
    (by rw [hfixed, hnone]; exact List.forall_mem_nil _)
  refine ⟨hcut.2.1, ?_, fun card hcard => ?_, ?_, hagain.2.2 hnone hquiet⟩
  · rw [hsame]
    exact hwhole.1.symm
  · rw [hsame, exists_id_foldl hwf hvalid (wf.fresh card hcard), ← mem_outdated wf hvalid hcard]
    constructor
    · rintro ⟨card', hcard', hid⟩
      have hstays := (List.mem_filter.mp hcard').2
      rw [hid] at hstays
      simpa using hstays
    · exact fun hstays => ⟨card, List.mem_filter.mpr ⟨hcard, by simpa using hstays⟩, rfl⟩
  · rw [hagain.1, hfixed, hnone, remove_nil]
    exact foldl_place_of_quiet fun c hc => hquiet c (List.mem_append_right _ hc)

/-! An export of two contracts; an older card of the source holds the money of the first one. -/

def exportContract (no docNo : String) : ImportContract where
  contractNo := no
  contractDate := "2026-01-21"
  buyerName := "АГМК"
  buyerInn := none
  totalWithVat := 100
  totalVat := none
  status := none
  subject := none
  didoxRows := none
  didoxDuplicatesDropped := none
  extraDates := none
  invoicedTotal := none
  flowDocNos := [docNo]

theorem exportContract_valid {no docNo : String} (h : contractImportError (exportContract no docNo) = none) :
    (exportContract no docNo).Valid :=
  ⟨h, ⟨20474, show dateColumn "2026-01-21" = .ok 20474 by decide +kernel⟩,
    ⟨100, show Stock.numeric 18 2 100 = .ok 100 by decide +kernel⟩,
    ⟨0, show Stock.numeric 18 2 0 = .ok 0 by decide +kernel⟩⟩

def olderCard : Contract where
  id := 2
  contractNo := "GFH-01/0126"
  contractDate := 20474
  clientId := none
  totalWithVat := 100
  totalVat := 0
  status := .active
  buyer := .obj []
  sellerCompanyId := none
  docParams := .obj []
  createdFrom := some "Didox"

def heldInvoice : MoneyFlow where
  id := 3
  direction := .incoming
  amount := 100
  currency := "UZS"
  purpose := some "оплата"
  date := 0
  status := .actual
  category := some "sale"
  rate := none
  amountUzs := none
  counterpartyId := none
  docNo := some "СФ 2026-5"
  dueDate := none
  paidAt := some 0
  contractId := some 2
  importContractId := none
  unitId := none
  method := none
  isOfficial := true
  counterparty := none

def olderDb : Db := ⟨[], [], [olderCard], [heldInvoice], [], [], 10⟩

theorem olderDb_wf : olderDb.WF := by
  refine ⟨List.nodup_singleton _, List.nodup_singleton _, List.forall_mem_singleton.mpr (show 2 < 10 by decide),
    List.nodup_singleton _, List.forall_mem_singleton.mpr (show 3 < 10 by decide), ?_, ?_, ?_⟩
  · refine List.forall_mem_singleton.mpr fun id hid => ⟨olderCard, List.mem_singleton_self _, ?_⟩
    exact Option.some.inj hid
  · exact List.forall_mem_singleton.mpr fun id hid => nomatch hid
  · exact List.forall_mem_singleton.mpr fun id hid => nomatch hid

/-- The money is wanted by the last batch. -/
theorem divisionLaw_lastWants : DivisionLaw olderDb (some "Didox: реестр") [[exportContract "GFH-02/0126" "СФ 2026-6"]]
    [exportContract "GFH-03/0126" "СФ 2026-5"] := by
  refine divisionLaw_of_spared olderDb_wf ?_ (by decide +kernel) (List.cons_ne_nil _ _) (by decide +kernel)
    (by decide +kernel) (by decide +kernel) fun h => absurd h (by decide +kernel)
  exact List.forall_mem_cons.mpr ⟨exportContract_valid (by decide +kernel),
    List.forall_mem_singleton.mpr (exportContract_valid (by decide +kernel))⟩

/-- The first batch finds the money on a card that the last one takes away, and nobody comes back for it. -/
theorem divided_differently :
    ((sendAll olderDb (payloads (some "Didox: реестр") [[exportContract "GFH-02/0126" "СФ 2026-5"]]
        [exportContract "GFH-03/0126" "СФ 2026-6"])).1.flows.map fun f => f.contractId) = [none] ∧
      ((sendAll olderDb (payloads (some "Didox: реестр") [] [exportContract "GFH-02/0126" "СФ 2026-5",
        exportContract "GFH-03/0126" "СФ 2026-6"])).1.flows.map fun f => f.contractId) = [some 10] ∧
      ((sendAll olderDb (payloads (some "Didox: реестр") [] [exportContract "GFH-02/0126" "СФ 2026-5",
        exportContract "GFH-03/0126" "СФ 2026-6"])).1.contracts.map fun c => c.contractNo) =
          ["GFH-02/0126", "GFH-03/0126"] := by
  decide +kernel

end Mydon.Registry
