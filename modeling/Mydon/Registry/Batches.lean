import Mydon.Registry.Rows

/-! What a batch of valid rows does, told without the transaction: each row finds its card by the number in the
tables as they are, and what the cleanup takes away is taken away before or after the rows that do not use it. -/

namespace Mydon.Registry

open Mydon.Lib Mydon.Finance Mydon.Stock

variable {db db' : Db} {source : String} {mineIds : List ℕ} {s s' : ContractsRun} {c : ImportContract} {card : Contract}
  {x : Fields} {id : ℕ} {rows : List ImportContract} {keep : List String} {ids : List ℕ}

def ImportContract.no (c : ImportContract) : String := Js.trim c.contractNo

/-- The row passes its check, and its values fit their columns. -/
structure ImportContract.Valid (c : ImportContract) : Prop where
  checked : contractImportError c = none
  date : ∃ day, dateColumn c.contractDate = .ok day
  total : ∃ sum, numeric 18 2 c.totalWithVat = .ok sum
  vat : ∃ sum, numeric 18 2 (c.totalVat.getD 0) = .ok sum

theorem ImportContract.Valid.fields (h : c.Valid) (db : Db) : ∃ x, fieldsOf db c = .ok x := by
  obtain ⟨day, hday⟩ := h.date
  obtain ⟨total, htotal⟩ := h.total
  obtain ⟨vat, hvat⟩ := h.vat
  unfold fieldsOf
  rw [hday, htotal, hvat]
  exact ⟨_, rfl⟩

theorem clientOf_congr (h : db'.entities = db.entities) (c : ImportContract) : clientOf db' c = clientOf db c := by
  unfold clientOf Db.contractorByInn
  rw [h]

theorem fieldsOf_congr (h : db'.entities = db.entities) (c : ImportContract) : fieldsOf db' c = fieldsOf db c := by
  unfold fieldsOf
  rw [clientOf_congr h]

theorem names_congr (h : db'.entities = db.entities) (c : ImportContract) (f : MoneyFlow) :
    names db' c f = names db c f := by
  unfold names
  rw [clientOf_congr h]

/-- A row, on the tables alone. -/
def Db.place (source : String) (db : Db) (c : ImportContract) : Db :=
  match fieldsOf db c with
  | .error _ => db
  | .ok x =>
    match db.findByNo c.no with
    | none => (db.insertCard (newCard db source c.no x)).link c db.nextId
    | some card => if isOwn source card then (db.overwriteCard card.id source x).link c card.id else db.link c card.id

theorem findByNo_eq_some (wf : db.WF) {no : String} :
    db.findByNo no = some card ↔ card ∈ db.contracts ∧ card.contractNo = no :=
  @Table.lookup_eq_some_iff _ _ _ (fun c : Contract => c.contractNo) db.contracts card no wf.nos

theorem findByNo_eq_none {no : String} : db.findByNo no = none ↔ ∀ card ∈ db.contracts, card.contractNo ≠ no :=
  @Table.lookup_eq_none_iff _ _ _ (fun c : Contract => c.contractNo) db.contracts no

theorem isSome_findContract (h : card ∈ db.contracts) (hid : card.id = id) : (db.findContract id).isSome = true := by
  rcases hfind : db.findContract id
  · exact absurd hid (Table.lookup_eq_none_iff.mp hfind card h)
  · rfl

/-- The ways that a row is placed, as the tables tell them. -/
theorem place_cases (source : String) (wf : db.WF) (hvalid : c.Valid) : ∃ x, fieldsOf db c = .ok x ∧
    (((∀ card ∈ db.contracts, card.contractNo ≠ c.no) ∧
        db.place source c = (db.insertCard (newCard db source c.no x)).link c db.nextId) ∨
      ∃ card ∈ db.contracts, card.contractNo = c.no ∧
        (isOwn source card = true ∧ db.place source c = (db.overwriteCard card.id source x).link c card.id ∨
          isOwn source card = false ∧ db.place source c = db.link c card.id)) := by
  obtain ⟨x, hx⟩ := hvalid.fields db
  refine ⟨x, hx, ?_⟩
  unfold Db.place
  rw [hx]
  rcases hfind : db.findByNo c.no with _ | card
  · exact .inl ⟨findByNo_eq_none.mp hfind, rfl⟩
  · obtain ⟨hcard, hno⟩ := (findByNo_eq_some wf).mp hfind
    refine .inr ⟨card, hcard, hno, ?_⟩
    rcases hown : isOwn source card
    · exact .inr ⟨rfl, by simp [hown]⟩
    · exact .inl ⟨rfl, by simp [hown]⟩

@[simp] theorem place_entities : (db.place source c).entities = db.entities := by
  unfold Db.place
  split
  · rfl
  · split
    · rfl
    · split_ifs <;> rfl

@[simp] theorem place_acts : (db.place source c).acts = db.acts := by
  unfold Db.place
  split
  · rfl
  · split
    · rfl
    · split_ifs <;> rfl

@[simp] theorem place_units : (db.place source c).units = db.units := by
  unfold Db.place
  split
  · rfl
  · split
    · rfl
    · split_ifs <;> rfl

@[simp] theorem place_imports : (db.place source c).imports = db.imports := by
  unfold Db.place
  split
  · rfl
  · split
    · rfl
    · split_ifs <;> rfl

theorem nextId_le_place : db.nextId ≤ (db.place source c).nextId := by
  unfold Db.place
  split
  · exact le_rfl
  · split
    · exact Nat.le_succ _
    · split_ifs <;> exact le_rfl

theorem place_wf (wf : db.WF) (hvalid : c.Valid) : (db.place source c).WF := by
  obtain ⟨x, hx, ⟨hnew, hplace⟩ | ⟨card, hcard, -, ⟨-, hplace⟩ | ⟨-, hplace⟩⟩⟩ := place_cases source wf hvalid
  · rw [hplace]
    have hclient := fieldsOf_clientId hx
    have hinsert : (db.insertCard (newCard db source c.no x)).WF :=
      wf.insertCard rfl hnew fun p hp => mem_of_clientOf (c := c) (hclient.symm.trans hp)
    refine hinsert.link (.inr ?_)
    have hmem : newCard db source c.no x ∈ (db.insertCard (newCard db source c.no x)).contracts :=
      List.mem_append_right _ (List.mem_singleton_self _)
    exact isSome_findContract hmem rfl
  · rw [hplace]
    have hover : (db.overwriteCard card.id source x).WF :=
      wf.overwriteCard fun p hp => mem_of_clientOf (c := c) ((fieldsOf_clientId hx).symm.trans hp)
    have hmem : card.overwrite source x ∈ (db.overwriteCard card.id source x).contracts :=
      mem_overwriteCard.mpr ⟨card, hcard, (if_pos rfl).symm⟩
    exact hover.link (.inr (isSome_findContract hmem rfl))
  · rw [hplace]
    exact wf.link (.inr (isSome_findContract hcard rfl))

/-- Cards of other numbers are left. -/
theorem mem_place_of_ne (wf : db.WF) (hvalid : c.Valid) {card' : Contract} (hne : card'.contractNo ≠ c.no) :
    card' ∈ (db.place source c).contracts ↔ card' ∈ db.contracts := by
  obtain ⟨x, hx, ⟨hnew, hplace⟩ | ⟨card, hcard, hno, ⟨-, hplace⟩ | ⟨-, hplace⟩⟩⟩ :=
    place_cases source wf hvalid
  · rw [hplace, link_contracts]
    refine ⟨fun hmem => ?_, fun hmem => List.mem_append_left _ hmem⟩
    rcases List.mem_append.mp hmem with hold | hadded
    · exact hold
    · rw [List.mem_singleton.mp hadded] at hne
      exact absurd rfl hne
  · rw [hplace, link_contracts, mem_overwriteCard]
    constructor
    · rintro ⟨old, hold, rfl⟩
      split_ifs at hne ⊢ with hid
      · rw [Table.eq_of_key_eq wf.ids hold hcard hid] at hne
        exact absurd hno hne
      · exact hold
    · refine fun hmem => ⟨card', hmem, (if_neg fun hid => hne ?_).symm⟩
      rw [Table.eq_of_key_eq wf.ids hmem hcard hid]
      exact hno
  · rw [hplace, link_contracts]

theorem findByNo_place_of_ne (wf : db.WF) (hvalid : c.Valid) {no : String} (hne : no ≠ c.no) :
    (db.place source c).findByNo no = db.findByNo no := by
  rcases hfind : db.findByNo no with _ | card
  · rw [findByNo_eq_none] at hfind ⊢
    intro card hcard hno
    exact hfind card ((mem_place_of_ne wf hvalid (hno ▸ hne)).mp hcard) hno
  · obtain ⟨hcard, hno⟩ := (findByNo_eq_some wf).mp hfind
    exact (findByNo_eq_some (place_wf wf hvalid)).mpr ⟨(mem_place_of_ne wf hvalid (hno ▸ hne)).mpr hcard, hno⟩

/-! The rows of the transaction are placed one after another. -/

/-- What the transaction knows of the numbers that are still to come is true of the tables. -/
structure Coherent (source : String) (mineIds : List ℕ) (nos : List String) (s : ContractsRun) : Prop where
  wf : s.db.WF
  get : ∀ no ∈ nos, OrderedMap.get s.idByNo no = (s.db.findByNo no).map fun card => card.id
  mine : ∀ no ∈ nos, ∀ card, s.db.findByNo no = some card → (card.id ∈ mineIds ↔ isOwn source card = true)

variable {nos : List String}

/-- What a row adds to the counts. -/
structure Counted (db : Db) (c : ImportContract) (before after : ContractsCount) : Prop where
  created : after.created = before.created + if db.findByNo c.no = none then 1 else 0
  linked : after.flowsLinked = before.flowsLinked + (db.flows.filter (linkable db c)).length
  deleted : after.deleted = before.deleted

theorem linkFlows_of_isSome (h : (s.db.findContract id).isSome = true) : linkFlows s c id = .ok { s with
    db := s.db.link c id
    count.flowsLinked := s.count.flowsLinked + (s.db.flows.filter (linkable s.db c)).length } := by
  unfold linkFlows Js.require
  rw [h]
  dsimp only
  rw [if_pos (.inr rfl)]
  rfl

theorem importRow_place (hs : Coherent source mineIds (c.no :: nos) s) (hvalid : c.Valid) (hnot : c.no ∉ nos) :
    ∃ s', importRow source mineIds s c = .ok s' ∧ s'.db = s.db.place source c ∧ Coherent source mineIds nos s' ∧
      Counted s.db c s.count s'.count := by
  have hget := hs.get c.no List.mem_cons_self
  have hmine := hs.mine c.no List.mem_cons_self
  have hwf : (s.db.place source c).WF := place_wf hs.wf hvalid
  obtain ⟨x, hx⟩ := hvalid.fields s.db
  have hother : ∀ no ∈ nos, no ≠ c.no := fun no hno hsame => hnot (hsame ▸ hno)
  have hcoherent : ∀ s' : ContractsRun, s'.db = s.db.place source c →
      (∀ no ∈ nos, OrderedMap.get s'.idByNo no = OrderedMap.get s.idByNo no) → Coherent source mineIds nos s' := by
    intro s' hdb hidByNo
    refine ⟨hdb ▸ hwf, fun no hno => ?_, fun no hno card hfind => ?_⟩
    · rw [hidByNo no hno, hs.get no (List.mem_cons_of_mem _ hno), hdb, findByNo_place_of_ne hs.wf hvalid (hother no hno)]
    · rw [hdb, findByNo_place_of_ne hs.wf hvalid (hother no hno)] at hfind
      exact hs.mine no (List.mem_cons_of_mem _ hno) card hfind
  obtain ⟨x', hx', ⟨hnew, hplace⟩ | ⟨card, hcard, hno, hown⟩⟩ := place_cases source hs.wf hvalid
  · obtain rfl : x = x' := Except.ok.inj (hx.symm.trans hx')
    have hnone := findByNo_eq_none.mpr hnew
    rw [hnone] at hget
    have hmem : newCard s.db source c.no x ∈ (s.db.insertCard (newCard s.db source c.no x)).contracts :=
      List.mem_append_right _ (List.mem_singleton_self _)
    let s₁ : ContractsRun := { s with
      db := s.db.insertCard (newCard s.db source c.no x)
      idByNo := OrderedMap.set c.no s.db.nextId s.idByNo
      count.created := s.count.created + 1 }
    have hrow : importRow source mineIds s c = linkFlows s₁ c s.db.nextId := by
      unfold importRow placeCard
      dsimp only
      rw [show OrderedMap.get s.idByNo (Js.trim c.contractNo) = none from hget]
      rw [hx]
      rfl
    have hlinked := linkFlows_of_isSome (s := s₁) (c := c) (isSome_findContract hmem rfl)
    refine ⟨_, hrow.trans hlinked, hplace.symm, hcoherent _ hplace.symm ?_, ?_⟩
    · intro no hno
      rw [OrderedMap.get_set, if_neg (hother no hno).symm]
    · exact ⟨by rw [if_pos hnone], rfl, rfl⟩
  · have hfind := (findByNo_eq_some hs.wf).mpr ⟨hcard, hno⟩
    rw [hfind] at hget
    have hmineIff := hmine card hfind
    rcases hown with ⟨hown, hplace⟩ | ⟨hown, hplace⟩
    · have hmem : card.overwrite source x ∈ (s.db.overwriteCard card.id source x).contracts :=
        mem_overwriteCard.mpr ⟨card, hcard, (if_pos rfl).symm⟩
      obtain rfl : x = x' := Except.ok.inj (hx.symm.trans hx')
      let s₁ : ContractsRun := { s with
        db := s.db.overwriteCard card.id source x
        count.updated := s.count.updated + 1 }
      have hrow : importRow source mineIds s c = linkFlows s₁ c card.id := by
        unfold importRow placeCard
        dsimp only
        rw [show OrderedMap.get s.idByNo (Js.trim c.contractNo) = some card.id from hget]
        dsimp only
        rw [if_pos (hmineIff.mpr hown), hx]
        rfl
      have hlinked := linkFlows_of_isSome (s := s₁) (c := c) (isSome_findContract hmem rfl)
      refine ⟨_, hrow.trans hlinked, hplace.symm, hcoherent _ hplace.symm fun _ _ => rfl, ?_⟩
      exact ⟨by rw [if_neg (by simp [hfind])]; rfl, rfl, rfl⟩
    · let s₁ : ContractsRun := { s with count.skipped := s.count.skipped + 1 }
      have hrow : importRow source mineIds s c = linkFlows s₁ c card.id := by
        unfold importRow placeCard
        dsimp only
        rw [show OrderedMap.get s.idByNo (Js.trim c.contractNo) = some card.id from hget]
        dsimp only
        rw [if_neg fun hmem => by simp [hmineIff.mp hmem] at hown]
        rfl
      have hlinked := linkFlows_of_isSome (s := s₁) (c := c) (isSome_findContract hcard rfl)
      refine ⟨_, hrow.trans hlinked, hplace.symm, hcoherent _ hplace.symm fun _ _ => rfl, ?_⟩
      exact ⟨by rw [if_neg (by simp [hfind])]; rfl, rfl, rfl⟩

/-- A row that finds its card as it wants it, and nothing to link. -/
structure Quiet (source : String) (db : Db) (c : ImportContract) : Prop where
  place : db.place source c = db
  found : db.findByNo c.no ≠ none
  linked : ∀ f ∈ db.flows, linkable db c f = false

theorem importRows_place (hs : Coherent source mineIds (rows.map ImportContract.no) s) (hvalid : ∀ c ∈ rows, c.Valid)
    (hnd : (rows.map ImportContract.no).Nodup) : ∃ s', rows.foldlM (importRow source mineIds) s = .ok s' ∧
      s'.db = rows.foldl (Db.place source) s.db ∧ s'.count.deleted = s.count.deleted ∧
      ((∀ c ∈ rows, Quiet source s.db c) →
        s'.count.created = s.count.created ∧ s'.count.flowsLinked = s.count.flowsLinked) := by
  induction rows generalizing s with
  | nil => exact ⟨s, rfl, rfl, rfl, fun _ => ⟨rfl, rfl⟩⟩
  | cons c rows ih =>
    rw [List.map_cons, List.nodup_cons] at hnd
    obtain ⟨s₁, hrow, hdb, hs₁, hcounted⟩ := importRow_place hs (hvalid c List.mem_cons_self) hnd.1
    obtain ⟨s', hrows, hdb', hdeleted, hquiet⟩ := ih hs₁ (fun c' hc' => hvalid c' (List.mem_cons_of_mem _ hc')) hnd.2
    refine ⟨s', ?_, by rw [hdb', hdb]; rfl, hdeleted.trans hcounted.deleted, fun hall => ?_⟩
    · rw [List.foldlM_cons, hrow]
      exact hrows
    · have hfirst := hall c List.mem_cons_self
      have hsame : s₁.db = s.db := hdb.trans hfirst.place
      obtain ⟨hcreated, hlinked⟩ := hquiet fun c' hc' => hsame ▸ hall c' (List.mem_cons_of_mem _ hc')
      have hnone : s.db.flows.filter (linkable s.db c) = [] :=
        List.filter_eq_nil_iff.mpr fun f hf => by simp [hfirst.linked f hf]
      rw [hcreated, hlinked, hcounted.created, hcounted.linked, if_neg hfirst.found, hnone]
      exact ⟨rfl, rfl⟩

theorem filter_valid (hvalid : ∀ c ∈ rows, c.Valid) : (rows.filter fun c => contractImportError c = none) = rows :=
  List.filter_eq_self.mpr fun c hc => by simp [(hvalid c hc).checked]

theorem mem_mineIds (wf : db.WF) (hcard : card ∈ db.contracts) : card.id ∈ db.mineIds source ↔ isOwn source card = true := by
  unfold Db.mineIds Db.mine
  rw [List.mem_map]
  constructor
  · rintro ⟨card', hcard', hid⟩
    obtain ⟨hmem, hown⟩ := List.mem_filter.mp hcard'
    rwa [Table.eq_of_key_eq wf.ids hmem hcard hid] at hown
  · exact fun hown => ⟨card, List.mem_filter.mpr ⟨hcard, hown⟩, rfl⟩

theorem coherent_startContracts (wf : db.WF) (hvalid : ∀ c ∈ rows, c.Valid) :
    Coherent source (db.mineIds source) (rows.map ImportContract.no) (startContracts db rows) := by
  refine ⟨wf, fun no hno => ?_, fun no _ card hfind => mem_mineIds wf (Table.mem_of_lookup hfind)⟩
  unfold startContracts
  rw [filter_valid hvalid, OrderedMap.get_map_entries, List.find?_filter]
  congr 1
  unfold Db.findByNo Table.lookup
  refine congrArg (fun p => List.find? p db.contracts) (funext fun card => ?_)
  by_cases hcard : card.contractNo = no
  · have hmem : ∃ c ∈ rows, Js.trim c.contractNo = no := List.mem_map.mp hno
    simpa [hcard] using hmem
  · simp [hcard]

/-! The cleanup. -/

/-- The cards are taken away, and the flows on them are free. -/
def Db.remove (db : Db) (ids : List ℕ) : Db :=
  { db with
    flows := db.flows.map fun f => if f.contractId.any (· ∈ ids) then { f with contractId := none } else f
    contracts := db.contracts.filter fun c => c.id ∉ ids }

/-- The cards that a final batch takes away. -/
def Db.outdated (db : Db) (source : String) (keep : List String) : List ℕ :=
  if db.calledOff source keep then []
  else ((db.stale source keep).filter fun m => !db.worked m.id).map fun m => m.id

theorem remove_nil : db.remove [] = db := by
  unfold Db.remove
  have hflows : db.flows.map (fun f => if f.contractId.any (· ∈ ([] : List ℕ)) then { f with contractId := none } else f) =
      db.flows := by
    refine (List.map_congr_left fun f _ => ?_).trans (List.map_id _)
    rcases f.contractId <;> simp
  rw [hflows, List.filter_eq_self.mpr fun c _ => by simp]

theorem remove_cons : (db.deleteContract id).remove ids = db.remove (id :: ids) := by
  unfold Db.remove Db.deleteContract
  congr 1
  · rw [List.filter_filter]
    refine List.filter_congr fun card _ => ?_
    simp only [List.mem_cons, not_or]
    by_cases hid : card.id = id <;> simp [hid]
  · rw [List.map_map]
    refine List.map_congr_left fun f _ => ?_
    rw [Function.comp_apply]
    unfold MoneyFlow.freed
    by_cases hid : f.contractId = some id
    · simp [hid]
    · rw [if_neg hid]
      rcases hf : f.contractId with _ | cid
      · simp
      · have hne : cid ≠ id := fun h => hid (h ▸ hf)
        simp [hne]

/-- The stale cards that nobody worked with go, where the database allows it. -/
theorem removeStale_all (stale : List Contract)
    (hfree : ∀ m ∈ stale, s.db.worked m.id = false → some m.id ∉ s.db.imports) :
    ∃ s', stale.foldlM removeStale s = .ok s' ∧ s'.idByNo = s.idByNo ∧
      s'.db = s.db.remove ((stale.filter fun m => !s.db.worked m.id).map fun m => m.id) ∧
      s'.count.created = s.count.created ∧ s'.count.flowsLinked = s.count.flowsLinked ∧
      s'.count.deleted = s.count.deleted + (stale.filter fun m => !s.db.worked m.id).length := by
  induction stale generalizing s with
  | nil => exact ⟨s, rfl, rfl, remove_nil.symm, rfl, rfl, rfl⟩
  | cons m stale ih =>
    have htail : ∀ m' ∈ stale, s.db.worked m'.id = false → some m'.id ∉ s.db.imports :=
      fun m' hm' => hfree m' (List.mem_cons_of_mem _ hm')
    rcases hworked : s.db.worked m.id
    · let s₁ : ContractsRun := { s with db := s.db.deleteContract m.id, count.deleted := s.count.deleted + 1 }
      have hstep : removeStale s m = .ok s₁ := by
        unfold removeStale Js.require
        rw [hworked, if_neg Bool.false_ne_true, if_pos (hfree m List.mem_cons_self hworked)]
        rfl
      obtain ⟨s', hrest, hidByNo, hdb, hcreated, hlinked, hdeleted⟩ := ih (s := s₁) htail
      have hkept : (m :: stale).filter (fun m => !s.db.worked m.id) = m :: stale.filter fun m => !s.db.worked m.id :=
        List.filter_cons_of_pos (by simp [hworked])
      refine ⟨s', ?_, hidByNo, ?_, hcreated, hlinked, ?_⟩
      · rw [List.foldlM_cons, hstep]
        exact hrest
      · rw [hdb, hkept, List.map_cons, ← remove_cons]
        rfl
      · rw [hdeleted, hkept, List.length_cons]
        change s.count.deleted + 1 + (stale.filter fun m => !s.db.worked m.id).length = _
        omega
    · have hkept : (m :: stale).filter (fun m => !s.db.worked m.id) = stale.filter fun m => !s.db.worked m.id :=
        List.filter_cons_of_neg (by simp [hworked])
      rw [hkept, List.foldlM_cons]
      unfold removeStale
      rw [if_pos hworked]
      exact ih (s := { s with count.errors := s.count.errors ++
        ["«" ++ m.contractNo ++ "»: карточка устарела, но с ней работали — оставлена"] }) htail

theorem cleanUp_remove (hfree : ∀ id ∈ s.db.outdated source keep, some id ∉ s.db.imports) :
    ∃ s', cleanUp source keep s = .ok s' ∧ s'.idByNo = s.idByNo ∧ s'.db = s.db.remove (s.db.outdated source keep) ∧
      s'.count.created = s.count.created ∧ s'.count.flowsLinked = s.count.flowsLinked ∧
      s'.count.deleted = s.count.deleted + (s.db.outdated source keep).length := by
  unfold cleanUp
  unfold Db.outdated at hfree ⊢
  split_ifs at hfree ⊢ with hoff
  · exact ⟨_, rfl, rfl, remove_nil.symm, rfl, rfl, rfl⟩
  · rw [List.length_map]
    refine removeStale_all _ fun m hm hworked => hfree m.id ?_
    exact List.mem_map.mpr ⟨m, List.mem_filter.mpr ⟨hm, by simp [hworked]⟩, rfl⟩

theorem remove_wf (wf : db.WF) : (db.remove ids).WF := by
  induction ids generalizing db with
  | nil => exact remove_nil.symm ▸ wf
  | cons id ids ih =>
    rw [← remove_cons]
    exact ih wf.deleteContract

theorem findByNo_remove {no : String} (h : ∀ card ∈ db.contracts, card.contractNo = no → card.id ∉ ids) :
    (db.remove ids).findByNo no = db.findByNo no := by
  unfold Db.findByNo Table.lookup Db.remove
  rw [List.find?_filter]
  generalize db.contracts = cards at h ⊢
  induction cards with
  | nil => rfl
  | cons card cards ih =>
    rw [List.find?_cons, List.find?_cons, ih fun card' hcard' => h card' (List.mem_cons_of_mem _ hcard')]
    by_cases hno : card.contractNo = no
    · simp [hno, h card List.mem_cons_self hno]
    · simp [hno]

/-- A card that the export names is not stale. -/
theorem not_mem_outdated (wf : db.WF) (hcard : card ∈ db.contracts) (hkeep : card.contractNo ∈ keep) :
    card.id ∉ db.outdated source keep := by
  unfold Db.outdated
  split_ifs
  · exact List.not_mem_nil
  · intro hmem
    obtain ⟨m, hm, hid⟩ := List.mem_map.mp hmem
    obtain ⟨hmine, hstale⟩ := List.mem_filter.mp (List.mem_of_mem_filter hm)
    rw [Table.eq_of_key_eq wf.ids (List.mem_of_mem_filter hmine) hcard hid] at hstale
    simp [hkeep] at hstale

theorem Coherent.remove (hs : Coherent source mineIds nos s) (hdb : s'.db = s.db.remove ids) (hidByNo : s'.idByNo = s.idByNo)
    (hnos : ∀ no ∈ nos, ∀ card ∈ s.db.contracts, card.contractNo = no → card.id ∉ ids) :
    Coherent source mineIds nos s' := by
  refine ⟨hdb ▸ remove_wf hs.wf, fun no hno => ?_, fun no hno => ?_⟩
  · rw [hidByNo, hdb, findByNo_remove (hnos no hno)]
    exact hs.get no hno
  · rw [hdb, findByNo_remove (hnos no hno)]
    exact hs.mine no hno

/-- The tables before the first row of a batch. -/
def Db.cleaned (db : Db) (source : String) (final : Bool) (keep : List String) : Db :=
  if final then db.remove (db.outdated source keep) else db

/-- A batch of valid rows. -/
theorem importContracts_place {final : Bool} {keepNos : Option (List String)} (wf : db.WF) (hvalid : ∀ c ∈ rows, c.Valid)
    (hnd : (rows.map ImportContract.no).Nodup) (hkeep : final = true → ∀ c ∈ rows, c.no ∈ keepOf keepNos rows)
    (hfree : final = true → ∀ id ∈ db.outdated source (keepOf keepNos rows), some id ∉ db.imports) :
    ∃ count, importContracts db rows source final keepNos =
        .ok (rows.foldl (Db.place source) (db.cleaned source final (keepOf keepNos rows)), count) ∧
      count.deleted = (if final then (db.outdated source (keepOf keepNos rows)).length else 0) ∧
      ((∀ c ∈ rows, Quiet source (db.cleaned source final (keepOf keepNos rows)) c) →
        count.created = 0 ∧ count.flowsLinked = 0) := by
  have hstart : Coherent source (db.mineIds source) (rows.map ImportContract.no) (startContracts db rows) :=
    coherent_startContracts wf hvalid
  have hprepare : ∃ s, prepareContracts db rows source final keepNos = .ok s ∧
      s.db = db.cleaned source final (keepOf keepNos rows) ∧
      Coherent source (db.mineIds source) (rows.map ImportContract.no) s ∧
      s.count.created = 0 ∧ s.count.flowsLinked = 0 ∧
      s.count.deleted = (if final then (db.outdated source (keepOf keepNos rows)).length else 0) := by
    unfold prepareContracts Db.cleaned
    rw [filter_valid hvalid]
    rcases final
    · exact ⟨_, rfl, rfl, hstart, rfl, rfl, rfl⟩
    · obtain ⟨s, hclean, hidByNo, hdb, hcreated, hlinked, hdeleted⟩ :=
        cleanUp_remove (s := startContracts db rows) (hfree rfl)
      refine ⟨s, hclean, hdb, hstart.remove hdb hidByNo fun no hno card hcard hsame => ?_, hcreated, hlinked, ?_⟩
      · obtain ⟨c, hc, rfl⟩ := List.mem_map.mp hno
        exact not_mem_outdated wf hcard (hsame ▸ hkeep rfl c hc)
      · exact hdeleted.trans (Nat.zero_add _)
  obtain ⟨s, hs, hdb, hcoherent, hcreated, hlinked, hdeleted⟩ := hprepare
  obtain ⟨s', hrows, hdb', hdeleted', hquiet⟩ := importRows_place hcoherent hvalid hnd
  let foreign := if final then s'.db.foreignLinks.map foreignError else []
  refine ⟨{ s'.count with errors := s'.count.errors ++ foreign }, ?_, hdeleted'.trans hdeleted, fun hall => ?_⟩
  · unfold importContracts
    rw [hs, filter_valid hvalid]
    dsimp only [bind, Except.bind]
    rw [hrows]
    rw [← hdb, ← hdb']
    rfl
  · obtain ⟨hcreated', hlinked'⟩ := hquiet (hdb ▸ hall)
    exact ⟨hcreated'.trans hcreated, hlinked'.trans hlinked⟩

end Mydon.Registry
