import Mydon.Lib.Run
import Mydon.Stock.DryRun
import Mydon.Stock.Returns

/-! Batches and the journal over runs of the calls on them: each batch has the one movement
that took it in, and what is left of it is what the journal holds of it. -/

namespace Mydon.Stock

open Mydon.Lib

inductive Call
  | createMovement (input : CreateMovementInput) (id : String)
  | createBatch (input : CreateBatchInput) (ids : BatchIds)
  | importBatches (source : String) (closeOn : Option String) (dryRun : Bool) (items : List ImportBatchItem)
    (ids : ℕ → BatchIds)
  | returnToStock (input : ReturnInput) (batchId id : String)
  | removeReturn (id : String)
  | removeMovement (id : String)
  | stocktake (input : StocktakeInput) (id : String)

/-- A call, with what it reads; `held` are the movements that other tables refer to. -/
structure Action where
  env : StockEnv
  held : List String
  call : Call

def step (t : Tables) (a : Action) : Tables :=
  match a.call with
  | .createMovement input id => (createMovement a.env t input id).2
  | .createBatch input ids => (createBatch a.env t input ids).2
  | .importBatches source closeOn dryRun items ids => (importBatches a.env source closeOn dryRun t items ids).2
  | .returnToStock input batchId id => (returnToStock a.env t input batchId id).2
  | .removeReturn id => (removeReturn a.held t id).2
  | .removeMovement id => (removeMovement a.held t id).2
  | .stocktake input id => (stocktake a.env t input id).2

def Next (t : Tables) (a : Action) (t' : Tables) : Prop := t' = step t a

def isTakeIn (kind : StockMovementKind) : Bool := kind = .intake || kind = .return

/-- The movement takes the batch in. -/
def takes (batchId : String) (m : StockMovementRow) : Bool := isTakeIn m.kind && m.batchId = some batchId

def carriers (journal : List StockMovementRow) (batchId : String) : List StockMovementRow :=
  journal.filter (takes batchId)

/-- Every batch has one movement that took it in, and the two agree. -/
def Linked (t : Tables) : Prop := ∀ b ∈ t.batches, ∃ m, carriers t.journal b.id = [m] ∧ TakenIn m b

/-- What a movement adds to the goods in all the warehouses together. -/
def signedQty (m : StockMovementRow) : ℚ :=
  match m.kind with
  | .intake | .return | .adjustment => m.qty
  | .consumption => -m.qty
  | .transfer => 0

/-- What the journal holds of a batch. -/
def heldOfBatch (journal : List StockMovementRow) (batchId : String) : ℚ :=
  ((journal.filter (·.batchId = some batchId)).map signedQty).sum

/-- What is shown as left of a batch is what the journal holds of it. -/
def Accounted (t : Tables) : Prop :=
  ∀ b ∈ t.batches, remaining t.journal b = round3 (heldOfBatch t.journal b.id)

/-- What holds in every state, whatever was deleted. -/
structure Sound (t : Tables) : Prop where
  ids : (t.journal.map (·.id)).Nodup
  batch : ∀ m ∈ t.journal, ∀ id ∈ m.batchId, ∃ b ∈ t.batches, b.id = id
  adjustment : ∀ m ∈ t.journal, m.kind = .adjustment → m.batchId = none

/-- No movement that took a batch in is deleted without its batch, and none is written besides. -/
def KeepsLink (t : Tables) (a : Action) : Prop :=
  match a.call with
  | .createMovement input id =>
    input.kind = .intake → input.batchId.isSome → ∀ m, movementValues a.env input id = .ok m → ¬ FreshMovement t m
  | .removeMovement id => id ∈ a.held ∨ ∀ m ∈ t.journal, m.id = id → isTakeIn m.kind → m.batchId = none
  | .removeReturn id =>
    id ∈ a.held ∨ ∀ m ∈ t.journal, m.id = id → m.kind = .return → m.batchId.isSome →
      ∀ m' ∈ t.journal, m'.id ≠ id → m'.batchId ≠ m.batchId
  | _ => True

section
variable {t t' : Tables} {journal : List StockMovementRow} {m : StockMovementRow} {b : StockBatch} {id : String}

theorem takes_iff : takes id m = true ↔ isTakeIn m.kind = true ∧ m.batchId = some id := by
  simp [takes]

theorem carriers_append (rows : List StockMovementRow) :
    carriers (journal ++ rows) id = carriers journal id ++ carriers rows id := List.filter_append ..

theorem carriers_singleton : carriers [m] id = if takes id m then [m] else [] := by
  simp [carriers, List.filter_cons]

/-! What is left of a batch. -/

/-- Where no adjustment carries the batch, the journal holds what was taken in less what was consumed. -/
theorem heldOfBatch_eq (h : ∀ m ∈ journal, m.kind = .adjustment → m.batchId = none) :
    heldOfBatch journal id = ((carriers journal id).map (·.qty)).sum - consumed journal id := by
  unfold heldOfBatch carriers consumed batchMovements
  induction journal with
  | nil => simp
  | cons m journal ih =>
    obtain ⟨hm, hrest⟩ := List.forall_mem_cons.mp h
    specialize ih hrest
    by_cases hb : m.batchId = some id
    · have hadj : m.kind ≠ .adjustment := fun hk => by rw [hm hk] at hb; cases hb
      rcases hk : m.kind with _ | _ | _ | _ | _
      · simp [signedQty, takes, isTakeIn, hk, hb, ih, add_sub_assoc]
      · simp [signedQty, takes, isTakeIn, hk, hb, ih]
        ring
      · simp [signedQty, takes, isTakeIn, hk, hb, ih]
      · exact absurd hk hadj
      · simp [signedQty, takes, isTakeIn, hk, hb, ih, add_sub_assoc]
    · simp [takes, hb, ih]

theorem accounted_of_linked (hs : Sound t) (h : Linked t) : Accounted t := by
  intro b hb
  obtain ⟨m, hm, htaken⟩ := h b hb
  rw [remaining, heldOfBatch_eq hs.adjustment, hm, List.map_singleton, List.sum_singleton, htaken.qty]

/-! Rows that come in. -/

theorem sound_batch (hs : Sound t) : Sound ⟨t.batches ++ [b], t.journal⟩ where
  ids := hs.ids
  batch m hm id hid := by
    obtain ⟨c, hc, hcid⟩ := hs.batch m hm id hid
    exact ⟨c, List.mem_append_left _ hc, hcid⟩
  adjustment := hs.adjustment

theorem sound_append (hs : Sound t) (hid : ∀ r ∈ t.journal, r.id ≠ m.id)
    (hbatch : ∀ id ∈ m.batchId, ∃ b ∈ t.batches, b.id = id) (hadj : m.kind = .adjustment → m.batchId = none) :
    Sound ⟨t.batches, t.journal ++ [m]⟩ where
  ids := Table.nodup_append_singleton hs.ids hid
  batch := List.forall_mem_append.mpr ⟨hs.batch, List.forall_mem_singleton.mpr hbatch⟩
  adjustment := List.forall_mem_append.mpr ⟨hs.adjustment, List.forall_mem_singleton.mpr hadj⟩

/-- A movement keeps the link exactly when it takes no batch in. -/
theorem linked_append (h : Linked t) (hbatch : ∀ id ∈ m.batchId, ∃ b ∈ t.batches, b.id = id) :
    Linked ⟨t.batches, t.journal ++ [m]⟩ ↔ (isTakeIn m.kind = true → m.batchId = none) := by
  constructor
  · intro h' hkind
    by_contra hsome
    obtain ⟨id, hid⟩ := Option.ne_none_iff_exists'.mp hsome
    obtain ⟨b, hb, rfl⟩ := hbatch id hid
    obtain ⟨m₁, hm₁, _⟩ := h b hb
    obtain ⟨m₂, hm₂, _⟩ := h' b hb
    rw [carriers_append, hm₁, carriers_singleton, if_pos (takes_iff.mpr ⟨hkind, hid⟩)] at hm₂
    cases hm₂
  · intro hnone b hb
    obtain ⟨m₁, hm₁, htaken⟩ := h b hb
    refine ⟨m₁, ?_, htaken⟩
    have hnot : ¬ takes b.id m = true := by
      rw [takes_iff]
      rintro ⟨hkind, hid⟩
      rw [hnone hkind] at hid
      cases hid
    rw [carriers_append, hm₁, carriers_singleton, if_neg hnot, List.append_nil]

/-- A batch that comes in with the movement that takes it in. -/
theorem linked_takeIn (hs : Sound t) (h : Linked t) (hfresh : FreshBatch t b) (htaken : TakenIn m b)
    (hkind : isTakeIn m.kind = true) (hbatch : m.batchId = some b.id) :
    Linked ⟨t.batches ++ [b], t.journal ++ [m]⟩ := by
  intro c hc
  rcases List.mem_append.mp hc with hc | hc
  · obtain ⟨m₁, hm₁, htaken₁⟩ := h c hc
    refine ⟨m₁, ?_, htaken₁⟩
    have hnot : ¬ takes c.id m = true := by
      rw [takes_iff, hbatch, Option.some.injEq]
      exact fun hid => hfresh.id c hc hid.2.symm
    rw [carriers_append, hm₁, carriers_singleton, if_neg hnot, List.append_nil]
  · rw [List.mem_singleton] at hc
    subst hc
    have hnil : carriers t.journal c.id = [] := by
      rw [carriers, List.filter_eq_nil_iff]
      intro r hr hrt
      obtain ⟨d, hd, hdid⟩ := hs.batch r hr _ (takes_iff.mp hrt).2
      exact hfresh.id d hd hdid
    refine ⟨m, ?_, htaken⟩
    rw [carriers_append, hnil, carriers_singleton, if_pos (takes_iff.mpr ⟨hkind, hbatch⟩), List.nil_append]

/-! Rows that go. -/

variable {p : StockMovementRow → Bool}

theorem sound_delete (hs : Sound t) : Sound ⟨t.batches, t.journal.filter fun m => !p m⟩ where
  ids := hs.ids.sublist (List.filter_sublist.map _)
  batch m hm := hs.batch m (List.mem_of_mem_filter hm)
  adjustment m hm := hs.adjustment m (List.mem_of_mem_filter hm)

/-- A deletion keeps the link exactly when no deleted movement had taken a batch in. -/
theorem linked_delete (hs : Sound t) (h : Linked t) :
    Linked ⟨t.batches, t.journal.filter fun m => !p m⟩ ↔
      ∀ m ∈ t.journal, p m = true → isTakeIn m.kind = true → m.batchId = none := by
  constructor
  · intro h' m hm hp hkind
    by_contra hsome
    obtain ⟨id, hid⟩ := Option.ne_none_iff_exists'.mp hsome
    obtain ⟨b, hb, rfl⟩ := hs.batch m hm id hid
    obtain ⟨m₁, hm₁, _⟩ := h b hb
    obtain ⟨m₂, hm₂, _⟩ := h' b hb
    have hmem : m ∈ carriers t.journal b.id := List.mem_filter.mpr ⟨hm, takes_iff.mpr ⟨hkind, hid⟩⟩
    have hmem₂ : m₂ ∈ carriers (t.journal.filter fun m => !p m) b.id := hm₂ ▸ List.mem_singleton_self m₂
    obtain ⟨hkept, htakes⟩ := List.mem_filter.mp hmem₂
    obtain ⟨hm₂j, hnot⟩ := List.mem_filter.mp hkept
    have hmem₂' : m₂ ∈ carriers t.journal b.id := List.mem_filter.mpr ⟨hm₂j, htakes⟩
    rw [hm₁, List.mem_singleton] at hmem hmem₂'
    rw [hmem₂', ← hmem, hp] at hnot
    cases hnot
  · intro hnone b hb
    obtain ⟨m₁, hm₁, htaken⟩ := h b hb
    refine ⟨m₁, ?_, htaken⟩
    rw [← hm₁]
    unfold carriers
    rw [List.filter_filter]
    refine List.filter_congr fun m hm => ?_
    rcases hp : p m with _ | _
    · simp
    · have hnot : ¬ takes b.id m = true := by
        rw [takes_iff]
        rintro ⟨hkind, hid⟩
        rw [hnone m hm hp hkind] at hid
        cases hid
      simpa using hnot

/-- A batch goes with the movement that took it in, where no other movement carries it. -/
theorem linked_deleteBoth (h : Linked t) (hp : ∀ m ∈ t.journal, p m = true → m.batchId = some id) :
    Linked ⟨t.batches.filter (·.id ≠ id), t.journal.filter fun m => !p m⟩ := by
  intro b hb
  obtain ⟨hb, hne⟩ := List.mem_filter.mp hb
  rw [decide_eq_true_eq] at hne
  obtain ⟨m₁, hm₁, htaken⟩ := h b hb
  refine ⟨m₁, ?_, htaken⟩
  rw [← hm₁]
  unfold carriers
  rw [List.filter_filter]
  refine List.filter_congr fun m hm => ?_
  rcases hpm : p m with _ | _
  · simp
  · have hnot : ¬ takes b.id m = true := by
      rw [takes_iff, hp m hm hpm, Option.some.injEq]
      exact fun hid => hne hid.2.symm
    simpa using hnot

theorem sound_deleteBoth (hs : Sound t) (hfree : ∀ m ∈ t.journal, p m = false → m.batchId ≠ some id) :
    Sound ⟨t.batches.filter (·.id ≠ id), t.journal.filter fun m => !p m⟩ where
  ids := hs.ids.sublist (List.filter_sublist.map _)
  batch m hm id' hid' := by
    obtain ⟨hm, hpm⟩ := List.mem_filter.mp hm
    obtain ⟨b, hb, rfl⟩ := hs.batch m hm id' hid'
    refine ⟨b, List.mem_filter.mpr ⟨hb, decide_eq_true fun heq => ?_⟩, rfl⟩
    exact hfree m hm (by simpa using hpm) (heq ▸ hid')
  adjustment m hm := hs.adjustment m (List.mem_of_mem_filter hm)

end

/-! The calls. -/

section
variable {env : StockEnv} {held : List String} {t t' : Tables}

/-- A call that leaves sound tables, and keeps the link exactly on a condition. -/
def LinksIff (t t' : Tables) (c : Prop) : Prop := Sound t' ∧ (Linked t → (Linked t' ↔ c))

theorem linksIff_self (hs : Sound t) : LinksIff t t True := ⟨hs, fun h => iff_true_intro h⟩

theorem linksIff_movement {m : StockMovementRow} (hs : Sound t) (hf : FreshMovement t m)
    (hadj : m.kind = .adjustment → m.batchId = none) :
    LinksIff t { t with journal := t.journal ++ [m] } (isTakeIn m.kind = true → m.batchId = none) :=
  ⟨sound_append hs hf.id hf.batch hadj, fun h => linked_append h hf.batch⟩

theorem createMovement_links (hs : Sound t) (input : CreateMovementInput) (id : String) :
    LinksIff t (createMovement env t input id).2
      (input.kind = .intake → input.batchId.isSome → ∀ m, movementValues env input id = .ok m → ¬ FreshMovement t m) := by
  rcases createMovement_cases (t := t) input id with ⟨m, hm, hf, hw⟩ | ⟨hnot, hw⟩
  · obtain ⟨hkind, hbatch⟩ := movementValues_eq_ok hm
    have hadj : m.kind ≠ .adjustment := by
      rw [hkind]
      rcases input.kind with _ | _ | _ <;> exact fun h => (nomatch h)
    obtain ⟨hs', hlink⟩ := linksIff_movement hs hf fun h => absurd h hadj
    rw [hw]
    refine ⟨hs', fun h => (hlink h).trans ?_⟩
    have htake : isTakeIn m.kind = true ↔ input.kind = .intake := by
      rw [hkind]
      rcases input.kind with _ | _ | _ <;> decide
    rw [htake, hbatch]
    constructor
    · intro hnone hk hsome
      rw [hnone hk] at hsome
      cases hsome
    · intro hnone hk
      by_contra hsome
      exact hnone hk (Option.isSome_iff_ne_none.mpr hsome) m hm hf
  · rw [hw]
    exact ⟨hs, fun h => iff_of_true h fun _ _ => hnot⟩

theorem stocktake_links (hs : Sound t) (input : StocktakeInput) (id : String) :
    LinksIff t (stocktake env t input id).2 True := by
  rcases stocktake_cases (t := t) input id with hw | ⟨m, hkind, hbatch, hf, hw⟩
  · rw [hw]
    exact linksIff_self hs
  · rw [hw]
    obtain ⟨hs', hlink⟩ := linksIff_movement hs hf fun _ => hbatch
    exact ⟨hs', fun h => (hlink h).trans (iff_true_intro fun _ => hbatch)⟩

theorem sound_takeIn {b : StockBatch} {m : StockMovementRow} (hs : Sound t) (hid : ∀ r ∈ t.journal, r.id ≠ m.id)
    (hkind : isTakeIn m.kind = true) (hbatch : m.batchId = some b.id) :
    Sound ⟨t.batches ++ [b], t.journal ++ [m]⟩ := by
  refine sound_append (sound_batch hs) hid ?_ ?_
  · rw [hbatch]
    rintro id ⟨⟩
    exact ⟨b, List.mem_append_right _ (List.mem_singleton_self b), rfl⟩
  · intro hadj
    rw [hadj] at hkind
    cases hkind

theorem returnToStock_links (hs : Sound t) (input : ReturnInput) (batchId id : String) :
    LinksIff t (returnToStock env t input batchId id).2 True := by
  rcases returnToStock_cases (t := t) input batchId id with hw | ⟨b, m, htaken, hk, hbatch, hfresh, hid, hw⟩
  · rw [hw]
    exact linksIff_self hs
  · have hkind : isTakeIn m.kind = true := by rw [hk]; rfl
    rw [hw]
    exact ⟨sound_takeIn hs hid hkind hbatch, fun h => iff_true_intro (linked_takeIn hs h hfresh htaken hkind hbatch)⟩

/-- The transaction of a new batch keeps the link. -/
theorem writeBatchTx_links {input : CreateBatchInput} {prep : NewBatch} {ids : BatchIds} (hs : Sound t)
    (hw : writeBatchTx env t input prep ids = .ok t') : LinksIff t t' True := by
  obtain ⟨b, m, closing, htaken, hk, hbatch, hfresh, hid, hlen, hclosing, rfl⟩ := writeBatchTx_takenIn hw
  have hkind : isTakeIn m.kind = true := by rw [hk]; rfl
  have hs' := sound_takeIn hs hid hkind hbatch
  have hlinked := fun h : Linked t => linked_takeIn hs h hfresh htaken hkind hbatch
  rcases closing with _ | ⟨c, _ | ⟨c', closing⟩⟩
  · exact ⟨hs', fun h => iff_true_intro (hlinked h)⟩
  · obtain ⟨hck, hcb, hcid⟩ := hclosing c (List.mem_singleton_self c)
    have hcbatch : ∀ id ∈ c.batchId, ∃ d ∈ t.batches ++ [b], d.id = id := by
      rw [hcb]
      rintro id ⟨⟩
      exact ⟨b, List.mem_append_right _ (List.mem_singleton_self b), rfl⟩
    have hjournal : t.journal ++ [m, c] = t.journal ++ [m] ++ [c] := by simp
    rw [hjournal]
    refine ⟨sound_append hs' hcid hcbatch fun hadj => ?_, fun h => iff_true_intro ?_⟩
    · rw [hck] at hadj
      cases hadj
    · refine (linked_append (hlinked h) hcbatch).mpr fun hc => ?_
      rw [hck] at hc
      cases hc
  · simp at hlen

theorem LinksIff.trans {t'' : Tables} (h : LinksIff t t' True) (h' : LinksIff t' t'' True) : LinksIff t t'' True :=
  ⟨h'.1, fun hl => iff_true_intro ((h'.2 ((h.2 hl).mpr trivial)).mpr trivial)⟩

theorem writeBatch_links (hs : Sound t) (input : CreateBatchInput) (prep : NewBatch) (ids : BatchIds) :
    LinksIff t (writeBatch env t input prep ids).2 True := by
  rcases writeBatch_snd (t := t) input prep ids with hw | hw
  · rw [hw]
    exact linksIff_self hs
  · exact writeBatchTx_links hs hw

theorem createBatch_links (hs : Sound t) (input : CreateBatchInput) (ids : BatchIds) :
    LinksIff t (createBatch env t input ids).2 True := by
  unfold createBatch
  rcases prepareBatch env t input with e | row | prep
  · exact linksIff_self hs
  · exact linksIff_self hs
  · exact writeBatch_links hs input prep ids

theorem importItem_links {source : String} {closeOn : Option String} (dryRun : Bool) (hs : Sound t)
    (item : ImportBatchItem) (ids : BatchIds) :
    LinksIff t (importItem env source closeOn dryRun t item ids).2 True := by
  rcases hm : isMatched item with _ | _
  · rw [importItem_unmatched hm]
    exact linksIff_self hs
  · rw [importItem_matched hm]
    rcases prepareBatch env t (batchInput env source closeOn item) with e | row | prep
    · exact linksIff_self hs
    · exact linksIff_self hs
    · rcases dryRun with _ | _
      · have hlinks : LinksIff t (writeBatch env t (batchInput env source closeOn item) prep ids).2 True :=
          writeBatch_links hs _ prep ids
        dsimp only
        rw [if_neg Bool.false_ne_true]
        rcases hw : writeBatch env t (batchInput env source closeOn item) prep ids with ⟨e | row, s⟩
        · rwa [hw] at hlinks
        · rwa [hw] at hlinks
      · exact linksIff_self hs

theorem importItems_links {source : String} {closeOn : Option String} (dryRun : Bool) (ids : ℕ → BatchIds)
    (items : List ImportBatchItem) (n : ℕ) (hs : Sound t) :
    LinksIff t (importItems env source closeOn dryRun ids n t items).2 True := by
  induction items generalizing n t with
  | nil => exact linksIff_self hs
  | cons item items ih =>
    have hfirst : LinksIff t (importItem env source closeOn dryRun t item (ids n)).2 True :=
      importItem_links dryRun hs item (ids n)
    exact hfirst.trans (ih (n + 1) hfirst.1)

theorem importBatches_links (hs : Sound t) (source : String) (closeOn : Option String) (dryRun : Bool)
    (items : List ImportBatchItem) (ids : ℕ → BatchIds) :
    LinksIff t (importBatches env source closeOn dryRun t items ids).2 True := by
  unfold importBatches
  split_ifs
  · exact linksIff_self hs
  · exact importItems_links dryRun ids items 0 hs

theorem removeMovement_links (hs : Sound t) (id : String) :
    LinksIff t (removeMovement held t id).2
      (id ∈ held ∨ ∀ m ∈ t.journal, m.id = id → isTakeIn m.kind → m.batchId = none) := by
  unfold removeMovement
  rcases hd : deleteMovement held t id (fun _ => true) with e | ⟨row, s⟩
  · have hheld : id ∈ held := by
      by_contra hnot
      rw [deleteMovement_eq_ok.mpr ⟨rfl, fun _ => hnot, rfl⟩] at hd
      cases hd
    exact ⟨hs, fun h => iff_of_true h (.inl hheld)⟩
  · obtain ⟨hrow, hfree, rfl⟩ := deleteMovement_eq_ok.mp hd
    have hlinks : LinksIff t { t with journal := t.journal.filter fun m => !(m.id = id && true) }
        (id ∈ held ∨ ∀ m ∈ t.journal, m.id = id → isTakeIn m.kind → m.batchId = none) := by
      refine ⟨sound_delete hs, fun h => (linked_delete hs h).trans ?_⟩
      constructor
      · intro hnone
        exact .inr fun m hm hid => hnone m hm (by simpa using hid)
      · rintro (hheld | hnone) m hm hp
        · have hsome : (t.journal.find? fun m => m.id = id && true).isSome := List.find?_isSome.mpr ⟨m, hm, hp⟩
          exact absurd hheld (hfree (hrow ▸ hsome))
        · exact hnone m hm (by simpa using hp)
    rcases row with _ | row
    · exact hlinks
    · exact hlinks

/-- A return goes with its batch, unless another movement carries the batch. -/
theorem removeReturn_links (hs : Sound t) (id : String) :
    LinksIff t (removeReturn held t id).2
      (id ∈ held ∨ ∀ m ∈ t.journal, m.id = id → m.kind = .return → m.batchId.isSome →
        ∀ m' ∈ t.journal, m'.id ≠ id → m'.batchId ≠ m.batchId) := by
  unfold removeReturn
  rcases hd : deleteMovement held t id (·.kind = .return) with e | ⟨row, s⟩
  · have hheld : id ∈ held := by
      by_contra hnot
      rw [deleteMovement_eq_ok.mpr ⟨rfl, fun _ => hnot, rfl⟩] at hd
      cases hd
    exact ⟨hs, fun h => iff_of_true h (.inl hheld)⟩
  obtain ⟨hrow, hfree, rfl⟩ := deleteMovement_eq_ok.mp hd
  rcases row with _ | row
  · have hnone := fun m hm => List.find?_eq_none.mp hrow.symm m hm
    refine ⟨sound_delete hs, fun h => iff_of_true ?_ (.inr fun m hm hid hkind => ?_)⟩
    · exact (linked_delete hs h).mpr fun m hm hp => absurd hp (hnone m hm)
    · exact absurd (by simp [hid, hkind]) (hnone m hm)
  have hrowj : row ∈ t.journal := List.mem_of_find?_eq_some hrow.symm
  have hrowp : row.id = id ∧ row.kind = .return := by simpa using List.find?_some hrow.symm
  have hnotheld : id ∉ held := hfree rfl
  -- ids are unique, so that the row is the only one deleted
  have honly : ∀ m ∈ t.journal, m.id = id → m = row := fun m hm hid =>
    Table.eq_of_key_eq hs.ids hm hrowj (hid.trans hrowp.1.symm)
  have hdeleted : ∀ m ∈ t.journal, (m.id = id && m.kind = .return : Bool) = true → m = row := fun m hm hp =>
    honly m hm (by simpa using (Bool.and_eq_true_iff.mp hp).1)
  have hkept : ∀ m ∈ t.journal, m.id ≠ id → (m.id = id && m.kind = .return : Bool) = false := fun m _ hne => by simp [hne]
  rcases hb : row.batchId with _ | batchId
  · simp only [hb]
    refine ⟨sound_delete hs, fun h => iff_of_true ((linked_delete hs h).mpr fun m hm hp _ => ?_) (.inr ?_)⟩
    · rw [hdeleted m hm hp, hb]
    · intro m hm hid _ hsome
      rw [honly m hm hid, hb] at hsome
      cases hsome
  · simp only [hb]
    split_ifs with hany
    · refine ⟨sound_delete hs, fun h => (linked_delete hs h).trans (iff_of_false (fun hnone => ?_) ?_)⟩
      · have := hnone row hrowj (by simp [hrowp.1, hrowp.2]) (by rw [hrowp.2]; rfl)
        rw [hb] at this
        cases this
      · rintro (hheld | hnone)
        · exact hnotheld hheld
        · obtain ⟨m', hm', hm'b⟩ := List.any_eq_true.mp hany
          obtain ⟨hm'j, hm'p⟩ := List.mem_filter.mp hm'
          refine hnone row hrowj hrowp.1 hrowp.2 (by rw [hb]; rfl) m' hm'j (fun hid => ?_) ?_
          · rw [honly m' hm'j hid] at hm'p
            simp [hrowp.1, hrowp.2] at hm'p
          · rw [hb]
            simpa using hm'b
    · have hfree' : ∀ m ∈ t.journal, (m.id = id && m.kind = .return : Bool) = false → m.batchId ≠ some batchId := by
        intro m hm hp hmb
        exact hany (List.any_eq_true.mpr ⟨m, List.mem_filter.mpr ⟨hm, by rw [hp]; rfl⟩, by simpa using hmb⟩)
      refine ⟨sound_deleteBoth hs hfree', fun h => iff_of_true ?_ (.inr ?_)⟩
      · exact linked_deleteBoth h fun m hm hp => by rw [hdeleted m hm hp, hb]
      · intro m hm hid _ _ m' hm' hne
        rw [honly m hm hid, hb]
        exact hfree' m' hm' (hkept m' hm' hne)

end

theorem step_links {t : Tables} (hs : Sound t) (a : Action) : LinksIff t (step t a) (KeepsLink t a) := by
  obtain ⟨env, held, call⟩ := a
  rcases call with ⟨input, id⟩ | ⟨input, ids⟩ | ⟨source, closeOn, dryRun, items, ids⟩ | ⟨input, batchId, id⟩ | id | id |
    ⟨input, id⟩
  · exact createMovement_links hs input id
  · exact createBatch_links hs input ids
  · exact importBatches_links hs source closeOn dryRun items ids
  · exact returnToStock_links hs input batchId id
  · exact removeReturn_links hs id
  · exact removeMovement_links hs id
  · exact stocktake_links hs input id

/-- Batches and journal agree in every state of a run exactly when each of its steps keeps the link. -/
theorem batches_linked_iff {steps : List (Step Tables Action)} {t : Tables} (h : Run Next ⟨[], []⟩ steps t) :
    (∀ e ∈ steps, Linked e.after ∧ Accounted e.after) ↔ ∀ e ∈ steps, KeepsLink e.before e.action := by
  have hstep : ∀ s a s', Sound s → Next s a s' → Sound s' := by
    rintro s a _ hs rfl
    exact (step_links hs a).1
  refine h.forall_after_iff (P := fun t => Linked t ∧ Accounted t) (C := fun e => KeepsLink e.before e.action) hstep ?_ ?_ ?_
  · rintro s a _ hs ⟨hl, _⟩ rfl
    obtain ⟨hs', hlink⟩ := step_links hs a
    rw [← hlink hl]
    exact ⟨fun h => h.1, fun h => ⟨h, accounted_of_linked hs' h⟩⟩
  · exact ⟨List.nodup_nil, List.forall_mem_nil _, List.forall_mem_nil _⟩
  · exact ⟨List.forall_mem_nil _, List.forall_mem_nil _⟩

def sampleBatch : CreateBatchInput := batchInput stockEnv "manual" none (sampleItem "1")

def sampleCalls : List Action :=
  [⟨stockEnv, [], .createBatch sampleBatch (sampleIds 0)⟩, ⟨stockEnv, [], .removeMovement (sampleIds 0).intake⟩]

theorem batches_linked_sample :
    (∀ e ∈ (runActions step ⟨[], []⟩ sampleCalls).1, Linked e.after ∧ Accounted e.after) ↔
      ∀ e ∈ (runActions step ⟨[], []⟩ sampleCalls).1, KeepsLink e.before e.action :=
  batches_linked_iff (run_runActions step ⟨[], []⟩ sampleCalls)

/-- The intake of a batch is deleted: the batch stays and shows its 500 g, the journal holds none. -/
theorem removed_intake_leaves_batch :
    ¬ ∀ e ∈ (runActions step ⟨[], []⟩ sampleCalls).1, Linked e.after ∧ Accounted e.after := by
  intro h
  obtain ⟨_, hacc⟩ := h _ (List.mem_cons_of_mem _ List.mem_cons_self)
  revert hacc
  unfold Accounted
  decide +kernel

end Mydon.Stock
