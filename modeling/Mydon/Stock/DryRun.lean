import Mydon.Stock.Import

/-! When the dry run of an import says what the real run does. Both classify an item in the
same way as long as no earlier item of the list has its key, and a real run can store what
the dry run only counts. -/

namespace Mydon.Stock

open Mydon.Lib

/-- The database makes ids that no row has. -/
structure FreshIds (t : Tables) (ids : ℕ → BatchIds) : Prop where
  batch : ∀ n, ∀ b ∈ t.batches, b.id ≠ (ids n).batch
  intake : ∀ n, ∀ m ∈ t.journal, m.id ≠ (ids n).intake
  closing : ∀ n, ∀ m ∈ t.journal, m.id ≠ (ids n).closing
  batches : ∀ m n, (ids m).batch = (ids n).batch → m = n
  intakes : ∀ m n, (ids m).intake = (ids n).intake → m = n
  closings : ∀ m n, (ids m).closing = (ids n).closing → m = n
  apart : ∀ m n, (ids m).intake ≠ (ids n).closing

/-- Every item that is new to the tables can be stored, under a key of its own. -/
def Agreeable (env : StockEnv) (source : String) (closeOn : Option String) (t : Tables)
    (items : List ImportBatchItem) (ids : ℕ → BatchIds) : Prop :=
  ∀ n item prep, items[n]? = some item → IsNew env source closeOn t item prep →
    Storable env (batchInput env source closeOn item) prep (ids n) ∧ itemKey env item ≠ "" ∧
    ∀ m item' prep', m < n → items[m]? = some item' → IsNew env source closeOn t item' prep' →
      itemKey env item' ≠ itemKey env item

/-- The tables of a real run before its n-th item: those it began with, and the new items so far. -/
structure Ahead (env : StockEnv) (source : String) (closeOn : Option String) (t₀ : Tables)
    (items : List ImportBatchItem) (ids : ℕ → BatchIds) (n : ℕ) (t : Tables) : Prop where
  batches : ∃ added, t.batches = t₀.batches ++ added ∧ ∀ b ∈ added, Readable env b ∧ b.source = source ∧
    ∃ m item prep, m < n ∧ items[m]? = some item ∧ IsNew env source closeOn t₀ item prep ∧
      b.extId = some (itemKey env item) ∧ b.id = (ids m).batch
  journal : ∀ r ∈ t.journal, r ∈ t₀.journal ∨ ∃ m < n, r.id = (ids m).intake ∨ r.id = (ids m).closing
  keys : ∀ m item prep, m < n → items[m]? = some item → IsNew env source closeOn t₀ item prep →
    HasKey source t (itemKey env item)

section
variable {env : StockEnv} {source : String} {closeOn : Option String} {t₀ t : Tables} {item : ImportBatchItem}
  {items : List ImportBatchItem} {ids : ℕ → BatchIds} {n : ℕ}

theorem ahead_start : Ahead env source closeOn t₀ items ids 0 t₀ :=
  ⟨⟨[], (List.append_nil _).symm, List.forall_mem_nil _⟩, fun _ hr => .inl hr, fun _ _ _ hm => absurd hm (Nat.not_lt_zero _)⟩

/-- A row that the tables began with is found again, and reads as it did. -/
theorem Ahead.found (h : Ahead env source closeOn t₀ items ids n t) {key : String}
    {b : StockBatch} (hb : repeatedBatch source t₀ key = some b) :
    repeatedBatch source t key = some b ∧ (ReadableId env t b.id ↔ ReadableId env t₀ b.id) := by
  obtain ⟨hmem, _, _, hk⟩ := repeatedBatch_mem hb
  obtain ⟨added, hadded, hrows⟩ := h.batches
  constructor
  · unfold repeatedBatch findExt at hb ⊢
    rw [if_neg hk] at hb ⊢
    rw [hadded, List.find?_append, hb]
    rfl
  · unfold ReadableId
    rw [hadded]
    constructor
    · intro hread c hc hid
      exact hread c (List.mem_append_left _ hc) hid
    · intro hread c hc hid
      rcases List.mem_append.mp hc with hc | hc
      · exact hread c hc hid
      · exact (hrows c hc).1

/-- An item that is not new to the first tables fares the same, and writes nothing. -/
theorem Ahead.not_new (h : Ahead env source closeOn t₀ items ids n t)
    (hnew : ∀ prep, ¬ IsNew env source closeOn t₀ item prep) (dryRun : Bool) (i j : BatchIds) :
    (importItem env source closeOn false t item i).1 = (importItem env source closeOn dryRun t₀ item j).1 ∧
      (importItem env source closeOn false t item i).2 = t ∧
      (importItem env source closeOn false t item i).1 ≠ .created := by
  rcases hm : isMatched item with _ | _
  · rw [importItem_unmatched hm, importItem_unmatched hm]
    refine ⟨rfl, rfl, ?_⟩
    split_ifs <;> exact ItemOutcome.noConfusion
  rw [importItem_matched hm, importItem_matched hm]
  rcases hc : checkBatch env (batchInput env source closeOn item) with e | c
  · rw [prepareBatch_error hc, prepareBatch_error hc]
    exact ⟨rfl, rfl, ItemOutcome.noConfusion⟩
  rcases hr : repeatedBatch source t₀ (itemKey env item) with _ | b
  · exact absurd ⟨hm, prepareBatch_new.mpr ⟨⟨c, hc, rfl⟩, hr⟩⟩ (hnew _)
  obtain ⟨hr', hiff⟩ := h.found hr
  by_cases hread : ReadableId env t₀ b.id
  · obtain ⟨row, hrow⟩ := prepareBatch_existing hc hr' (hiff.mpr hread)
    obtain ⟨row₀, hrow₀⟩ := prepareBatch_existing hc hr hread
    rw [hrow, hrow₀]
    exact ⟨rfl, rfl, ItemOutcome.noConfusion⟩
  · rw [prepareBatch_unreadable hc hr' (mt hiff.mp hread), prepareBatch_unreadable hc hr hread]
    exact ⟨rfl, rfl, ItemOutcome.noConfusion⟩

theorem Ahead.succ_of_not_new (h : Ahead env source closeOn t₀ items ids n t)
    (hitem : items[n]? = some item) (hnew : ∀ prep, ¬ IsNew env source closeOn t₀ item prep) :
    Ahead env source closeOn t₀ items ids (n + 1) t := by
  obtain ⟨added, hadded, hrows⟩ := h.batches
  refine ⟨⟨added, hadded, fun b hb => ?_⟩, fun r hr => ?_, fun m item' prep hm hitem' hnew' => ?_⟩
  · obtain ⟨hread, hsource, m, item', prep, hm, hrest⟩ := hrows b hb
    exact ⟨hread, hsource, m, item', prep, by omega, hrest⟩
  · rcases h.journal r hr with hr | ⟨m, hm, hid⟩
    · exact .inl hr
    · exact .inr ⟨m, by omega, hid⟩
  · by_cases hmn : m = n
    · subst hmn
      rw [hitem] at hitem'
      cases hitem'
      exact absurd hnew' (hnew prep)
    · exact h.keys m item' prep (by omega) hitem' hnew'

/-- A new item that can be stored is created, under ids of its own. -/
theorem Ahead.create (h : Ahead env source closeOn t₀ items ids n t) (hids : FreshIds t₀ ids)
    (hitem : items[n]? = some item) {prep : NewBatch} (hnew : IsNew env source closeOn t₀ item prep)
    (hcond : Agreeable env source closeOn t₀ items ids) :
    (importItem env source closeOn false t item (ids n)).1 = .created ∧
      Ahead env source closeOn t₀ items ids (n + 1) (importItem env source closeOn false t item (ids n)).2 := by
  obtain ⟨hstore, hk, hkeys⟩ := hcond n item prep hitem hnew
  obtain ⟨added, hadded, hrows⟩ := h.batches
  obtain ⟨b, hb, hread⟩ := hstore.batch
  obtain ⟨intake, hi⟩ := hstore.intake
  obtain ⟨closing, hc⟩ := hstore.closing
  obtain ⟨hbid, _, _, _, _, hbsource, hbext, hbcode⟩ := batchValues_id hb
  obtain ⟨hiid, _, _, _, _, _, _, hikey⟩ := intakeValues_eq_ok hi
  obtain ⟨⟨c, hcheck, hprep⟩, hnone⟩ := prepareBatch_new.mp hnew.2
  have hsource : prep.source = source := by rw [hprep]; rfl
  have hfree : ∀ r ∈ t.batches, ¬ (r.source = source ∧ r.extId = some (itemKey env item)) := by
    rw [hadded]
    intro r hr hmatch
    rcases List.mem_append.mp hr with hr | hr
    · exact hnew.no_key hk ⟨r, hr, hmatch⟩
    · obtain ⟨_, _, m, item', prep', hm, hitem', hnew', hext, _⟩ := hrows r hr
      exact hkeys m item' prep' hm hitem' hnew' (Option.some.inj (hext.symm.trans hmatch.2))
  have hnew' : prepareBatch env t (batchInput env source closeOn item) = .ok (.new prep) :=
    prepareBatch_new.mpr ⟨⟨c, hcheck, hprep⟩, repeatedBatch_eq_none.mpr (.inr hfree)⟩
  have hbatchId : ∀ r ∈ t.batches, r.id ≠ (ids n).batch := by
    rw [hadded]
    intro r hr hid
    rcases List.mem_append.mp hr with hr | hr
    · exact hids.batch n r hr hid
    · obtain ⟨_, _, m, _, _, hm, _, _, _, hrid⟩ := hrows r hr
      have := hids.batches m n (hrid.symm.trans hid)
      omega
  have hintakeId : ∀ r ∈ t.journal, r.id ≠ (ids n).intake := by
    intro r hr hid
    rcases h.journal r hr with hr | ⟨m, hm, hrid | hrid⟩
    · exact hids.intake n r hr hid
    · have := hids.intakes m n (hrid.symm.trans hid)
      omega
    · exact hids.apart n m (hid.symm.trans hrid)
  have hclosingId : ∀ r ∈ t.journal, r.id ≠ (ids n).closing := by
    intro r hr hid
    rcases h.journal r hr with hr | ⟨m, hm, hrid | hrid⟩
    · exact hids.closing n r hr hid
    · exact hids.apart m n (hrid.symm.trans hid)
    · have := hids.closings m n (hrid.symm.trans hid)
      omega
  have htx : writeBatchTx env t (batchInput env source closeOn item) prep (ids n) =
      .ok ⟨t.batches ++ [b], t.journal ++ intake :: closing⟩ := by
    refine writeBatchTx_eq_ok.mpr ⟨b, intake, closing, hb, ⟨fun r hr => hbid ▸ hbatchId r hr, ?_, ?_⟩, hi, ?_,
      hintakeId, hc, fun c' hc' r hr => ?_, rfl⟩
    · rw [hbcode]
      intro hsome
      cases hsome
    · rw [hbsource, hsource, hbext]
      exact fun _ => hfree
    · rw [hikey]
      rfl
    · rw [((closingRows_eq_ok hc).2 c' hc').1]
      rcases List.mem_append.mp hr with hr | hr
      · exact hclosingId r hr
      · rw [List.mem_singleton.mp hr, hiid]
        exact hids.apart n n
  have hwrite : ∃ row, writeBatch env t (batchInput env source closeOn item) prep (ids n) =
      (.ok row, ⟨t.batches ++ [b], t.journal ++ intake :: closing⟩) := by
    rcases writeBatch_cases env t (batchInput env source closeOn item) prep (ids n) with ⟨e, he, _⟩ | ⟨t', result, ht', hw, hreadable⟩
    · rw [htx] at he
      cases he
    · rw [htx] at ht'
      obtain rfl := Except.ok.inj ht'
      have hall : ReadableId env ⟨t.batches ++ [b], t.journal ++ intake :: closing⟩ (ids n).batch := by
        intro r hr hid
        rcases List.mem_append.mp hr with hr | hr
        · exact absurd hid (hbatchId r hr)
        · rw [List.mem_singleton.mp hr]
          exact hread
      obtain ⟨row, rfl⟩ := hreadable.mpr hall
      exact ⟨row, hw⟩
  obtain ⟨row, hwrite⟩ := hwrite
  rw [importItem_matched hnew.1, hnew']
  simp only [Bool.false_eq_true, if_false, hwrite]
  refine ⟨trivial, ⟨added ++ [b], ?_, fun r hr => ?_⟩, fun r hr => ?_, fun m item' prep' hm hitem' hnew₀ => ?_⟩
  · rw [hadded, List.append_assoc]
  · rcases List.mem_append.mp hr with hr | hr
    · obtain ⟨hread', hsource', m, item', prep', hm, hrest⟩ := hrows r hr
      exact ⟨hread', hsource', m, item', prep', by omega, hrest⟩
    · rw [List.mem_singleton.mp hr]
      exact ⟨hread, hbsource.trans hsource, n, item, prep, Nat.lt_succ_self n, hitem, hnew, hbext, hbid⟩
  · rcases List.mem_append.mp hr with hr | hr
    · rcases h.journal r hr with hr | ⟨m, hm, hid⟩
      · exact .inl hr
      · exact .inr ⟨m, by omega, hid⟩
    · rcases List.mem_cons.mp hr with rfl | hr
      · exact .inr ⟨n, Nat.lt_succ_self n, .inl hiid⟩
      · exact .inr ⟨n, Nat.lt_succ_self n, .inr ((closingRows_eq_ok hc).2 r hr).1⟩
  · by_cases hmn : m = n
    · subst hmn
      rw [hitem] at hitem'
      cases hitem'
      exact ⟨b, List.mem_append_right _ (List.mem_singleton_self b), hbsource.trans hsource, hbext⟩
    · obtain ⟨r, hr, hmatch⟩ := h.keys m item' prep' (by omega) hitem' hnew₀
      exact ⟨r, List.mem_append_left _ hr, hmatch⟩

/-! Runs. -/

theorem importItems_dry (rest : List ImportBatchItem) :
    importItems env source closeOn true ids n t rest =
      (rest.map fun item => (importItem env source closeOn true t item (ids 0)).1, t) := by
  have hids : ∀ item i j, (importItem env source closeOn true t item i).1 =
      (importItem env source closeOn true t item j).1 := by
    intro item i j
    rcases hm : isMatched item with _ | _
    · rw [importItem_unmatched hm, importItem_unmatched hm]
    · rw [importItem_matched hm, importItem_matched hm]
      rfl
  induction rest generalizing n with
  | nil => rfl
  | cons item rest ih =>
    unfold importItems
    dsimp only
    rw [importItem_dry, ih, hids item (ids n) (ids 0)]
    rfl

theorem length_importItems (dryRun : Bool) (rest : List ImportBatchItem) :
    (importItems env source closeOn dryRun ids n t rest).1.length = rest.length := by
  induction rest generalizing n t with
  | nil => rfl
  | cons item rest ih =>
    unfold importItems
    rw [List.length_cons, List.length_cons, ih]

/-- Under the condition the real run gives every item the outcome of the dry run. -/
theorem importItems_ahead (hids : FreshIds t₀ ids) (hcond : Agreeable env source closeOn t₀ items ids)
    (h : Ahead env source closeOn t₀ items ids n t) {rest : List ImportBatchItem} (hrest : items.drop n = rest) :
    (importItems env source closeOn false ids n t rest).1 =
        rest.map (fun item => (importItem env source closeOn true t₀ item (ids 0)).1) ∧
      Ahead env source closeOn t₀ items ids (n + rest.length)
        (importItems env source closeOn false ids n t rest).2 := by
  induction rest generalizing n t with
  | nil => exact ⟨rfl, h⟩
  | cons item rest ih =>
    have hitem : items[n]? = some item := by
      rw [← List.head?_drop, hrest]
      rfl
    have htail : items.drop (n + 1) = rest := by
      rw [← List.tail_drop, hrest]
      rfl
    unfold importItems
    dsimp only
    rw [List.map_cons, List.length_cons, ← Nat.add_assoc, Nat.add_right_comm]
    by_cases hnew : ∃ prep, IsNew env source closeOn t₀ item prep
    · obtain ⟨prep, hnew⟩ := hnew
      obtain ⟨hcreated, hahead⟩ := h.create hids hitem hnew hcond
      obtain ⟨houtcomes, hfinal⟩ := ih hahead htail
      refine ⟨?_, hfinal⟩
      rw [houtcomes, hcreated, importItem_matched hnew.1, hnew.2]
      rfl
    · rw [not_exists] at hnew
      obtain ⟨hsame, hstay, _⟩ := h.not_new hnew true (ids n) (ids 0)
      obtain ⟨houtcomes, hfinal⟩ := ih (h.succ_of_not_new hitem hnew) htail
      rw [hstay]
      exact ⟨by rw [houtcomes, hsame], hfinal⟩

/-- After a run under the condition its items are repeats, and none of them is written again. -/
theorem Ahead.again (h : Ahead env source closeOn t₀ items ids items.length t) (hids : FreshIds t₀ ids)
    (hcond : Agreeable env source closeOn t₀ items ids) {m : ℕ} (hitem : items[m]? = some item) (i : BatchIds) :
    (importItem env source closeOn false t item i).2 = t ∧
      (importItem env source closeOn false t item i).1 ≠ .created ∧
      ((∃ prep, IsNew env source closeOn t₀ item prep) →
        (importItem env source closeOn false t item i).1 = .repeated) := by
  by_cases hnew : ∃ prep, IsNew env source closeOn t₀ item prep
  · obtain ⟨prep, hnew⟩ := hnew
    obtain ⟨_, hk, _⟩ := hcond m item prep hitem hnew
    obtain ⟨⟨c, hcheck, _⟩, _⟩ := prepareBatch_new.mp hnew.2
    obtain ⟨hm, _⟩ := List.getElem?_eq_some_iff.mp hitem
    have hkey := h.keys m item prep hm hitem hnew
    rcases hr : repeatedBatch source t (itemKey env item) with _ | b
    · rcases repeatedBatch_eq_none.mp hr with he | hnone
      · exact absurd he hk
      · obtain ⟨b, hb, hmatch⟩ := hkey
        exact absurd hmatch (hnone b hb)
    · obtain ⟨added, hadded, hrows⟩ := h.batches
      obtain ⟨hb, hmatch⟩ := repeatedBatch_mem hr
      rw [hadded] at hb
      have hbadded : b ∈ added := by
        rcases List.mem_append.mp hb with hb | hb
        · exact absurd ⟨b, hb, hmatch.1, hmatch.2.1⟩ (hnew.no_key hk)
        · exact hb
      obtain ⟨_, _, k, _, _, _, _, _, _, hbid⟩ := hrows b hbadded
      have hread : ReadableId env t b.id := by
        intro r hr hid
        rw [hadded] at hr
        rcases List.mem_append.mp hr with hr | hr
        · exact absurd (hid.trans hbid) (hids.batch k r hr)
        · exact (hrows r hr).1
      obtain ⟨row, hrow⟩ := prepareBatch_existing hcheck hr hread
      rw [importItem_matched hnew.1, hrow]
      exact ⟨rfl, ItemOutcome.noConfusion, fun _ => rfl⟩
  · obtain ⟨_, hstay, hne⟩ := h.not_new (not_exists.mp hnew) true i (ids 0)
    exact ⟨hstay, hne, fun h => absurd h hnew⟩

/-- Items that write nothing leave the tables, and each has the outcome it has there. -/
theorem importItems_still (ids : ℕ → BatchIds) (n : ℕ) {rest : List ImportBatchItem}
    (h : ∀ item ∈ rest, ∀ i, (importItem env source closeOn false t item i).2 = t) :
    (importItems env source closeOn false ids n t rest).2 = t ∧
      ∀ k o, (importItems env source closeOn false ids n t rest).1[k]? = some o →
        ∃ item, rest[k]? = some item ∧ o = (importItem env source closeOn false t item (ids (n + k))).1 := by
  induction rest generalizing n with
  | nil => exact ⟨rfl, fun k o hk => nomatch hk⟩
  | cons item rest ih =>
    obtain ⟨hhead, hrest⟩ := List.forall_mem_cons.mp h
    unfold importItems
    dsimp only
    rw [hhead]
    obtain ⟨hstay, hout⟩ := ih (n + 1) hrest
    refine ⟨hstay, fun k o hk => ?_⟩
    rcases k with _ | k
    · rw [List.getElem?_cons_zero, Option.some.injEq] at hk
      exact ⟨item, rfl, hk.symm⟩
    · rw [List.getElem?_cons_succ] at hk
      obtain ⟨item', hitem', ho⟩ := hout k o hk
      refine ⟨item', hitem', ?_⟩
      rwa [Nat.add_right_comm, Nat.add_assoc] at ho

/-- What an item of a real run met: the tables it began with, grown by the items before it. -/
theorem importItems_at {rest : List ImportBatchItem} {k : ℕ} {o : ItemOutcome}
    (h : (importItems env source closeOn false ids n t rest).1[k]? = some o) :
    ∃ item s, rest[k]? = some item ∧ Grows t s ∧ (importItem env source closeOn false s item (ids (n + k))).1 = o ∧
      ∀ j < k, ∀ item', rest[j]? = some item' →
        (importItems env source closeOn false ids n t rest).1[j]? = some .created →
        HasKey source s (itemKey env item') := by
  induction rest generalizing n t k with
  | nil => cases h
  | cons item rest ih =>
    unfold importItems at h ⊢
    rcases k with _ | k
    · rw [List.getElem?_cons_zero, Option.some.injEq] at h
      exact ⟨item, t, rfl, List.prefix_refl _, h, fun j hj => absurd hj (Nat.not_lt_zero j)⟩
    · rw [List.getElem?_cons_succ] at h
      obtain ⟨item', s, hitem', hgrows, ho, hkeys⟩ := ih h
      refine ⟨item', s, hitem', importItem_grows.trans hgrows, ?_, fun j hj item'' hj' hcreated => ?_⟩
      · rwa [Nat.add_right_comm, Nat.add_assoc] at ho
      · rcases j with _ | j
        · rw [List.getElem?_cons_zero, Option.some.injEq] at hj' hcreated
          obtain ⟨_, b, hb, hmatch⟩ := importItem_created hcreated
          subst hj'
          exact ⟨b, hgrows.subset hb, hmatch⟩
        · rw [List.getElem?_cons_succ] at hj' hcreated
          exact hkeys j (by omega) item'' hj' hcreated

/-- A list that has the element only where another has it, and as often, has it in the same places. -/
theorem getElem?_of_count_eq {α : Type} [DecidableEq α] {a : α} {l l' : List α} (hlen : l.length = l'.length)
    (hle : ∀ k : ℕ, l[k]? = some a → l'[k]? = some a) (hcount : l.count a = l'.count a) :
    ∀ k : ℕ, l'[k]? = some a → l[k]? = some a := by
  have hcounts : ∀ {l l' : List α}, l.length = l'.length → (∀ k : ℕ, l[k]? = some a → l'[k]? = some a) →
      l.count a ≤ l'.count a ∧ (l.count a = l'.count a → ∀ k : ℕ, l'[k]? = some a → l[k]? = some a) := by
    intro l
    induction l with
    | nil =>
      intro l' hlen _
      rw [List.length_nil, eq_comm, List.length_eq_zero_iff] at hlen
      subst hlen
      exact ⟨le_rfl, fun _ _ h => h⟩
    | cons x l ih =>
      rintro (_ | ⟨y, l'⟩) hlen hle
      · cases hlen
      · have htail : ∀ k : ℕ, l[k]? = some a → l'[k]? = some a := fun k hk => hle (k + 1) hk
        obtain ⟨hcount, hback⟩ := ih (Nat.succ.inj hlen) htail
        have hhead : x = a → y = a := fun hx => Option.some.inj (hle 0 (congrArg some hx))
        simp only [List.count_cons, beq_iff_eq]
        refine ⟨?_, fun heq k hk => ?_⟩
        · by_cases hx : x = a
          · rw [if_pos hx, if_pos (hhead hx)]
            omega
          · rw [if_neg hx]
            split_ifs <;> omega
        by_cases hx : x = a
        · rw [if_pos hx, if_pos (hhead hx)] at heq
          rcases k with _ | k
          · exact congrArg some hx
          · exact hback (by omega) k hk
        · by_cases hy : y = a
          · rw [if_neg hx, if_pos hy] at heq
            omega
          · rw [if_neg hx, if_neg hy] at heq
            rcases k with _ | k
            · exact absurd (Option.some.inj hk) hy
            · exact hback (by omega) k hk
  exact (hcounts hlen hle).2 hcount

theorem reportOf_created (closeOn : Option String) {rest : List ImportBatchItem} {outcomes : List ItemOutcome}
    (hlen : rest.length = outcomes.length) : (reportOf closeOn false rest outcomes).created = outcomes.count .created := by
  have hfold : ∀ (l : List (ImportBatchItem × ItemOutcome)) (r : ImportBatchesReport),
      (l.foldl addOutcome r).created = r.created + (l.map Prod.snd).count .created := by
    intro l
    induction l with
    | nil => intro r; rfl
    | cons entry l ih =>
      intro r
      rw [List.foldl_cons, ih, List.map_cons, List.count_cons]
      obtain ⟨item, outcome⟩ := entry
      rcases outcome with _ | _ | _ | _ | reason <;> simp [addOutcome]
      omega
  unfold reportOf
  rw [hfold, List.map_snd_zip (by omega)]
  exact Nat.zero_add _

/-- A report but for the flag that says which run it is of. -/
def reported (report : ImportBatchesReport) : ImportBatchesReport := { report with dryRun := false }

theorem reported_reportOf (dryRun : Bool) (rest : List ImportBatchItem) (outcomes : List ItemOutcome) :
    reported (reportOf closeOn dryRun rest outcomes) = reportOf closeOn false rest outcomes := by
  have hfold : ∀ (l : List (ImportBatchItem × ItemOutcome)) (r : ImportBatchesReport),
      reported (l.foldl addOutcome r) = l.foldl addOutcome (reported r) := by
    intro l
    induction l with
    | nil => intro r; rfl
    | cons entry l ih =>
      intro r
      rw [List.foldl_cons, List.foldl_cons, ih]
      obtain ⟨item, outcome⟩ := entry
      rcases outcome with _ | _ | _ | _ | reason <;> rfl
  exact hfold _ _

end

/-! The law. -/

def importOutcomes (env : StockEnv) (source : String) (closeOn : Option String) (dryRun : Bool) (t : Tables)
    (items : List ImportBatchItem) (ids : ℕ → BatchIds) : List ItemOutcome :=
  (importItems env source (closeDate closeOn) dryRun ids 0 t items).1

/-- The dry run writes nothing and reports what the real run does, and a second real run finds
every created item again and writes nothing. -/
def DryRunAgrees (env : StockEnv) (source : String) (closeOn : Option String) (t : Tables)
    (items : List ImportBatchItem) (ids ids' : ℕ → BatchIds) : Prop :=
  let dry := importBatches env source closeOn true t items ids
  let real := importBatches env source closeOn false t items ids
  let again := importBatches env source closeOn false real.2 items ids'
  dry.2 = t ∧ dry.1.map reported = real.1.map reported ∧
    (again.2 = real.2 ∧ ∀ report, again.1 = .ok report → report.created = 0) ∧
    ∀ n : ℕ, (importOutcomes env source closeOn false t items ids)[n]? = some .created →
      (importOutcomes env source closeOn false real.2 items ids')[n]? = some .repeated

section
variable {env : StockEnv} {source : String} {closeOn : Option String} {t : Tables} {items : List ImportBatchItem}
  {ids ids' : ℕ → BatchIds}

theorem importBatches_of_length {dryRun : Bool} (hlen : items.length ≤ 500) :
    importBatches env source closeOn dryRun t items ids =
      (.ok (reportOf (closeDate closeOn) dryRun items (importOutcomes env source closeOn dryRun t items ids)),
        (importItems env source (closeDate closeOn) dryRun ids 0 t items).2) := by
  unfold importBatches
  rw [if_neg (by omega)]
  rfl

/-- The empty key is never looked up. -/
theorem key_ne_empty_of_repeated {item : ImportBatchItem} {i : BatchIds}
    (h : (importItem env source closeOn false t item i).1 = .repeated) : itemKey env item ≠ "" := by
  intro hk
  rcases hm : isMatched item with _ | _
  · rw [importItem_unmatched hm] at h
    split_ifs at h
  rw [importItem_matched hm] at h
  rcases hp : prepareBatch env t (batchInput env source closeOn item) with e | row | prep
  · simp only [hp] at h
    cases h
  · rw [prepareBatch_item] at hp
    unfold repeatedBatch at hp
    rw [if_pos hk] at hp
    rcases hc : checkBatch env (batchInput env source closeOn item) with e | c <;> rw [hc] at hp <;> cases hp
  · simp only [hp, Bool.false_eq_true, if_false] at h
    rcases hw : writeBatch env t (batchInput env source closeOn item) prep i with ⟨_ | _, _⟩ <;>
      simp only [hw] at h <;> cases h

theorem agreeable_of_agrees (hlen : items.length ≤ 500) (h : DryRunAgrees env source closeOn t items ids ids') :
    Agreeable env source (closeDate closeOn) t items ids := by
  obtain ⟨_, hreports, _, hagain⟩ := h
  rw [importBatches_of_length hlen, importBatches_of_length hlen] at hreports
  rw [importBatches_of_length hlen] at hagain
  have hdry : importOutcomes env source closeOn true t items ids =
      items.map fun item => (importItem env source (closeDate closeOn) true t item (ids 0)).1 := by
    unfold importOutcomes
    rw [importItems_dry]
  have hreallen : (importOutcomes env source closeOn false t items ids).length = items.length :=
    length_importItems false items
  have hdrylen : (importOutcomes env source closeOn true t items ids).length = items.length :=
    length_importItems true items
  have hnew : ∀ (k : ℕ) item, items[k]? = some item →
      (importOutcomes env source closeOn false t items ids)[k]? = some .created →
      ∃ s prep, Grows t s ∧ IsNew env source (closeDate closeOn) s item prep ∧
        Storable env (batchInput env source (closeDate closeOn) item) prep (ids k) ∧
        ∀ j < k, ∀ item', items[j]? = some item' →
          (importOutcomes env source closeOn false t items ids)[j]? = some .created →
          HasKey source s (itemKey env item') := by
    intro k item hitem hcreated
    obtain ⟨item', s, hitem', hgrows, ho, hkeys⟩ := importItems_at hcreated
    rw [hitem] at hitem'
    cases hitem'
    rw [Nat.zero_add] at ho
    obtain ⟨⟨prep, hnew, hstore⟩, _⟩ := importItem_created ho
    exact ⟨s, prep, hgrows, hnew, hstore, hkeys⟩
  -- a created item was new to the first tables, so equal counts make every new item a created one
  have hle : ∀ k : ℕ, (importOutcomes env source closeOn false t items ids)[k]? = some .created →
      (importOutcomes env source closeOn true t items ids)[k]? = some .created := by
    intro k hcreated
    obtain ⟨item, s, hitem, -⟩ := importItems_at hcreated
    obtain ⟨s, prep, hgrows, hnew, -⟩ := hnew k item hitem hcreated
    have hnew₀ := hnew.of_grows hgrows
    rw [hdry, List.getElem?_map, hitem, Option.map_some, importItem_matched hnew₀.1, hnew₀.2]
    rfl
  have hcount : (importOutcomes env source closeOn false t items ids).count .created =
      (importOutcomes env source closeOn true t items ids).count .created := by
    have hsame := Except.ok.inj hreports
    rw [reported_reportOf, reported_reportOf] at hsame
    rw [← reportOf_created (closeDate closeOn) hreallen.symm, ← reportOf_created (closeDate closeOn) hdrylen.symm,
      hsame]
  have hcreated : ∀ (k : ℕ) item prep, items[k]? = some item → IsNew env source (closeDate closeOn) t item prep →
      (importOutcomes env source closeOn false t items ids)[k]? = some ItemOutcome.created := by
    intro k item prep hitem hnew
    refine getElem?_of_count_eq (hreallen.trans hdrylen.symm) hle hcount k ?_
    rw [hdry, List.getElem?_map, hitem, Option.map_some, importItem_matched hnew.1, hnew.2]
    rfl
  intro k item prep hitem hnew₀
  obtain ⟨s, prep', hgrows, hnew', hstore, hkeys⟩ := hnew k item hitem (hcreated k item prep hitem hnew₀)
  have hprep : prep' = prep := by
    have := (hnew'.of_grows hgrows).2.symm.trans hnew₀.2
    cases this
    rfl
  subst hprep
  have hk : itemKey env item ≠ "" := by
    obtain ⟨item', s', hitem', _, ho, _⟩ := importItems_at (hagain k (hcreated k item prep' hitem hnew₀))
    rw [hitem] at hitem'
    cases hitem'
    exact key_ne_empty_of_repeated ho
  refine ⟨hstore, hk, fun m item' prep'' hm hitem' hnew'' hsame => ?_⟩
  have hhas := hkeys m hm item' hitem' (hcreated m item' prep'' hitem' hnew'')
  rw [hsame] at hhas
  exact hnew'.no_key hk hhas

theorem agrees_of_agreeable (hlen : items.length ≤ 500) (hids : FreshIds t ids)
    (h : Agreeable env source (closeDate closeOn) t items ids) :
    DryRunAgrees env source closeOn t items ids ids' := by
  obtain ⟨houtcomes, hahead⟩ := importItems_ahead hids h ahead_start (List.drop_zero (l := items))
  rw [Nat.zero_add] at hahead
  have hwrites : ∀ item ∈ items, ∀ i, (importItem env source (closeDate closeOn) false
      (importItems env source (closeDate closeOn) false ids 0 t items).2 item i).2 =
      (importItems env source (closeDate closeOn) false ids 0 t items).2 := by
    intro item hitem i
    obtain ⟨m, hm⟩ := List.mem_iff_getElem?.mp hitem
    exact (hahead.again hids h hm i).1
  have hstill := importItems_still ids' 0 hwrites
  unfold DryRunAgrees
  simp only [importBatches_of_length hlen, importOutcomes]
  rw [importItems_dry]
  refine ⟨rfl, ?_, ⟨hstill.1, fun report hreport => ?_⟩, fun n hn => ?_⟩
  · rw [houtcomes]
    simp only [Except.map, reported_reportOf]
  · cases hreport
    rw [reportOf_created _ (length_importItems false items).symm, List.count_eq_zero]
    intro hmem
    obtain ⟨k, hk⟩ := List.mem_iff_getElem?.mp hmem
    obtain ⟨item, hitem, ho⟩ := hstill.2 k .created hk
    exact (hahead.again hids h hitem _).2.1 ho.symm
  · rw [houtcomes, List.getElem?_map] at hn
    obtain ⟨item, hitem, hcreated⟩ := Option.map_eq_some_iff.mp hn
    obtain ⟨o, ho⟩ : ∃ o, (importItems env source (closeDate closeOn) false ids' 0
        (importItems env source (closeDate closeOn) false ids 0 t items).2 items).1[n]? = some o := by
      obtain ⟨hn', _⟩ := List.getElem?_eq_some_iff.mp hitem
      exact ⟨_, List.getElem?_eq_getElem (by rw [length_importItems]; exact hn')⟩
    obtain ⟨item', hitem', ho'⟩ := hstill.2 n o ho
    rw [hitem] at hitem'
    cases hitem'
    rw [ho, ho']
    refine congrArg some ((hahead.again hids h hitem _).2.2 ?_)
    rcases hm : isMatched item with _ | _
    · rw [importItem_unmatched hm] at hcreated
      split_ifs at hcreated
    · rw [importItem_matched hm] at hcreated
      rcases hp : prepareBatch env t (batchInput env source (closeDate closeOn) item) with e | row | prep
      · simp only [hp] at hcreated
        cases hcreated
      · simp only [hp] at hcreated
        cases hcreated
      · exact ⟨prep, hm, hp⟩

/-- The dry run agrees exactly where the new items can all be stored under keys of their own. -/
theorem dry_run_agrees_iff (hlen : items.length ≤ 500) (hids : FreshIds t ids) :
    DryRunAgrees env source closeOn t items ids ids' ↔ Agreeable env source (closeDate closeOn) t items ids :=
  ⟨agreeable_of_agrees hlen, agrees_of_agreeable hlen hids⟩

end

/-! One card, one warehouse, and two rows of a registry. -/

def stockHost : Js.Host where
  toLowerCase := id
  number := fun _ => none
  numberText := fun q => toString q.num
  toFixed12 := fun q => toString q.num ++ ".000000000000"
  localeCompare := fun a b => if a = b then 0 else if Js.before a b then -1 else 1
  sha256 := id

def stockEnv : StockEnv where
  host := stockHost
  cards := [⟨"coffee", "ingredient", "coffee", [("единица", .str "г")]⟩, ⟨"central", "warehouse", "central", []⟩]
  persons := []
  date := some
  time := fun _ => some 0
  today := 20000
  actor := "owner"

def sampleItem (extId : String) : ImportBatchItem where
  fileRow := 1
  ingredientId := some "coffee"
  warehouseId := "central"
  qtyReceived := 500
  unit := "г"
  receivedOn := some "2026-08-21"
  supplier := none
  invoiceNo := none
  invoiceDate := none
  unitPriceGross := none
  note := none
  name := none
  extId := some extId

def sampleIds (n : ℕ) : BatchIds :=
  ⟨String.ofList ('b' :: List.replicate n 'b'), String.ofList ('i' :: List.replicate n 'i'),
    String.ofList ('c' :: List.replicate n 'c')⟩

theorem freshIds_sample : FreshIds ⟨[], []⟩ sampleIds := by
  have hinj : ∀ {c : Char} {m n : ℕ}, String.ofList (c :: List.replicate m c) = String.ofList (c :: List.replicate n c) →
      m = n := by
    intro c m n h
    have hlist := String.ofList_injective h
    have hlen := congrArg List.length hlist
    simpa using hlen
  refine ⟨fun _ => List.forall_mem_nil _, fun _ => List.forall_mem_nil _, fun _ => List.forall_mem_nil _,
    fun _ _ => hinj, fun _ _ => hinj, fun _ _ => hinj, fun m n h => ?_⟩
  have hlist := String.ofList_injective h
  cases hlist

theorem dry_run_agrees_sample :
    DryRunAgrees stockEnv "registry" none ⟨[], []⟩ [sampleItem "1", sampleItem "2"] sampleIds sampleIds ↔
      Agreeable stockEnv "registry" none ⟨[], []⟩ [sampleItem "1", sampleItem "2"] sampleIds :=
  dry_run_agrees_iff (by decide) freshIds_sample

/-- Two items of one key: the dry run counts both as created, the real run creates one. -/
theorem dry_run_counts_repeats :
    ¬ DryRunAgrees stockEnv "registry" none ⟨[], []⟩ [sampleItem "1", sampleItem "1"] sampleIds sampleIds := by
  intro h
  obtain ⟨_, hreports, _⟩ := h
  have hcreated := congrArg (fun r => r.toOption.map ImportBatchesReport.created) hreports
  revert hcreated
  decide +kernel

end Mydon.Stock
