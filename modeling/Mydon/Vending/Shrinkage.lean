import Mydon.Vending.History
import Mathlib.Algebra.Order.Group.MinMax
import Mathlib.Tactic.Ring

/-! The shrinkage report over the history, and when rows that come again leave its items as they were. -/

namespace Mydon.Vending

open Mydon.Lib

/-- How far from the border of a day its snapshot may stand. -/
def SNAPSHOT_STALE_MS : ℤ := 6 * 3600000

/-- Of two snapshots at one distance the first stays. -/
def closer (border : ℤ) (best : Option MachineSnapshot) (s : MachineSnapshot) : Option MachineSnapshot :=
  match best with
  | none => some s
  | some b => if |s.capturedAt - border| < |b.capturedAt - border| then some s else some b

/-- `ближайший`. -/
def nearest (snapshots : List MachineSnapshot) (border : ℤ) : Option MachineSnapshot :=
  (snapshots.foldl (closer border) none).filter fun s => |s.capturedAt - border| ≤ SNAPSHOT_STALE_MS

/-- What the other tables say: the sales and the refills by machine and day, and the prices. -/
structure ShrinkTables where
  salesByDay : List ((String × ℤ) × List (String × ℚ))
  arrivedByDay : List ((String × ℤ) × ℤ)
  prices : List (String × ℚ)
  threshold : ℚ

/-- A day of the report, with the snapshots at its borders. -/
structure ShrinkDay where
  date : ℤ
  start : MachineSnapshot
  finish : MachineSnapshot
  sales : List (String × ℚ)
  refillUnits : ℤ

def ShrinkDay.toInput (d : ShrinkDay) : ShrinkDayInput :=
  ⟨d.date, d.start.slots, d.finish.slots, d.sales, d.refillUnits⟩

/-- `снимкиАвтомата`, form by form, and then in order of time. -/
def shrinkSnapshots (nameOf : String → String) (since : ℤ) (rows : List SlotSnapshotRow) (forms : List String) :
    List MachineSnapshot :=
  byTime (forms.flatMap fun form => byTime (byMoment nameOf form (rowsOfForm since rows form)))

/-- A day without a snapshot at a border is stale; a day whose sales were not collected is left out, but
for a day of a refill. -/
def shrinkDay (tables : ShrinkTables) (canon : String) (snapshots : List MachineSnapshot) (date : ℤ) :
    Option ShrinkDay :=
  let arrived := (OrderedMap.get tables.arrivedByDay (canon, date)).getD 0
  match nearest snapshots (Clock.tashkentDayStart date),
      nearest snapshots (Clock.tashkentDayStart date + Clock.DAY_MS) with
  | some start, some finish =>
    match OrderedMap.get tables.salesByDay (canon, date) with
    | none => if arrived = 0 then none else some ⟨date, start, finish, [], arrived⟩
    | some sales => some ⟨date, start, finish, sales, arrived⟩
  | _, _ => none

def shrinkDays (tables : ShrinkTables) (canon : String) (snapshots : List MachineSnapshot) (dates : List ℤ) :
    List ShrinkDay := dates.filterMap (shrinkDay tables canon snapshots)

/-- `поАвтомату`. -/
def machineShrinkage (nameOf : String → String) (since : ℤ) (dates : List ℤ) (tables : ShrinkTables)
    (rows : List SlotSnapshotRow) (canon : String) (forms : List String) : ShrinkSummary :=
  shrinkageByDay ((shrinkDays tables canon (shrinkSnapshots nameOf since rows forms) dates).map ShrinkDay.toInput)
    tables.prices tables.threshold

/-- The items of the report, machine by machine. -/
def historyShrinkage (host : Js.Host) (nameOf : String → String) (since : ℤ) (dates : List ℤ) (tables : ShrinkTables)
    (rows : List SlotSnapshotRow) : List (String × List ShrinkItem) :=
  (canonForms host since rows).map fun e => (e.1, (machineShrinkage nameOf since dates tables rows e.1 e.2).items)

/-! Items. -/

section items
variable {prices : List (String × ℚ)} {threshold : ℚ} {product : String} {nets nets' : List (String × ℚ)}

/-- What a product comes to over the period. -/
def netOf (nets : List (String × ℚ)) (product : String) : ℚ :=
  ((nets.filter fun e => e.1 = product).map Prod.snd).sum

theorem shrinkAcc_eq : shrinkAcc prices nets = (OrderedMap.keySet (nets.map Prod.fst)).map fun product =>
    (product, ⟨netOf nets product, (nets.filter fun e => e.1 = product).length,
      (OrderedMap.get prices product).isNone⟩) := by
  have hfold : ∀ (l : List (String × ℚ)) (a : ShrinkAcc),
      l.foldl (fun a e => { a with net := a.net + e.2, daysCounted := a.daysCounted + 1 }) a =
        ⟨a.net + (l.map Prod.snd).sum, a.daysCounted + l.length, a.noPrice⟩ := by
    intro l
    induction l with
    | nil => simp
    | cons e l ih =>
      intro a
      rw [List.foldl_cons, ih]
      simp only [List.map_cons, List.sum_cons, List.length_cons, ShrinkAcc.mk.injEq, and_true]
      exact ⟨add_assoc _ _ _, by omega⟩
  rw [shrinkAcc, tally_eq]
  refine List.map_congr_left fun product _ => ?_
  rw [hfold, zero_add, zero_add]
  rfl

theorem mem_shrinkItems {acc : List (String × ShrinkAcc)} {i : ShrinkItem} :
    i ∈ shrinkItems prices threshold acc ↔ ∃ e ∈ acc, e.2.net ≠ 0 ∧ i = shrinkItem prices threshold e := by
  unfold shrinkItems
  rw [List.mem_insertionSort, List.mem_filter, List.mem_map]
  constructor
  · rintro ⟨⟨e, he, rfl⟩, hi⟩
    refine ⟨e, he, fun hzero => ?_, rfl⟩
    simp [shrinkItem, hzero] at hi
  · rintro ⟨e, he, hne, rfl⟩
    refine ⟨⟨e, he, rfl⟩, ?_⟩
    rcases lt_or_gt_of_ne hne with h | h <;> simp [shrinkItem, h]

/-- An item tells the net of its product. -/
theorem net_of_shrinkItem {e e' : String × ShrinkAcc}
    (h : shrinkItem prices threshold e = shrinkItem prices threshold e') : e.1 = e'.1 ∧ e.2.net = e'.2.net := by
  have hloss : max 0 e.2.net = max 0 e'.2.net := congrArg ShrinkItem.lossUnits h
  have hsurplus : max 0 (-e.2.net) = max 0 (-e'.2.net) := congrArg ShrinkItem.surplusUnits h
  refine ⟨congrArg ShrinkItem.product h, ?_⟩
  rw [max_comm, max_comm 0 e'.2.net] at hloss
  rw [max_comm, max_comm 0 (-e'.2.net)] at hsurplus
  rw [← max_zero_sub_max_neg_zero_eq_self e.2.net, ← max_zero_sub_max_neg_zero_eq_self e'.2.net, hloss, hsurplus]

theorem mem_keys_of_netOf_ne (h : netOf nets product ≠ 0) : product ∈ nets.map Prod.fst := by
  by_contra hno
  refine h ?_
  have hnil : nets.filter (fun e => e.1 = product) = [] := by
    rw [List.filter_eq_nil_iff]
    intro e he heq
    exact hno (List.mem_map.mpr ⟨e, he, of_decide_eq_true heq⟩)
  simp [netOf, hnil]

/-- What an item tells, any list of nets with the same items has to agree with. -/
theorem netOf_of_items (heq : shrinkItems prices threshold (shrinkAcc prices nets') =
    shrinkItems prices threshold (shrinkAcc prices nets)) (hne : netOf nets product ≠ 0) :
    netOf nets' product = netOf nets product := by
  have hmem : shrinkItem prices threshold (product, ⟨netOf nets product,
      (nets.filter fun e => e.1 = product).length, (OrderedMap.get prices product).isNone⟩) ∈
        shrinkItems prices threshold (shrinkAcc prices nets') := by
    rw [heq]
    refine mem_shrinkItems.mpr ⟨_, ?_, hne, rfl⟩
    rw [shrinkAcc_eq]
    exact List.mem_map.mpr ⟨product, mem_keySet.mpr (mem_keys_of_netOf_ne hne), rfl⟩
  obtain ⟨e, he, _, hitem⟩ := mem_shrinkItems.mp hmem
  rw [shrinkAcc_eq] at he
  obtain ⟨k, _, rfl⟩ := List.mem_map.mp he
  obtain ⟨hk, hnet⟩ := net_of_shrinkItem hitem
  dsimp only at hk hnet
  rw [hnet, hk]

/-- The items stay the same exactly when every net does. -/
theorem shrinkItems_eq_iff (hkeys : nets'.map Prod.fst = nets.map Prod.fst) :
    shrinkItems prices threshold (shrinkAcc prices nets') = shrinkItems prices threshold (shrinkAcc prices nets) ↔
      ∀ product, netOf nets' product = netOf nets product := by
  constructor
  · intro heq product
    by_cases hne : netOf nets product = 0
    · by_contra hdiff
      have hne' : netOf nets' product ≠ 0 := fun h => hdiff (h.trans hne.symm)
      exact hdiff (netOf_of_items heq.symm hne').symm
    · exact netOf_of_items heq hne
  · intro hnet
    have hcount : ∀ product, (nets'.filter fun e => e.1 = product).length =
        (nets.filter fun e => e.1 = product).length := by
      intro product
      have hlength : ∀ l : List (String × ℚ), (l.filter fun e => e.1 = product).length =
          ((l.map Prod.fst).filter (· = product)).length := by
        intro l
        rw [List.filter_map, List.length_map]
        rfl
      rw [hlength, hlength, hkeys]
    rw [shrinkAcc_eq, shrinkAcc_eq, hkeys]
    simp only [hnet, hcount]

end items

/-! Quantities. -/

section quantities
variable {nameOf : String → String} {slots before again after : List Slot} {product : String} {d d' : ShrinkDayInput}

/-- What the slots hold of a product. -/
def qtyOf (slots : List Slot) (product : String) : ℤ := (OrderedMap.get (qtyByProduct slots) product).getD 0

def productsOf (slots : List Slot) : List String := OrderedMap.keys (qtyByProduct slots)

theorem productsOf_eq : productsOf slots = OrderedMap.keySet ((slots.filter usable).map productName) := keys_tally _

theorem nodup_productsOf (slots : List Slot) : (productsOf slots).Nodup := by
  rw [productsOf_eq]
  exact nodup_keySet _

theorem get_qtyByProduct : OrderedMap.get (qtyByProduct slots) product =
    if product ∈ productsOf slots then some (qtyOf slots product) else none := by
  unfold qtyOf productsOf
  split_ifs with h
  · obtain ⟨n, hn⟩ := Option.isSome_iff_exists.mp (OrderedMap.mem_keys_iff.mp h)
    rw [hn]
    rfl
  · exact OrderedMap.get_eq_none_iff.mpr h

theorem qtyByProduct_eq (slots : List Slot) :
    qtyByProduct slots = (productsOf slots).map fun product => (product, qtyOf slots product) := by
  have hnd : (OrderedMap.keys (qtyByProduct slots)).Nodup := nodup_productsOf slots
  conv_lhs => rw [← List.map_id (qtyByProduct slots)]
  refine OrderedMap.map_entries_eq hnd _ _ fun k v hkv => ?_
  simp [qtyOf, hkv]

theorem qtyOf_eq_sum : qtyOf slots product =
    (((slots.filter usable).filter fun s => productName s = product).map filled).sum := by
  have hfold : ∀ (l : List Slot) (n : ℤ), l.foldl (fun n s => n + filled s) n = n + (l.map filled).sum := by
    intro l
    induction l with
    | nil => simp
    | cons s l ih =>
      intro n
      rw [List.foldl_cons, ih, List.map_cons, List.sum_cons]
      omega
  rw [qtyOf, qtyByProduct, get_tally]
  split_ifs with h
  · rw [hfold, Option.getD_some, zero_add]
  · have hnil : (slots.filter usable).filter (fun s => productName s = product) = [] := by
      rw [List.filter_eq_nil_iff]
      intro s hs heq
      exact h (List.mem_map.mpr ⟨s, hs, of_decide_eq_true heq⟩)
    rw [hnil]
    rfl

/-- Slots that come again bring no new product, and add what they hold. -/
theorem productsOf_again (h : ∀ s ∈ again, s ∈ before) :
    productsOf (before ++ again ++ after) = productsOf (before ++ after) := by
  have hkeys : ∀ k ∈ (again.filter usable).map productName, k ∈ (before.filter usable).map productName := by
    intro k hk
    obtain ⟨s, hs, rfl⟩ := List.mem_map.mp hk
    rw [List.mem_filter] at hs
    exact List.mem_map_of_mem (List.mem_filter.mpr ⟨h s hs.1, hs.2⟩)
  rw [productsOf_eq, productsOf_eq]
  simp only [List.filter_append, List.map_append]
  exact keySet_repeat hkeys

theorem qtyOf_again : qtyOf (before ++ again ++ after) product =
    qtyOf (before ++ after) product + qtyOf again product := by
  simp only [qtyOf_eq_sum, List.filter_append, List.map_append, List.sum_append]
  omega

/-! Days. -/

/-- The products that count on a day, and what each comes to. -/
def countedProducts (d : ShrinkDayInput) : List String :=
  (productsOf d.startSlots).filter fun product => product ∈ productsOf d.endSlots

def dayNet (d : ShrinkDayInput) (product : String) : ℚ :=
  (qtyOf d.startSlots product : ℚ) - (OrderedMap.get d.sales product).getD 0 - qtyOf d.endSlots product

theorem dayNets_eq (d : ShrinkDayInput) :
    dayNets d = (countedProducts d).map fun product => (product, dayNet d product) := by
  unfold dayNets countedProducts
  rw [qtyByProduct_eq d.startSlots, List.filterMap_map, ← List.filterMap_eq_map, List.filterMap_filter]
  refine List.filterMap_congr fun product _ => ?_
  simp only [Function.comp_apply, get_qtyByProduct]
  by_cases h : product ∈ productsOf d.endSlots
  · simp [h, dayNet]
  · simp [h]

theorem netOf_keyed (f : String → ℚ) {ks : List String} (hnd : ks.Nodup) :
    netOf (ks.map fun k => (k, f k)) product = if product ∈ ks then f product else 0 := by
  induction ks with
  | nil => rfl
  | cons k ks ih =>
    rw [List.nodup_cons] at hnd
    have hcons : netOf ((k :: ks).map fun k => (k, f k)) product =
        (if k = product then f k else 0) + netOf (ks.map fun k => (k, f k)) product := by
      by_cases hk : k = product <;> simp [netOf, hk]
    rw [hcons, ih hnd.2]
    by_cases hk : k = product
    · subst hk
      simp [hnd.1]
    · simp [hk, Ne.symm hk]

theorem netOf_days (days : List ShrinkDayInput) : netOf (days.flatMap dayNets) product =
    ((days.filter fun d => product ∈ countedProducts d).map fun d => dayNet d product).sum := by
  induction days with
  | nil => rfl
  | cons d days ih =>
    have hone : netOf (dayNets d) product = if product ∈ countedProducts d then dayNet d product else 0 := by
      rw [dayNets_eq]
      exact netOf_keyed _ ((nodup_productsOf _).filter _)
    have happend : netOf (dayNets d ++ days.flatMap dayNets) product =
        netOf (dayNets d) product + netOf (days.flatMap dayNets) product := by
      simp [netOf]
    rw [List.flatMap_cons, happend, hone, ih, List.filter_cons]
    split_ifs <;> simp_all

end quantities

/-! Rows that come again. -/

variable {host : Js.Host} {nameOf : String → String} {since T : ℤ} {canon product : String} {tables : ShrinkTables}
  {dates : List ℤ} {forms : List String} {snapshots : List MachineSnapshot}
  {rows before again after : List SlotSnapshotRow}

/-- The same form and moment, read from other rows. -/
def reread (nameOf : String → String) (since : ℤ) (rows : List SlotSnapshotRow) (s : MachineSnapshot) :
    MachineSnapshot := snapshotAt nameOf s.serial (rowsOfForm since rows s.serial) s.capturedAt

theorem reread_of_mem {s : MachineSnapshot} (hs : s ∈ shrinkSnapshots nameOf since rows forms) :
    reread nameOf since rows s = s := by
  unfold shrinkSnapshots byTime at hs
  rw [List.mem_insertionSort, List.mem_flatMap] at hs
  obtain ⟨form, _, hs⟩ := hs
  rw [← byTime, byTime_byMoment] at hs
  obtain ⟨t, _, rfl⟩ := List.mem_map.mp hs
  rfl

theorem Again.shrinkSnapshots_eq (h : Again T before again) :
    shrinkSnapshots nameOf since (before ++ again ++ after) forms =
      (shrinkSnapshots nameOf since (before ++ after) forms).map (reread nameOf since (before ++ again ++ after)) := by
  have hforms : (forms.flatMap fun form => byTime (byMoment nameOf form
        (Vending.rowsOfForm since (before ++ again ++ after) form))) =
      (forms.flatMap fun form => byTime (byMoment nameOf form (Vending.rowsOfForm since (before ++ after) form))).map
        (reread nameOf since (before ++ again ++ after)) := by
    rw [List.map_flatMap]
    refine List.flatMap_congr fun form _ => ?_
    have hmoments : sortedMoments (Vending.rowsOfForm since (before ++ again ++ after) form) =
        sortedMoments (Vending.rowsOfForm since (before ++ after) form) := by
      unfold sortedMoments
      rw [rowsOfForm_append, rowsOfForm_append, h.rowsOfForm.moments_eq, ← rowsOfForm_append]
    rw [byTime_byMoment, byTime_byMoment, hmoments, List.map_map]
    rfl
  unfold shrinkSnapshots
  rw [hforms, byTime_map]
  rfl

theorem nearest_map {f : MachineSnapshot → MachineSnapshot} (hf : ∀ s, (f s).capturedAt = s.capturedAt)
    (border : ℤ) : nearest (snapshots.map f) border = (nearest snapshots border).map f := by
  have hfold : ∀ best : Option MachineSnapshot,
      (snapshots.map f).foldl (closer border) (best.map f) = (snapshots.foldl (closer border) best).map f := by
    induction snapshots with
    | nil => exact fun _ => rfl
    | cons s snapshots ih =>
      intro best
      have hstep : closer border (best.map f) (f s) = (closer border best s).map f := by
        rcases best with _ | b
        · rfl
        · simp only [closer, Option.map_some, hf]
          split_ifs <;> rfl
      rw [List.map_cons, List.foldl_cons, List.foldl_cons, hstep, ih]
  have hnone : (snapshots.map f).foldl (closer border) none = (snapshots.foldl (closer border) none).map f := hfold none
  unfold nearest
  rw [hnone]
  rcases snapshots.foldl (closer border) none with _ | s
  · rfl
  · simp only [Option.map_some, Option.filter_some, hf]
    split_ifs <;> rfl

def ShrinkDay.map (f : MachineSnapshot → MachineSnapshot) (d : ShrinkDay) : ShrinkDay :=
  { d with start := f d.start, finish := f d.finish }

theorem shrinkDays_map {f : MachineSnapshot → MachineSnapshot} (hf : ∀ s, (f s).capturedAt = s.capturedAt) :
    shrinkDays tables canon (snapshots.map f) dates = (shrinkDays tables canon snapshots dates).map (ShrinkDay.map f) := by
  unfold shrinkDays
  rw [List.map_filterMap]
  refine List.filterMap_congr fun date _ => ?_
  unfold shrinkDay
  rw [nearest_map hf, nearest_map hf]
  rcases nearest snapshots (Clock.tashkentDayStart date) with _ | start
  · rfl
  · rcases nearest snapshots (Clock.tashkentDayStart date + Clock.DAY_MS) with _ | finish
    · rfl
    · simp only [Option.map_some]
      rcases OrderedMap.get tables.salesByDay (canon, date) with _ | sales
      · dsimp only
        split_ifs <;> rfl
      · rfl

theorem mem_of_nearest {border : ℤ} {s : MachineSnapshot} (h : nearest snapshots border = some s) : s ∈ snapshots := by
  have hfold : ∀ best : Option MachineSnapshot, (∀ b, best = some b → b ∈ snapshots) → ∀ later : List MachineSnapshot,
      (∀ s ∈ later, s ∈ snapshots) → ∀ b, later.foldl (closer border) best = some b → b ∈ snapshots := by
    intro best hbest later
    induction later generalizing best with
    | nil => exact fun _ b hb => hbest b hb
    | cons s later ih =>
      intro hlater
      refine ih _ (fun b hb => ?_) fun s hs => hlater s (List.mem_cons_of_mem _ hs)
      unfold closer at hb
      rcases best with _ | b'
      · obtain rfl := Option.some.inj hb
        exact hlater _ List.mem_cons_self
      · dsimp only at hb
        split_ifs at hb
        · obtain rfl := Option.some.inj hb
          exact hlater _ List.mem_cons_self
        · exact hbest b hb
  unfold nearest at h
  rw [Option.filter_eq_some_iff] at h
  exact hfold none (fun b hb => (nomatch hb)) snapshots (fun _ hs => hs) s h.1

theorem mem_of_shrinkDays {d : ShrinkDay} (hd : d ∈ shrinkDays tables canon snapshots dates) :
    d.start ∈ snapshots ∧ d.finish ∈ snapshots := by
  obtain ⟨date, _, hday⟩ := List.mem_filterMap.mp hd
  unfold shrinkDay at hday
  dsimp only at hday
  split at hday
  · next start finish hstart hfinish =>
    split at hday
    · split_ifs at hday
      obtain rfl := Option.some.inj hday
      exact ⟨mem_of_nearest hstart, mem_of_nearest hfinish⟩
    · obtain rfl := Option.some.inj hday
      exact ⟨mem_of_nearest hstart, mem_of_nearest hfinish⟩
  · cases hday

/-- The days on which a product counts. -/
def productDays (tables : ShrinkTables) (canon : String) (snapshots : List MachineSnapshot) (dates : List ℤ)
    (product : String) : List ShrinkDay :=
  (shrinkDays tables canon snapshots dates).filter fun d =>
    d.refillUnits ≤ 0 && product ∈ countedProducts d.toInput

/-- What the rows that come again add to a product at a snapshot. -/
def addedAt (nameOf : String → String) (since : ℤ) (again : List SlotSnapshotRow) (product : String)
    (s : MachineSnapshot) : ℤ := qtyOf (reread nameOf since again s).slots product

theorem slots_reread_append (s : MachineSnapshot) : (reread nameOf since (before ++ again ++ after) s).slots =
    (reread nameOf since before s).slots ++ (reread nameOf since again s).slots ++
      (reread nameOf since after s).slots := by
  simp [reread, snapshotAt, slotsAt, rowsOfForm_append]

theorem Again.slots_subset (h : Again T before again) (s : MachineSnapshot) :
    ∀ x ∈ (reread nameOf since again s).slots, x ∈ (reread nameOf since before s).slots := by
  intro x hx
  obtain ⟨r, hr, rfl⟩ := List.mem_map.mp hx
  exact List.mem_map_of_mem ((h.rowsOfForm.filter _) r hr).1

theorem slots_of_reread {s : MachineSnapshot} (hs : reread nameOf since (before ++ after) s = s) :
    s.slots = (reread nameOf since before s).slots ++ (reread nameOf since after s).slots := by
  conv_lhs => rw [← hs]
  simp [reread, snapshotAt, slotsAt, rowsOfForm_append]

/-- A snapshot holds the same products as before, and more of each by what comes again. -/
theorem Again.productsOf_reread (h : Again T before again) {s : MachineSnapshot}
    (hs : reread nameOf since (before ++ after) s = s) :
    productsOf (reread nameOf since (before ++ again ++ after) s).slots = productsOf s.slots := by
  rw [slots_reread_append, productsOf_again (h.slots_subset s), slots_of_reread hs]

theorem qtyOf_reread {s : MachineSnapshot} (hs : reread nameOf since (before ++ after) s = s) :
    qtyOf (reread nameOf since (before ++ again ++ after) s).slots product =
      qtyOf s.slots product + addedAt nameOf since again product s := by
  rw [slots_reread_append, qtyOf_again, slots_of_reread hs]
  rfl

/-- The days of the report that count, with the snapshots read again. -/
theorem countedDays_map {f : MachineSnapshot → MachineSnapshot} (hf : ∀ s, (f s).capturedAt = s.capturedAt) :
    countedDays ((shrinkDays tables canon (snapshots.map f) dates).map ShrinkDay.toInput) =
      ((shrinkDays tables canon snapshots dates).filter fun d => d.refillUnits ≤ 0).map
        fun d => (d.map f).toInput := by
  rw [shrinkDays_map hf, List.map_map, countedDays, List.filter_map]
  rfl

/-- The net of a product moves by what comes again at the starts, less what comes again at the ends. -/
theorem netOf_moved {f : MachineSnapshot → MachineSnapshot} {days : List ShrinkDay} {added : MachineSnapshot → ℤ}
    (hproducts : ∀ d ∈ days, countedProducts (d.map f).toInput = countedProducts d.toInput)
    (hnet : ∀ d ∈ days, dayNet (d.map f).toInput product =
      dayNet d.toInput product + ((added d.start : ℚ) - added d.finish)) :
    netOf ((days.map fun d => (d.map f).toInput).flatMap dayNets) product =
      netOf ((days.map ShrinkDay.toInput).flatMap dayNets) product +
        ((((days.filter fun d => product ∈ countedProducts d.toInput).map fun d => added d.start).sum : ℤ) -
          (((days.filter fun d => product ∈ countedProducts d.toInput).map fun d => added d.finish).sum : ℤ)) := by
  rw [netOf_days, netOf_days]
  induction days with
  | nil => simp
  | cons d days ih =>
    have hrest := ih (fun d' hd' => hproducts d' (List.mem_cons_of_mem _ hd'))
      (fun d' hd' => hnet d' (List.mem_cons_of_mem _ hd'))
    rw [List.map_cons, List.map_cons, List.filter_cons, List.filter_cons, List.filter_cons,
      hproducts d List.mem_cons_self]
    split_ifs with hin
    · simp only [List.map_cons, List.sum_cons, hnet d List.mem_cons_self, hrest]
      push_cast
      ring
    · exact hrest

/-- The items of a machine stay as they were exactly when for every product the rows that come again add
as much to the starts of its days as to their ends. -/
theorem Again.machineShrinkage_iff (h : Again T before again) :
    (machineShrinkage nameOf since dates tables (before ++ again ++ after) canon forms).items =
        (machineShrinkage nameOf since dates tables (before ++ after) canon forms).items ↔
      ∀ product,
        ((productDays tables canon (shrinkSnapshots nameOf since (before ++ after) forms) dates product).map
          fun d => addedAt nameOf since again product d.start).sum =
        ((productDays tables canon (shrinkSnapshots nameOf since (before ++ after) forms) dates product).map
          fun d => addedAt nameOf since again product d.finish).sum := by
  set snapshots := shrinkSnapshots nameOf since (before ++ after) forms with hsnapshots
  set f := reread nameOf since (before ++ again ++ after) with hf
  set days := (shrinkDays tables canon snapshots dates).filter fun d => d.refillUnits ≤ 0 with hdays
  have hmem : ∀ d ∈ days, reread nameOf since (before ++ after) d.start = d.start ∧
      reread nameOf since (before ++ after) d.finish = d.finish := by
    intro d hd
    obtain ⟨hstart, hfinish⟩ := mem_of_shrinkDays (List.mem_filter.mp hd).1
    exact ⟨reread_of_mem hstart, reread_of_mem hfinish⟩
  have hproducts : ∀ d ∈ days, countedProducts (d.map f).toInput = countedProducts d.toInput := by
    intro d hd
    obtain ⟨hstart, hfinish⟩ := hmem d hd
    have hs : productsOf (f d.start).slots = productsOf d.start.slots := h.productsOf_reread hstart
    have he : productsOf (f d.finish).slots = productsOf d.finish.slots := h.productsOf_reread hfinish
    unfold countedProducts ShrinkDay.toInput ShrinkDay.map
    rw [hs, he]
  have hnet : ∀ product, ∀ d ∈ days, dayNet (d.map f).toInput product = dayNet d.toInput product +
      ((addedAt nameOf since again product d.start : ℚ) - addedAt nameOf since again product d.finish) := by
    intro product d hd
    obtain ⟨hstart, hfinish⟩ := hmem d hd
    simp only [dayNet, ShrinkDay.toInput, ShrinkDay.map, hf, qtyOf_reread hstart, qtyOf_reread hfinish]
    push_cast
    ring
  have hkeys : ((days.map fun d => (d.map f).toInput).flatMap dayNets).map Prod.fst =
      ((days.map ShrinkDay.toInput).flatMap dayNets).map Prod.fst := by
    rw [List.map_flatMap, List.map_flatMap, List.flatMap_map, List.flatMap_map]
    refine List.flatMap_congr fun d hd => ?_
    rw [dayNets_eq, dayNets_eq, hproducts d hd, List.map_map, List.map_map]
    rfl
  have htime : ∀ s, (f s).capturedAt = s.capturedAt := fun _ => rfl
  unfold machineShrinkage shrinkageByDay
  rw [h.shrinkSnapshots_eq, ← hsnapshots, ← hf, countedDays_map htime]
  have hplain : countedDays ((shrinkDays tables canon snapshots dates).map ShrinkDay.toInput) =
      days.map ShrinkDay.toInput := by
    rw [countedDays, List.filter_map]
    rfl
  rw [hplain, ← hdays]
  rw [shrinkItems_eq_iff hkeys]
  refine forall_congr' fun product => ?_
  have hdaysOf : productDays tables canon snapshots dates product =
      days.filter fun d => product ∈ countedProducts d.toInput := by
    rw [productDays, hdays, List.filter_filter]
    refine List.filter_congr fun d _ => ?_
    rw [Bool.and_comm]
  rw [netOf_moved hproducts (hnet product), hdaysOf, add_eq_left, sub_eq_zero]
  exact Int.cast_inj

/-- All machines. -/
theorem Again.historyShrinkage_iff (h : Again T before again) :
    historyShrinkage host nameOf since dates tables (before ++ again ++ after) =
        historyShrinkage host nameOf since dates tables (before ++ after) ↔
      ∀ e ∈ canonForms host since (before ++ after), ∀ product,
        ((productDays tables e.1 (shrinkSnapshots nameOf since (before ++ after) e.2) dates product).map
          fun d => addedAt nameOf since again product d.start).sum =
        ((productDays tables e.1 (shrinkSnapshots nameOf since (before ++ after) e.2) dates product).map
          fun d => addedAt nameOf since again product d.finish).sum := by
  unfold historyShrinkage
  rw [h.canonForms_eq, List.map_inj_left]
  refine forall₂_congr fun e _ => ?_
  rw [Prod.mk.injEq]
  simp only [true_and]
  exact h.machineShrinkage_iff

end Mydon.Vending
