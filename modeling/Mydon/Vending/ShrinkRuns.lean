import Mydon.Vending.Shrinkage
import Mathlib.Tactic.IntervalCases
import Mathlib.Tactic.Linarith

/-! The shrinkage over a run of counted days: the snapshot that ends a day is the one that starts the
next, so that what a product comes to depends on the two ends of the run and on its sales in between. -/

namespace Mydon.Vending

open Mydon.Lib

@[simp] theorem ShrinkDay.refillUnits_toInput (d : ShrinkDay) : d.toInput.refillUnits = d.refillUnits := rfl

/-- The report over the snapshots of one machine. -/
def shrinkageOf (tables : ShrinkTables) (canon : String) (snapshots : List MachineSnapshot) (dates : List ℤ) :
    ShrinkSummary :=
  shrinkageByDay ((shrinkDays tables canon snapshots dates).map ShrinkDay.toInput) tables.prices tables.threshold

/-- The days of a period. -/
def periodFrom (first : ℤ) (days : ℕ) : List ℤ := (List.range days).map fun i : ℕ => first + (i : ℤ)

/-- The snapshot at the border of two days. -/
def atBorder (snapshots : List MachineSnapshot) (day : ℤ) : Option MachineSnapshot :=
  nearest snapshots (Clock.tashkentDayStart day)

def heldAt (snapshots : List MachineSnapshot) (day : ℤ) (product : String) : ℚ :=
  ((atBorder snapshots day).map fun s => (qtyOf s.slots product : ℚ)).getD 0

def soldOn (tables : ShrinkTables) (canon : String) (product : String) (day : ℤ) : ℚ :=
  ((OrderedMap.get tables.salesByDay (canon, day)).bind fun sales => OrderedMap.get sales product).getD 0

/-- What the products come to on a day; nothing on a day that is not counted. -/
def netsOn (tables : ShrinkTables) (canon : String) (snapshots : List MachineSnapshot) (date : ℤ) : List (String × ℚ) :=
  (((shrinkDay tables canon snapshots date).map ShrinkDay.toInput).filter fun d => d.refillUnits ≤ 0).elim [] dayNets

/-- What a product comes to over some days. -/
def netOver (tables : ShrinkTables) (canon : String) (snapshots : List MachineSnapshot) (dates : List ℤ)
    (product : String) : ℚ := netOf (dates.flatMap (netsOn tables canon snapshots)) product

/-- A day that is skipped: a border has no snapshot, the sales are missing, or there was a refill. -/
def Skipped (tables : ShrinkTables) (canon : String) (snapshots : List MachineSnapshot) (date : ℤ) : Prop :=
  ∀ d, shrinkDay tables canon snapshots date = some d → 0 < d.refillUnits

/-- Consecutive counted days with a product at every border. -/
structure CountedRun (tables : ShrinkTables) (canon : String) (snapshots : List MachineSnapshot) (first : ℤ) (days : ℕ)
    (product : String) : Prop where
  quiet : ∀ i < days, (OrderedMap.get tables.arrivedByDay (canon, first + (i : ℤ))).getD 0 ≤ 0
  collected : ∀ i < days, (OrderedMap.get tables.salesByDay (canon, first + (i : ℤ))).isSome
  borders : ∀ i ≤ days, ∃ s, atBorder snapshots (first + (i : ℤ)) = some s ∧ product ∈ productsOf s.slots

section runs
variable {tables : ShrinkTables} {canon product : String} {snapshots : List MachineSnapshot} {dates : List ℤ}
  {first : ℤ} {days : ℕ}

theorem netOf_append (xs ys : List (String × ℚ)) : netOf (xs ++ ys) product = netOf xs product + netOf ys product := by
  simp [netOf]

theorem netOver_append (before after : List ℤ) : netOver tables canon snapshots (before ++ after) product =
    netOver tables canon snapshots before product + netOver tables canon snapshots after product := by
  rw [netOver, List.flatMap_append, netOf_append]
  rfl

/-- The report adds up its days one by one. -/
theorem countedDays_flatMap (tables : ShrinkTables) (canon : String) (snapshots : List MachineSnapshot) (dates : List ℤ) :
    (countedDays ((shrinkDays tables canon snapshots dates).map ShrinkDay.toInput)).flatMap dayNets =
      dates.flatMap (netsOn tables canon snapshots) := by
  unfold shrinkDays countedDays netsOn
  induction dates with
  | nil => rfl
  | cons date dates ih =>
    rw [List.flatMap_cons, ← ih]
    rcases h : shrinkDay tables canon snapshots date with _ | d
    · rw [List.filterMap_cons_none h]
      rfl
    · rw [List.filterMap_cons_some h, List.map_cons, Option.map_some]
      by_cases hquiet : d.toInput.refillUnits ≤ 0
      · have hkept : decide (d.toInput.refillUnits ≤ 0) = true := decide_eq_true hquiet
        rw [List.filter_cons, Option.filter_some, if_pos hkept, if_pos hkept, List.flatMap_cons]
        rfl
      · have hleft : ¬ decide (d.toInput.refillUnits ≤ 0) = true := fun h => hquiet (of_decide_eq_true h)
        rw [List.filter_cons, Option.filter_some, if_neg hleft, if_neg hleft]
        rfl

theorem shrinkageOf_items (tables : ShrinkTables) (canon : String) (snapshots : List MachineSnapshot) (dates : List ℤ) :
    (shrinkageOf tables canon snapshots dates).items = shrinkItems tables.prices tables.threshold
      (shrinkAcc tables.prices (dates.flatMap (netsOn tables canon snapshots))) := by
  rw [← countedDays_flatMap]
  rfl

theorem netsOn_of_skipped (h : Skipped tables canon snapshots first) : netsOn tables canon snapshots first = [] := by
  unfold netsOn
  rcases hd : shrinkDay tables canon snapshots first with _ | d
  · rfl
  · have hpos : ¬ d.toInput.refillUnits ≤ 0 := not_le.mpr (h d hd)
    rw [Option.map_some, Option.filter_some, if_neg fun h => hpos (of_decide_eq_true h)]
    rfl

/-- A day of a run has the snapshots of its two borders. -/
theorem CountedRun.shrinkDay_eq (h : CountedRun tables canon snapshots first days product) {i : ℕ} (hi : i < days) :
    ∃ start finish sales, atBorder snapshots (first + (i : ℤ)) = some start ∧
      atBorder snapshots (first + ((i + 1 : ℕ) : ℤ)) = some finish ∧
      OrderedMap.get tables.salesByDay (canon, first + (i : ℤ)) = some sales ∧
      shrinkDay tables canon snapshots (first + (i : ℤ)) =
        some ⟨first + (i : ℤ), start, finish, sales, (OrderedMap.get tables.arrivedByDay (canon, first + (i : ℤ))).getD 0⟩ := by
  obtain ⟨start, hstart, -⟩ := h.borders i hi.le
  obtain ⟨finish, hfinish, -⟩ := h.borders (i + 1) hi
  obtain ⟨sales, hsales⟩ := Option.isSome_iff_exists.mp (h.collected i hi)
  refine ⟨start, finish, sales, hstart, hfinish, hsales, ?_⟩
  have hnext : Clock.tashkentDayStart (first + (i : ℤ)) + Clock.DAY_MS =
      Clock.tashkentDayStart (first + ((i + 1 : ℕ) : ℤ)) := by
    unfold Clock.tashkentDayStart Clock.DAY_MS
    push_cast
    ring
  unfold atBorder at hstart hfinish
  unfold shrinkDay
  rw [hnext, hstart, hfinish, hsales]

theorem netOf_dayNets (d : ShrinkDayInput) :
    netOf (dayNets d) product = if product ∈ countedProducts d then dayNet d product else 0 := by
  rw [dayNets_eq]
  exact netOf_keyed _ ((nodup_productsOf _).filter _)

theorem netOf_netsOn {d : ShrinkDay} (hd : shrinkDay tables canon snapshots first = some d) (hquiet : d.refillUnits ≤ 0) :
    netOf (netsOn tables canon snapshots first) product =
      if product ∈ productsOf d.start.slots ∧ product ∈ productsOf d.finish.slots then dayNet d.toInput product else 0 := by
  unfold netsOn
  rw [hd, Option.map_some, Option.filter_some, ShrinkDay.refillUnits_toInput, if_pos (decide_eq_true hquiet),
    Option.elim_some, netOf_dayNets]
  refine if_congr ?_ rfl rfl
  unfold countedProducts
  rw [List.mem_filter, decide_eq_true_eq]
  rfl

/-- One day of a run: from border to border, less its sales. -/
theorem CountedRun.netOf_day (h : CountedRun tables canon snapshots first days product) {i : ℕ} (hi : i < days) :
    netOf (netsOn tables canon snapshots (first + (i : ℤ))) product =
      heldAt snapshots (first + (i : ℤ)) product - soldOn tables canon product (first + (i : ℤ)) -
        heldAt snapshots (first + ((i + 1 : ℕ) : ℤ)) product := by
  obtain ⟨start, finish, sales, hstart, hfinish, hsales, hday⟩ := h.shrinkDay_eq hi
  obtain ⟨s, hs, hin⟩ := h.borders i hi.le
  obtain rfl := Option.some.inj (hstart.symm.trans hs)
  obtain ⟨s, hs, hin'⟩ := h.borders (i + 1) hi
  obtain rfl := Option.some.inj (hfinish.symm.trans hs)
  rw [netOf_netsOn hday (h.quiet i hi), if_pos ⟨hin, hin'⟩]
  simp only [heldAt, soldOn, hstart, hfinish, hsales, Option.map_some, Option.getD_some, Option.bind_some]
  rfl

theorem periodFrom_succ (first : ℤ) (days : ℕ) : periodFrom first (days + 1) = periodFrom first days ++ [first + (days : ℤ)] := by
  simp [periodFrom, List.range_succ]

theorem CountedRun.init (h : CountedRun tables canon snapshots first (days + 1) product) :
    CountedRun tables canon snapshots first days product where
  quiet i hi := h.quiet i (hi.trans (Nat.lt_succ_self _))
  collected i hi := h.collected i (hi.trans (Nat.lt_succ_self _))
  borders i hi := h.borders i (hi.trans (Nat.le_succ _))

/-- Over a run the borders in between cancel out. -/
theorem CountedRun.netOver_eq (h : CountedRun tables canon snapshots first days product) :
    netOver tables canon snapshots (periodFrom first days) product =
      heldAt snapshots first product - heldAt snapshots (first + (days : ℤ)) product -
        ((periodFrom first days).map (soldOn tables canon product)).sum := by
  induction days with
  | zero => simp [netOver, netOf, periodFrom]
  | succ days ih =>
    have hlast : netOver tables canon snapshots [first + (days : ℤ)] product =
        netOf (netsOn tables canon snapshots (first + (days : ℤ))) product := by
      simp [netOver]
    rw [periodFrom_succ, netOver_append, ih h.init, hlast, h.netOf_day (Nat.lt_succ_self days), List.map_append,
      List.sum_append, List.map_singleton, List.sum_singleton]
    ring

theorem periodFrom_add (first : ℤ) (a b : ℕ) :
    periodFrom first (a + b) = periodFrom first a ++ periodFrom (first + (a : ℤ)) b := by
  simp only [periodFrom, List.range_add, List.map_append, List.map_map]
  refine congrArg _ (List.map_congr_left fun i _ => ?_)
  simp only [Function.comp]
  push_cast
  ring

/-! The items of the report. -/

/-- What an item says: one side of the net of its product, at the price of the product. -/
structure ShrinkItem.Says (prices : List (String × ℚ)) (net : ℚ) (i : ShrinkItem) : Prop where
  loss : i.lossUnits = max 0 net
  surplus : i.surplusUnits = max 0 (-net)
  oneSided : i.lossUnits = 0 ∨ i.surplusUnits = 0
  value : i.lossValue = i.lossUnits * (OrderedMap.get prices i.product).getD 0

theorem says_of_mem {i : ShrinkItem} (hi : i ∈ (shrinkageOf tables canon snapshots dates).items) :
    i.Says tables.prices (netOver tables canon snapshots dates i.product) := by
  rw [shrinkageOf_items, mem_shrinkItems] at hi
  obtain ⟨e, he, -, rfl⟩ := hi
  rw [shrinkAcc_eq] at he
  obtain ⟨product, -, rfl⟩ := List.mem_map.mp he
  refine ⟨rfl, rfl, ?_, ?_⟩
  · unfold shrinkItem
    rcases le_total (netOf (dates.flatMap (netsOn tables canon snapshots)) product) 0 with h | h
    · exact .inl (max_eq_left h)
    · exact .inr (max_eq_left (neg_nonpos.mpr h))
  · unfold shrinkItem
    cases OrderedMap.get tables.prices product with
    | none => exact (mul_zero _).symm
    | some price => rfl

/-- A product has its one item when it comes to something. -/
theorem exists_item_iff : (∃ i ∈ (shrinkageOf tables canon snapshots dates).items, i.product = product) ↔
    netOver tables canon snapshots dates product ≠ 0 := by
  rw [shrinkageOf_items]
  constructor
  · rintro ⟨i, hi, rfl⟩
    obtain ⟨e, he, hne, rfl⟩ := mem_shrinkItems.mp hi
    rw [shrinkAcc_eq] at he
    obtain ⟨product, -, rfl⟩ := List.mem_map.mp he
    exact hne
  · intro hne
    obtain ⟨acc, hacc, hnet⟩ : ∃ acc, (product, acc) ∈ shrinkAcc tables.prices (dates.flatMap (netsOn tables canon snapshots)) ∧
        acc.net = netOver tables canon snapshots dates product := by
      rw [shrinkAcc_eq]
      exact ⟨_, List.mem_map.mpr ⟨product, mem_keySet.mpr (mem_keys_of_netOf_ne hne), rfl⟩, rfl⟩
    exact ⟨_, mem_shrinkItems.mpr ⟨_, hacc, by rwa [hnet], rfl⟩, rfl⟩

/-! A sale that moves to another day of the run. -/

/-- The sales of one product moved within a run; every day of it still has sales. -/
structure Moved (tables : ShrinkTables) (canon : String) (first : ℤ) (days : ℕ) (product : String)
    (salesByDay : List ((String × ℤ) × List (String × ℚ))) : Prop where
  outside : ∀ day ∉ periodFrom first days, OrderedMap.get salesByDay (canon, day) = OrderedMap.get tables.salesByDay (canon, day)
  collected : ∀ i < days, (OrderedMap.get salesByDay (canon, first + (i : ℤ))).isSome
  others : ∀ day other, other ≠ product →
    soldOn { tables with salesByDay } canon other day = soldOn tables canon other day
  sum : ((periodFrom first days).map (soldOn { tables with salesByDay } canon product)).sum =
    ((periodFrom first days).map (soldOn tables canon product)).sum

variable {salesByDay : List ((String × ℤ) × List (String × ℚ))}

theorem Moved.run (hmoved : Moved tables canon first days product salesByDay)
    (h : CountedRun tables canon snapshots first days product) :
    CountedRun { tables with salesByDay } canon snapshots first days product where
  quiet := h.quiet
  collected := hmoved.collected
  borders := h.borders

theorem mem_periodFrom {day : ℤ} : day ∈ periodFrom first days ↔ ∃ i < days, day = first + (i : ℤ) := by
  simp only [periodFrom, List.mem_map, List.mem_range, eq_comm]

/-- Every day is counted as before, for the same products. -/
theorem Moved.day (hmoved : Moved tables canon first days product salesByDay)
    (h : CountedRun tables canon snapshots first days product) (day : ℤ) :
    (shrinkDay { tables with salesByDay } canon snapshots day).map (fun d => (d.start, d.finish, d.refillUnits)) =
        (shrinkDay tables canon snapshots day).map (fun d => (d.start, d.finish, d.refillUnits)) ∧
      ∀ other, other ≠ product → netOf (netsOn { tables with salesByDay } canon snapshots day) other =
        netOf (netsOn tables canon snapshots day) other := by
  by_cases hday : day ∈ periodFrom first days
  · obtain ⟨i, hi, rfl⟩ := mem_periodFrom.mp hday
    obtain ⟨start, finish, sales, hstart, hfinish, hsales, heq⟩ := h.shrinkDay_eq hi
    obtain ⟨start', finish', sales', hstart', hfinish', hsales', heq'⟩ := (hmoved.run h).shrinkDay_eq hi
    obtain rfl := Option.some.inj (hstart.symm.trans hstart')
    obtain rfl := Option.some.inj (hfinish.symm.trans hfinish')
    refine ⟨by rw [heq, heq']; rfl, fun other hother => ?_⟩
    have hsold := hmoved.others (first + (i : ℤ)) other hother
    simp only [soldOn, hsales, hsales', Option.bind_some] at hsold
    rw [netOf_netsOn heq (h.quiet i hi), netOf_netsOn heq' (h.quiet i hi)]
    simp only [dayNet, ShrinkDay.toInput, hsold]
  · have hsame : shrinkDay { tables with salesByDay } canon snapshots day = shrinkDay tables canon snapshots day := by
      unfold shrinkDay
      rw [hmoved.outside day hday]
    refine ⟨by rw [hsame], fun other _ => ?_⟩
    rw [netsOn, netsOn, hsame]

/-- The products of a day, by what the day is counted from. -/
theorem keys_netsOn (day : ℤ) : (netsOn tables canon snapshots day).map Prod.fst =
    (((shrinkDay tables canon snapshots day).map fun d => (d.start, d.finish, d.refillUnits)).filter fun d => d.2.2 ≤ 0).elim []
      fun d => (productsOf d.1.slots).filter fun product => product ∈ productsOf d.2.1.slots := by
  unfold netsOn
  rcases shrinkDay tables canon snapshots day with _ | d
  · rfl
  · rw [Option.map_some, Option.map_some, Option.filter_some, Option.filter_some, ShrinkDay.refillUnits_toInput]
    by_cases hquiet : d.refillUnits ≤ 0
    · rw [if_pos (decide_eq_true hquiet), if_pos (decide_eq_true hquiet),
        Option.elim_some, Option.elim_some, dayNets_eq, List.map_map]
      exact List.map_id _
    · rw [if_neg fun h => hquiet (of_decide_eq_true h), if_neg fun h => hquiet (of_decide_eq_true h)]
      rfl

theorem refillUnits_shrinkDays (dates : List ℤ) :
    ((shrinkDays tables canon snapshots dates).map ShrinkDay.toInput).map (·.refillUnits) = dates.filterMap fun day =>
      ((shrinkDay tables canon snapshots day).map fun d => (d.start, d.finish, d.refillUnits)).map (·.2.2) := by
  rw [shrinkDays, List.map_map, List.map_filterMap]
  refine List.filterMap_congr fun day _ => ?_
  rw [Option.map_map]
  rfl

theorem length_countedDays (inputs : List ShrinkDayInput) :
    (countedDays inputs).length = ((inputs.map (·.refillUnits)).filter fun units => units ≤ 0).length := by
  rw [countedDays, List.filter_map, List.length_map]
  rfl

/-- A sale that moves within the run changes nothing in the report. -/
theorem Moved.shrinkageOf_eq (hmoved : Moved tables canon first days product salesByDay)
    (h : CountedRun tables canon snapshots first days product) {before after : List ℤ}
    (hdates : dates = before ++ (periodFrom first days ++ after)) (hbefore : ∀ day ∈ before, day ∉ periodFrom first days)
    (hafter : ∀ day ∈ after, day ∉ periodFrom first days) :
    shrinkageOf { tables with salesByDay } canon snapshots dates = shrinkageOf tables canon snapshots dates := by
  have hunits : ((shrinkDays { tables with salesByDay } canon snapshots dates).map ShrinkDay.toInput).map (·.refillUnits) =
      ((shrinkDays tables canon snapshots dates).map ShrinkDay.toInput).map (·.refillUnits) := by
    rw [refillUnits_shrinkDays, refillUnits_shrinkDays]
    exact List.filterMap_congr fun day _ => by rw [(hmoved.day h day).1]
  have hkeys : (dates.flatMap (netsOn { tables with salesByDay } canon snapshots)).map Prod.fst =
      (dates.flatMap (netsOn tables canon snapshots)).map Prod.fst := by
    rw [List.map_flatMap, List.map_flatMap]
    exact List.flatMap_congr fun day _ => by rw [keys_netsOn, keys_netsOn, (hmoved.day h day).1]
  have hdays : ∀ (days : List ℤ) (other : String), (∀ day ∈ days, netOf (netsOn { tables with salesByDay } canon snapshots day) other =
      netOf (netsOn tables canon snapshots day) other) →
        netOver { tables with salesByDay } canon snapshots days other = netOver tables canon snapshots days other := by
    intro days other hall
    induction days with
    | nil => rfl
    | cons day days ih =>
      obtain ⟨hday, hrest⟩ := List.forall_mem_cons.mp hall
      rw [netOver, netOver, List.flatMap_cons, List.flatMap_cons, netOf_append, netOf_append, hday]
      exact congrArg _ (ih hrest)
  have hsame : ∀ day ∉ periodFrom first days, ∀ other, netOf (netsOn { tables with salesByDay } canon snapshots day) other =
      netOf (netsOn tables canon snapshots day) other := by
    intro day hday other
    have heq : shrinkDay { tables with salesByDay } canon snapshots day = shrinkDay tables canon snapshots day := by
      unfold shrinkDay
      rw [hmoved.outside day hday]
    rw [netsOn, netsOn, heq]
  have hnets : ∀ other, netOver { tables with salesByDay } canon snapshots dates other =
      netOver tables canon snapshots dates other := by
    intro other
    by_cases hother : other = product
    · subst hother
      rw [hdates, netOver_append, netOver_append, netOver_append, netOver_append, (hmoved.run h).netOver_eq, h.netOver_eq,
        hmoved.sum, hdays before other fun day hday => hsame day (hbefore day hday) other,
        hdays after other fun day hday => hsame day (hafter day hday) other]
    · exact hdays dates other fun day _ => (hmoved.day h day).2 other hother
  have hitems : (shrinkageOf { tables with salesByDay } canon snapshots dates).items =
      (shrinkageOf tables canon snapshots dates).items := by
    rw [shrinkageOf_items, shrinkageOf_items]
    exact (shrinkItems_eq_iff hkeys).mpr hnets
  have hcounted : (countedDays ((shrinkDays { tables with salesByDay } canon snapshots dates).map ShrinkDay.toInput)).length =
      (countedDays ((shrinkDays tables canon snapshots dates).map ShrinkDay.toInput)).length := by
    rw [length_countedDays, length_countedDays, hunits]
  have hlength := congrArg List.length hunits
  simp only [List.length_map] at hlength
  unfold shrinkageOf shrinkageByDay at hitems ⊢
  dsimp only at hitems ⊢
  rw [hitems, hcounted]
  simp only [List.length_map, hlength]

/-- What the report says of its products, whatever the days. -/
structure ReportLaws (tables : ShrinkTables) (canon : String) (snapshots : List MachineSnapshot) (dates : List ℤ) :
    Prop where
  items : ∀ i ∈ (shrinkageOf tables canon snapshots dates).items,
    i.Says tables.prices (netOver tables canon snapshots dates i.product)
  listed : ∀ product, (∃ i ∈ (shrinkageOf tables canon snapshots dates).items, i.product = product) ↔
    netOver tables canon snapshots dates product ≠ 0
  value : (shrinkageOf tables canon snapshots dates).lossValue = ((shrinkageOf tables canon snapshots dates).items.map
    fun i => i.lossUnits * (OrderedMap.get tables.prices i.product).getD 0).sum
  skipped : ∀ before date after, dates = before ++ date :: after → Skipped tables canon snapshots date →
    (shrinkageOf tables canon snapshots dates).items = (shrinkageOf tables canon snapshots (before ++ after)).items ∧
      (shrinkageOf tables canon snapshots dates).daysCounted =
        (shrinkageOf tables canon snapshots (before ++ after)).daysCounted

theorem reportLaws (tables : ShrinkTables) (canon : String) (snapshots : List MachineSnapshot) (dates : List ℤ) :
    ReportLaws tables canon snapshots dates where
  items _ hi := says_of_mem hi
  listed _ := exists_item_iff
  value := congrArg List.sum (List.map_congr_left fun _ hi => (says_of_mem hi).value)
  skipped := by
    rintro before date after rfl hskipped
    constructor
    · rw [shrinkageOf_items, shrinkageOf_items, List.flatMap_append, List.flatMap_cons, netsOn_of_skipped hskipped,
        List.nil_append, List.flatMap_append]
    · change (countedDays _).length = (countedDays _).length
      rw [length_countedDays, length_countedDays, refillUnits_shrinkDays, refillUnits_shrinkDays, List.filterMap_append,
        List.filterMap_append, List.filter_append, List.filter_append]
      rcases hday : shrinkDay tables canon snapshots date with _ | d
      · rw [List.filterMap_cons_none (by rw [hday]; rfl)]
      · rw [List.filterMap_cons_some (by rw [hday]; rfl), List.filter_cons_of_neg (by simpa using hskipped d hday)]

/-- Over every run of counted days a product comes to what it was at the first border less what it was at the last and
less its sales, whatever day they are booked on; the report adds up such days and nothing else. -/
theorem shrinkage_telescopes (tables : ShrinkTables) (canon : String) (snapshots : List MachineSnapshot) (first : ℤ)
    (days : ℕ) : ReportLaws tables canon snapshots (periodFrom first days) ∧
    ∀ skip length rest product, days = skip + length + rest →
      CountedRun tables canon snapshots (first + (skip : ℤ)) length product →
        netOver tables canon snapshots (periodFrom first days) product =
            netOver tables canon snapshots (periodFrom first skip) product +
              (heldAt snapshots (first + (skip : ℤ)) product - heldAt snapshots (first + ((skip + length : ℕ) : ℤ)) product -
                ((periodFrom (first + (skip : ℤ)) length).map (soldOn tables canon product)).sum) +
              netOver tables canon snapshots (periodFrom (first + ((skip + length : ℕ) : ℤ)) rest) product ∧
          ∀ salesByDay, Moved tables canon (first + (skip : ℤ)) length product salesByDay →
            shrinkageOf { tables with salesByDay } canon snapshots (periodFrom first days) =
              shrinkageOf tables canon snapshots (periodFrom first days) := by
  refine ⟨reportLaws _ _ _ _, fun skip length rest product hdays h => ?_⟩
  have hsplit : periodFrom first days = periodFrom first skip ++ (periodFrom (first + (skip : ℤ)) length ++
      periodFrom (first + ((skip + length : ℕ) : ℤ)) rest) := by
    rw [hdays, periodFrom_add, periodFrom_add, List.append_assoc]
  have hend : first + (skip : ℤ) + (length : ℤ) = first + ((skip + length : ℕ) : ℤ) := by
    push_cast
    ring
  constructor
  · rw [hsplit, netOver_append, netOver_append, h.netOver_eq, hend]
    ring
  · intro salesByDay hmoved
    refine hmoved.shrinkageOf_eq h hsplit (fun day hday hin => ?_) fun day hday hin => ?_
    · obtain ⟨i, hi, rfl⟩ := mem_periodFrom.mp hday
      obtain ⟨j, -, hj⟩ := mem_periodFrom.mp hin
      omega
    · obtain ⟨i, -, rfl⟩ := mem_periodFrom.mp hday
      obtain ⟨j, hj, hj'⟩ := mem_periodFrom.mp hin
      omega

end runs

/-- A machine that held nine cans, then six and six. -/
def threeBorders : List MachineSnapshot :=
  [⟨"7", Clock.tashkentDayStart 0, [⟨"1", some "cola", 10, 9⟩]⟩, ⟨"7", Clock.tashkentDayStart 1, [⟨"1", some "cola", 10, 6⟩]⟩,
    ⟨"7", Clock.tashkentDayStart 2, [⟨"1", some "cola", 10, 6⟩]⟩]

/-- One of the three cans sold on the first day is booked on the second. -/
def bookedLate : ShrinkTables where
  salesByDay := [(("7", 0), [("cola", 2)]), (("7", 1), [("cola", 1)])]
  arrivedByDay := []
  prices := [("cola", 5000)]
  threshold := 0

def bookedInTime : List ((String × ℤ) × List (String × ℚ)) := [(("7", 0), [("cola", 3)]), (("7", 1), [("cola", 0)])]

theorem countedRun_bookedLate : CountedRun bookedLate "7" threeBorders 0 2 "cola" where
  quiet := by decide +kernel
  collected := by decide +kernel
  borders := by
    intro i hi
    interval_cases i
    · exact ⟨⟨"7", Clock.tashkentDayStart 0, [⟨"1", some "cola", 10, 9⟩]⟩, by decide +kernel, by decide +kernel⟩
    · exact ⟨⟨"7", Clock.tashkentDayStart 1, [⟨"1", some "cola", 10, 6⟩]⟩, by decide +kernel, by decide +kernel⟩
    · exact ⟨⟨"7", Clock.tashkentDayStart 2, [⟨"1", some "cola", 10, 6⟩]⟩, by decide +kernel, by decide +kernel⟩

theorem moved_bookedInTime : Moved bookedLate "7" 0 2 "cola" bookedInTime where
  outside := by
    intro day hday
    have hne : day ≠ 0 ∧ day ≠ 1 := by
      constructor <;> rintro rfl <;> exact hday (by decide)
    simp [bookedInTime, bookedLate, OrderedMap.get, Ne.symm hne.1, Ne.symm hne.2]
  collected := by decide +kernel
  others := by
    intro day other hother
    by_cases h0 : (0 : ℤ) = day <;> by_cases h1 : (1 : ℤ) = day <;>
      simp [soldOn, bookedInTime, bookedLate, OrderedMap.get, Ne.symm hother, h0, h1]
  sum := by decide +kernel

theorem shrinkage_telescopes_bookedLate :
    netOver bookedLate "7" threeBorders (periodFrom 0 2) "cola" = 0 ∧
      shrinkageOf { bookedLate with salesByDay := bookedInTime } "7" threeBorders (periodFrom 0 2) =
        shrinkageOf bookedLate "7" threeBorders (periodFrom 0 2) :=
  ⟨by decide +kernel,
    ((shrinkage_telescopes bookedLate "7" threeBorders 0 2).2 0 2 0 "cola" rfl countedRun_bookedLate).2 _ moved_bookedInTime⟩

end Mydon.Vending
