import Mathlib.Algebra.Order.BigOperators.Group.List
import Mydon.Vending.MarginRolls

/-! Every sale is counted once: in a cell of the margin report, or in a line of what it leaves out. -/

namespace Mydon.Vending

open Mydon.Lib Mydon.Cash

variable {env : MarginEnv} {rows : List SaleRow} {s k : String} {r : SaleRow}

/-- The cells of a report, under the keys of the machine and of the product. -/
def MarginReport.cells (env : MarginEnv) (rep : MarginReport) : List ((String × String) × MarginProduct) :=
  rep.machines.flatMap fun m => m.products.map fun p =>
    ((normalizeMachineSerial env.host m.serial, normalizeProductName env.host p.product), p)

def MarginEnv.cellKey (env : MarginEnv) (r : SaleRow) : String × String := (env.serialKey r, env.productKey r)

/-! The keys. -/

theorem serial_of_park {card : String × String} (h : OrderedMap.get env.park s = some card) :
    normalizeMachineSerial env.host card.1 = s := by
  have hrun : ∀ (l : List (String × String)) (park : List (String × String × String)),
      (∀ s card, OrderedMap.get park s = some card → normalizeMachineSerial env.host card.1 = s) →
      ∀ s card, OrderedMap.get (l.foldl (fun park e => OrderedMap.set (normalizeMachineSerial env.host e.1) e park) park) s =
        some card → normalizeMachineSerial env.host card.1 = s := by
    intro l
    induction l with
    | nil => exact fun _ hpark => hpark
    | cons e l ih =>
      intro park hpark
      apply ih
      intro s card hcard
      rw [OrderedMap.get_set] at hcard
      split_ifs at hcard with hs
      · obtain rfl := Option.some.inj hcard
        exact hs
      · exact hpark s card hcard
  refine hrun env.inService [] ?_ s card h
  intro s card hcard
  cases hcard

theorem mem_machineKeys : s ∈ machineKeys env rows ↔ ∃ r ∈ counted env rows, env.serialKey r = s := by
  rw [machineKeys, mem_keySet, List.mem_map]

theorem mem_soldBy : r ∈ soldBy env rows s ↔ r ∈ counted env rows ∧ env.serialKey r = s := by
  rw [soldBy, List.mem_filter, decide_eq_true_iff]

theorem mem_productKeys : k ∈ productKeys env rows s ↔ ∃ r ∈ counted env rows, env.cellKey r = (s, k) := by
  rw [productKeys, mem_keySet, List.mem_map]
  simp only [mem_soldBy, MarginEnv.cellKey, Prod.mk.injEq]
  constructor
  · rintro ⟨r, ⟨hr, hs⟩, hk⟩
    exact ⟨r, hr, hs, hk⟩
  · rintro ⟨r, hr, hs, hk⟩
    exact ⟨r, ⟨hr, hs⟩, hk⟩

theorem serial_startMachine (h : s ∈ machineKeys env rows) :
    normalizeMachineSerial env.host (startMachine env s).serial = s := by
  obtain ⟨r, hr, rfl⟩ := mem_machineKeys.mp h
  obtain ⟨card, hcard⟩ := Option.isSome_iff_exists.mp (List.mem_filter.mp hr).2
  unfold startMachine
  rw [hcard]
  exact serial_of_park hcard

theorem product_productAt (h : k ∈ productKeys env rows s) :
    normalizeProductName env.host (productAt env rows s k).product = k := by
  obtain ⟨r, hr, hkey⟩ := mem_productKeys.mp h
  exact productKey_spelling (List.mem_map.mpr ⟨r, hr, (Prod.mk.inj hkey).2⟩)

/-! The cells. -/

def placedCells (env : MarginEnv) (rows : List SaleRow) : List ((String × String) × MarginProduct) :=
  (machineKeys env rows).flatMap fun s => (productKeys env rows s).map fun k => ((s, k), productAt env rows s k)

theorem cells_perm (env : MarginEnv) (rows : List SaleRow) :
    ((marginByMachine env rows).cells env).Perm (placedCells env rows) := by
  unfold MarginReport.cells placedCells
  rw [machines_report]
  apply ((List.perm_insertionSort machineLe _).flatMap_right _).trans
  rw [List.flatMap_map]
  apply List.Perm.flatMap_left
  intro s hs
  have hproducts : (finishMachine env (machineAt env rows s)).products.Perm
      ((productKeys env rows s).map fun k => productAt env rows s k) := by
    apply (List.perm_insertionSort _ _).trans
    rw [finishCells_machineAt, List.map_map]
    exact List.Perm.refl _
  apply (hproducts.map _).trans
  rw [List.map_map]
  apply List.Perm.of_eq
  apply List.map_congr_left
  intro k hk
  have hserial : normalizeMachineSerial env.host (finishMachine env (machineAt env rows s)).serial = s :=
    serial_startMachine hs
  rw [Function.comp_apply, hserial, product_productAt hk]

theorem mem_placedKeys {key : String × String} :
    key ∈ (placedCells env rows).map Prod.fst ↔ ∃ r ∈ counted env rows, env.cellKey r = key := by
  obtain ⟨s, k⟩ := key
  rw [placedCells, List.map_flatMap]
  simp only [List.mem_flatMap, List.map_map, List.mem_map, Function.comp_apply, Prod.mk.injEq]
  constructor
  · rintro ⟨s', -, k', hk', rfl, rfl⟩
    obtain ⟨r, hr, hkey⟩ := mem_productKeys.mp hk'
    exact ⟨r, hr, hkey⟩
  · rintro ⟨r, hr, hkey⟩
    exact ⟨s, mem_machineKeys.mpr ⟨r, hr, (Prod.mk.inj hkey).1⟩, k, mem_productKeys.mpr ⟨r, hr, hkey⟩, rfl, rfl⟩

theorem nodup_placedKeys (env : MarginEnv) (rows : List SaleRow) : ((placedCells env rows).map Prod.fst).Nodup := by
  rw [placedCells, List.map_flatMap, List.nodup_flatMap]
  constructor
  · intro s _
    rw [List.map_map]
    exact (nodup_keySet _).map fun k k' h => (Prod.mk.inj h).2
  · apply (nodup_keySet ((counted env rows).map env.serialKey)).imp
    intro s s' hne key hkey hkey'
    obtain ⟨c, hc, rfl⟩ := List.mem_map.mp hkey
    obtain ⟨c', hc', heq⟩ := List.mem_map.mp hkey'
    obtain ⟨k, -, rfl⟩ := List.mem_map.mp hc
    obtain ⟨k', -, rfl⟩ := List.mem_map.mp hc'
    exact hne (Prod.mk.inj heq).1.symm

theorem mem_cells {c : (String × String) × MarginProduct} (h : c ∈ (marginByMachine env rows).cells env) :
    (∃ r ∈ counted env rows, env.cellKey r = c.1) ∧ c.2 = productAt env rows c.1.1 c.1.2 := by
  have hmem := (cells_perm env rows).subset h
  refine ⟨mem_placedKeys.mp (List.mem_map_of_mem hmem), ?_⟩
  obtain ⟨s, -, hc⟩ := List.mem_flatMap.mp hmem
  obtain ⟨k, -, rfl⟩ := List.mem_map.mp hc
  rfl

/-! The lines of what is left out. -/

/-- The rows that no machine in service has sold. -/
def strangers (env : MarginEnv) (rows : List SaleRow) : List SaleRow := rows.filter fun r => !env.inPark r

def excludedAt (env : MarginEnv) (rows : List SaleRow) (s : String) : MarginExcluded :=
  ⟨s, qtySum ((strangers env rows).filter fun r => env.serialKey r = s),
    amountSum ((strangers env rows).filter fun r => env.serialKey r = s)⟩

theorem foldl_addExcluded (own : List SaleRow) (acc : MarginExcluded) : own.foldl addExcluded acc =
    ⟨acc.serial, acc.qty + qtySum own, acc.amount + amountSum own⟩ := by
  induction own generalizing acc with
  | nil => simp [qtySum, amountSum]
  | cons r own ih =>
    rw [List.foldl_cons, ih]
    simp [addExcluded, qtySum, amountSum, add_assoc]

theorem excluded_report (env : MarginEnv) (rows : List SaleRow) : (marginByMachine env rows).excluded =
    ((OrderedMap.keySet ((strangers env rows).map env.serialKey)).map (excludedAt env rows)).insertionSort excludedLe := by
  change ((gatheredState env rows).excluded.map Prod.snd).insertionSort excludedLe = _
  rw [gatheredState, (gathered env rows).excluded, tally_eq, List.map_map]
  congr 1
  apply List.map_congr_left
  intro s _
  rw [Function.comp_apply]
  change (((strangers env rows).filter fun r => env.serialKey r = s).foldl addExcluded ⟨s, 0, 0⟩) = _
  rw [foldl_addExcluded, zero_add, zero_add]
  rfl

theorem excludedSerials_perm (env : MarginEnv) (rows : List SaleRow) :
    ((marginByMachine env rows).excluded.map MarginExcluded.serial).Perm
      (OrderedMap.keySet ((strangers env rows).map env.serialKey)) := by
  rw [excluded_report]
  apply ((List.perm_insertionSort excludedLe _).map _).trans
  rw [List.map_map]
  apply List.Perm.of_eq
  exact List.map_id' _

theorem mem_excluded {e : MarginExcluded} (h : e ∈ (marginByMachine env rows).excluded) :
    e = excludedAt env rows e.serial ∧ ∃ r ∈ strangers env rows, env.serialKey r = e.serial := by
  rw [excluded_report, List.mem_insertionSort] at h
  obtain ⟨s, hs, rfl⟩ := List.mem_map.mp h
  exact ⟨rfl, List.mem_map.mp (mem_keySet.mp hs)⟩

/-! Counted once. -/

theorem countP_key {α β : Type} [DecidableEq β] [BEq β] [LawfulBEq β] (key : α → β) (l : List α) (k : β) :
    l.countP (fun a => key a = k) = (l.map key).count k := by
  rw [List.count, List.countP_map]
  apply List.countP_congr
  intro a _
  simp

theorem abs_mathRound_sub_le (x : ℚ) : |(mathRound x : ℚ) - x| ≤ 1 / 2 := by
  have hle := Int.floor_le (x + 1 / 2)
  have hlt := Int.lt_floor_add_one (x + 1 / 2)
  rw [abs_le, mathRound]
  constructor <;> linarith

structure CountsOnce (env : MarginEnv) (rows : List SaleRow) (rep : MarginReport) : Prop where
  inCell : ∀ r ∈ rows, env.inPark r = true →
    (rep.cells env).countP (fun c => c.1 = env.cellKey r) = 1 ∧ rep.excluded.countP (fun e => e.serial = env.serialKey r) = 0
  inLine : ∀ r ∈ rows, env.inPark r = false →
    (rep.cells env).countP (fun c => c.1 = env.cellKey r) = 0 ∧ rep.excluded.countP (fun e => e.serial = env.serialKey r) = 1
  qty : ∀ c ∈ rep.cells env, c.2.qty = qtySum (rows.filter fun r => env.cellKey r = c.1)
  revenue : ∀ c ∈ rep.cells env, |(c.2.revenue : ℚ) - amountSum (rows.filter fun r => env.cellKey r = c.1)| ≤ 1 / 2
  cogs : ∀ c ∈ rep.cells env, |(c.2.cogs : ℚ) -
    (env.price c.2.product).elim 0 fun unit => qtySum (rows.filter fun r => env.cellKey r = c.1) * unit| ≤ 1 / 2
  unknownUnits : ∀ c ∈ rep.cells env, c.2.unknownUnits =
    if env.price c.2.product = none then qtySum (rows.filter fun r => env.cellKey r = c.1) else 0
  line : ∀ e ∈ rep.excluded, e.qty = qtySum (rows.filter fun r => env.serialKey r = e.serial) ∧
    e.amount = amountSum (rows.filter fun r => env.serialKey r = e.serial)

theorem inPark_congr {r r' : SaleRow} (h : env.serialKey r = env.serialKey r') : env.inPark r = env.inPark r' := by
  rw [MarginEnv.inPark, MarginEnv.inPark, h]

theorem soldIn_eq (hin : ∃ r ∈ counted env rows, env.cellKey r = (s, k)) :
    soldIn env rows s k = rows.filter fun r => env.cellKey r = (s, k) := by
  obtain ⟨own, hown, hkey⟩ := hin
  rw [soldIn, soldBy, counted, List.filter_filter, List.filter_filter]
  apply List.filter_congr
  intro r _
  rw [Bool.eq_iff_iff]
  simp only [Bool.and_eq_true, decide_eq_true_iff, MarginEnv.cellKey, Prod.mk.injEq]
  constructor
  · exact fun h => ⟨h.1.2, h.1.1⟩
  · intro h
    refine ⟨⟨h.2, h.1⟩, ?_⟩
    rw [inPark_congr (h.1.trans (Prod.mk.inj hkey).1.symm)]
    exact (List.mem_filter.mp hown).2

theorem strangers_eq (hin : ∃ r ∈ strangers env rows, env.serialKey r = s) :
    (strangers env rows).filter (fun r => env.serialKey r = s) = rows.filter fun r => env.serialKey r = s := by
  obtain ⟨own, hown, hkey⟩ := hin
  rw [strangers, List.filter_filter]
  apply List.filter_congr
  intro r _
  rw [Bool.eq_iff_iff, Bool.and_eq_true, decide_eq_true_iff]
  constructor
  · exact fun h => h.1
  · intro h
    refine ⟨h, ?_⟩
    rw [inPark_congr (h.trans hkey.symm)]
    exact (List.mem_filter.mp hown).2

theorem countsOnce (env : MarginEnv) (rows : List SaleRow) : CountsOnce env rows (marginByMachine env rows) := by
  have hcells : ∀ r, ((marginByMachine env rows).cells env).countP (fun c => c.1 = env.cellKey r) =
      ((placedCells env rows).map Prod.fst).count (env.cellKey r) := fun r => by
    rw [(cells_perm env rows).countP_eq, countP_key Prod.fst]
  have hlines : ∀ r, (marginByMachine env rows).excluded.countP (fun e => e.serial = env.serialKey r) =
      (OrderedMap.keySet ((strangers env rows).map env.serialKey)).count (env.serialKey r) := fun r => by
    rw [countP_key MarginExcluded.serial, (excludedSerials_perm env rows).count_eq]
  have hown : ∀ c ∈ (marginByMachine env rows).cells env,
      soldIn env rows c.1.1 c.1.2 = rows.filter fun r => env.cellKey r = c.1 := fun c hc => soldIn_eq (mem_cells hc).1
  have hunit : ∀ c ∈ (marginByMachine env rows).cells env, env.price c.2.product = unitOf env rows c.1.2 := fun c hc => by
    rw [(mem_cells hc).2]
    rfl
  constructor
  · intro r hr hpark
    rw [hcells, hlines]
    refine ⟨List.count_eq_one_of_mem (nodup_placedKeys env rows)
      (mem_placedKeys.mpr ⟨r, List.mem_filter.mpr ⟨hr, hpark⟩, rfl⟩), List.count_eq_zero.mpr fun hmem => ?_⟩
    obtain ⟨r', hr', hkey⟩ := List.mem_map.mp (mem_keySet.mp hmem)
    have hout := (List.mem_filter.mp hr').2
    rw [inPark_congr hkey, hpark] at hout
    cases hout
  · intro r hr hpark
    rw [hcells, hlines]
    refine ⟨List.count_eq_zero.mpr fun hmem => ?_, List.count_eq_one_of_mem (nodup_keySet _)
      (mem_keySet.mpr (List.mem_map_of_mem (List.mem_filter.mpr ⟨hr, by rw [hpark]; rfl⟩)))⟩
    obtain ⟨r', hr', hkey⟩ := mem_placedKeys.mp hmem
    have hin := (List.mem_filter.mp hr').2
    rw [inPark_congr (Prod.mk.inj hkey).1, hpark] at hin
    cases hin
  · intro c hc
    rw [← hown c hc, (mem_cells hc).2]
    rfl
  · intro c hc
    rw [← hown c hc, (mem_cells hc).2]
    exact abs_mathRound_sub_le _
  · intro c hc
    rw [← hown c hc, hunit c hc, (mem_cells hc).2]
    exact abs_mathRound_sub_le _
  · intro c hc
    rw [← hown c hc, hunit c hc, (mem_cells hc).2]
    rfl
  · intro e he
    obtain ⟨heq, hin⟩ := mem_excluded he
    rw [← strangers_eq hin, heq]
    exact ⟨rfl, rfl⟩

/-! The rows of the machines and of the products are the sums of their cells, and each cell is rounded once. -/

theorem allCells_eq (env : MarginEnv) (rows : List SaleRow) :
    allCells env rows = (placedCells env rows).map fun c => (c.1.2, c.2) := by
  unfold allCells placedCells
  rw [List.map_flatMap]
  simp only [List.map_map]
  rfl

theorem filter_placedCells (h : s ∈ machineKeys env rows) :
    (placedCells env rows).filter (fun c => c.1.1 = s) =
      (productKeys env rows s).map fun k => ((s, k), productAt env rows s k) := by
  apply filter_flatMap_of_tag (fun c : (String × String) × MarginProduct => c.1.1) (nodup_keySet _) _ h
  intro s' _ c hc
  obtain ⟨k, -, rfl⟩ := List.mem_map.mp hc
  rfl

theorem mem_machines {m : MarginMachine} (h : m ∈ (marginByMachine env rows).machines) :
    ∃ s ∈ machineKeys env rows, m = finishMachine env (machineAt env rows s) ∧ normalizeMachineSerial env.host m.serial = s := by
  rw [machines_report, List.mem_insertionSort] at h
  obtain ⟨s, hs, rfl⟩ := List.mem_map.mp h
  exact ⟨s, hs, rfl, serial_startMachine hs⟩

theorem amounts_machine {m : MarginMachine} (h : m ∈ (marginByMachine env rows).machines) :
    amounts m.toMarginFigures = ((((marginByMachine env rows).cells env).filter fun c =>
      c.1.1 = normalizeMachineSerial env.host m.serial).map fun c => amounts c.2.toMarginFigures).sum := by
  obtain ⟨s, hs, rfl, hserial⟩ := mem_machines h
  rw [hserial, sum_map_perm ((cells_perm env rows).filter _), filter_placedCells hs, List.map_map, amounts_finishMachine,
    sum_finishMachine]
  rfl

/-- The row of a product has its spelling. -/
theorem product_bucket_spelling (h : k ∈ (allCells env rows).map Prod.fst) :
    (finishBucket env (((allCells env rows).filter fun e => e.1 = k).map Prod.snd)).product = spelling env rows k := by
  obtain ⟨e, he, hek⟩ := List.mem_map.mp h
  have hne : (allCells env rows).filter (fun e => e.1 = k) ≠ [] :=
    List.ne_nil_of_mem (List.mem_filter.mpr ⟨he, decide_eq_true hek⟩)
  obtain ⟨first, rest, hfirst⟩ := List.exists_cons_of_ne_nil hne
  obtain ⟨hmem, hkey⟩ := List.mem_filter.mp (hfirst ▸ List.mem_cons_self : first ∈ (allCells env rows).filter fun e => e.1 = k)
  obtain ⟨s, -, hs⟩ := List.mem_flatMap.mp hmem
  obtain ⟨k', -, rfl⟩ := List.mem_map.mp hs
  rw [hfirst]
  exact congrArg (spelling env rows) (of_decide_eq_true hkey)

theorem product_bucket (h : k ∈ (allCells env rows).map Prod.fst) : normalizeProductName env.host
    (finishBucket env (((allCells env rows).filter fun e => e.1 = k).map Prod.snd)).product = k := by
  rw [product_bucket_spelling h]
  obtain ⟨e, he, rfl⟩ := List.mem_map.mp h
  obtain ⟨s, -, hs⟩ := List.mem_flatMap.mp he
  obtain ⟨k, hk, rfl⟩ := List.mem_map.mp hs
  exact product_productAt hk

/-- A product row is the sum of its cells. -/
theorem amounts_product {p : MarginProduct} (h : p ∈ (marginByMachine env rows).products) :
    amounts p.toMarginFigures = ((((marginByMachine env rows).cells env).filter fun c =>
      c.1.2 = normalizeProductName env.host p.product).map fun c => amounts c.2.toMarginFigures).sum := by
  rw [products_report, List.mem_insertionSort, group_eq, List.map_map] at h
  obtain ⟨k, hk, rfl⟩ := List.mem_map.mp h
  have hbucket : (allCells env rows).filter (fun e => e.1 = k) =
      ((placedCells env rows).filter fun c => c.1.2 = k).map fun c => (c.1.2, c.2) := by
    rw [allCells_eq, List.filter_map]
    rfl
  rw [Function.comp_apply, product_bucket (mem_keySet.mp hk), sum_map_perm ((cells_perm env rows).filter _)]
  change amounts (rollUp env ((((allCells env rows).filter fun e => e.1 = k).map Prod.snd).map MarginProduct.toMarginFigures)) = _
  rw [hbucket, List.map_map, List.map_map, amounts_rollUp, List.map_map]
  · rfl
  · intro f hf
    obtain ⟨c, hc, rfl⟩ := List.mem_map.mp hf
    have hmem := (cells_perm env rows).symm.subset (List.mem_of_mem_filter hc)
    rw [Function.comp_apply, Function.comp_apply, (mem_cells hmem).2]
    exact balanced_finishProduct _

theorem abs_sum_sub_le {α : Type} {l : List α} {f g : α → ℚ} (h : ∀ a ∈ l, |f a - g a| ≤ 1 / 2) :
    |(l.map f).sum - (l.map g).sum| ≤ l.length / 2 := by
  induction l with
  | nil => simp
  | cons a l ih =>
    obtain ⟨ha, hl⟩ := List.forall_mem_cons.mp h
    have hsum := ih hl
    rw [abs_le] at ha hsum ⊢
    simp only [List.map_cons, List.sum_cons, List.length_cons, Nat.cast_add, Nat.cast_one]
    constructor <;> linarith

/-- Some of the cells together are off by half a sum for each. -/
theorem revenue_near (q : String × String → Prop) [DecidablePred q] :
    |((((marginByMachine env rows).cells env).filter fun c => q c.1).map fun c => (c.2.revenue : ℚ)).sum -
        amountSum ((counted env rows).filter fun r => q (env.cellKey r))| ≤
      (((marginByMachine env rows).cells env).filter fun c => q c.1).length / 2 := by
  have hkeys : ((((marginByMachine env rows).cells env).filter fun c => q c.1).map Prod.fst).Nodup :=
    (((cells_perm env rows).map Prod.fst).nodup_iff.mpr (nodup_placedKeys env rows)).sublist
      (List.filter_sublist.map _)
  have hin : ∀ r ∈ (counted env rows).filter fun r => q (env.cellKey r),
      env.cellKey r ∈ (((marginByMachine env rows).cells env).filter fun c => q c.1).map Prod.fst := by
    intro r hr
    obtain ⟨hmem, hq⟩ := List.mem_filter.mp hr
    have hplaced : env.cellKey r ∈ (placedCells env rows).map Prod.fst := mem_placedKeys.mpr ⟨r, hmem, rfl⟩
    obtain ⟨c, hc, hkey⟩ := List.mem_map.mp (((cells_perm env rows).map Prod.fst).symm.subset hplaced)
    exact List.mem_map.mpr ⟨c, List.mem_filter.mpr ⟨hc, by rw [hkey]; exact hq⟩, hkey⟩
  have hexact := sum_by_key (fun r : SaleRow => num r.amount) hkeys hin
  have hcells : ((((marginByMachine env rows).cells env).filter fun c => q c.1).map fun c =>
      amountSum (rows.filter fun r => env.cellKey r = c.1)).sum =
      amountSum ((counted env rows).filter fun r => q (env.cellKey r)) := by
    rw [amountSum, ← hexact, List.map_map]
    congr 1
    apply List.map_congr_left
    intro c hc
    obtain ⟨hmem, hq⟩ := List.mem_filter.mp hc
    obtain ⟨own, hown, hkey⟩ := (mem_cells hmem).1
    rw [Function.comp_apply, amountSum, counted, List.filter_filter, List.filter_filter]
    congr 2
    apply List.filter_congr
    intro r _
    rw [Bool.eq_iff_iff]
    simp only [Bool.and_eq_true, decide_eq_true_iff]
    constructor
    · intro h
      refine ⟨⟨h, by rw [h]; exact of_decide_eq_true hq⟩, ?_⟩
      rw [inPark_congr (Prod.mk.inj (h.trans hkey.symm)).1]
      exact (List.mem_filter.mp hown).2
    · exact fun h => h.1.1
  rw [← hcells]
  apply abs_sum_sub_le
  intro c hc
  exact (countsOnce env rows).revenue c (List.mem_of_mem_filter hc)

structure RollsUp (env : MarginEnv) (rows : List SaleRow) (rep : MarginReport) : Prop where
  machine : ∀ m ∈ rep.machines, amounts m.toMarginFigures = (m.products.map fun p => amounts p.toMarginFigures).sum
  product : ∀ p ∈ rep.products, amounts p.toMarginFigures =
    (((rep.cells env).filter fun c => c.1.2 = normalizeProductName env.host p.product).map fun c => amounts c.2.toMarginFigures).sum
  totals_machines : amounts ⟨rep.totals, true⟩ = (rep.machines.map fun m => amounts m.toMarginFigures).sum
  totals_products : amounts ⟨rep.totals, true⟩ = (rep.products.map fun p => amounts p.toMarginFigures).sum
  machine_revenue : ∀ m ∈ rep.machines, |(m.revenue : ℚ) -
    amountSum ((counted env rows).filter fun r => env.serialKey r = normalizeMachineSerial env.host m.serial)| ≤
      m.products.length / 2
  product_revenue : ∀ p ∈ rep.products, |(p.revenue : ℚ) -
    amountSum ((counted env rows).filter fun r => env.productKey r = normalizeProductName env.host p.product)| ≤
      ((rep.cells env).filter fun c => c.1.2 = normalizeProductName env.host p.product).length / 2
  totals_revenue : |(rep.totals.revenue : ℚ) - amountSum (counted env rows)| ≤ (rep.cells env).length / 2

theorem revenue_of_amounts {α : Type} {f : MarginFigures} {l : List α} {g : α → MarginFigures}
    (h : amounts f = (l.map fun a => amounts (g a)).sum) : (f.revenue : ℚ) = (l.map fun a => ((g a).revenue : ℚ)).sum := by
  have hsum : ∀ l : List α, ((l.map fun a => amounts (g a)).sum.2.1 : ℚ) = (l.map fun a => ((g a).revenue : ℚ)).sum := by
    intro l
    induction l with
    | nil => rfl
    | cons a l ih =>
      rw [List.map_cons, List.sum_cons, List.map_cons, List.sum_cons, ← ih, Prod.snd_add, Prod.fst_add, Int.cast_add]
      rfl
  rw [← hsum, ← h]
  rfl

theorem rollsUp (env : MarginEnv) (rows : List SaleRow) : RollsUp env rows (marginByMachine env rows) := by
  have htotals : amounts ⟨(marginByMachine env rows).totals, true⟩ =
      (((marginByMachine env rows).cells env).map fun c => amounts c.2.toMarginFigures).sum := by
    rw [amounts_totals, sum_machines, allCells_eq, List.map_map, sum_map_perm (cells_perm env rows)]
    rfl
  refine ⟨?_, fun p hp => amounts_product hp, amounts_totals env rows, ?_, ?_, ?_, ?_⟩
  · intro m hm
    obtain ⟨s, -, rfl, -⟩ := mem_machines hm
    exact amounts_finishMachine _
  · rw [amounts_totals, sum_machines, sum_products]
  · intro m hm
    have hnear := @revenue_near env rows (fun key => key.1 = normalizeMachineSerial env.host m.serial) _
    rw [← revenue_of_amounts (amounts_machine hm)] at hnear
    have hlength : (((marginByMachine env rows).cells env).filter fun c =>
        c.1.1 = normalizeMachineSerial env.host m.serial).length = m.products.length := by
      obtain ⟨s, hs, rfl, hserial⟩ := mem_machines hm
      rw [hserial, ((cells_perm env rows).filter _).length_eq, filter_placedCells hs, List.length_map]
      change _ = (List.insertionSort productLe _).length
      rw [List.length_insertionSort, finishCells_machineAt, List.length_map, List.length_map]
    rw [hlength] at hnear
    exact hnear
  · intro p hp
    have hnear := @revenue_near env rows (fun key => key.2 = normalizeProductName env.host p.product) _
    rw [← revenue_of_amounts (amounts_product hp)] at hnear
    exact hnear
  · have hnear := @revenue_near env rows (fun _ => True) _
    simp only [decide_true, List.filter_true] at hnear
    rw [← revenue_of_amounts htotals] at hnear
    exact hnear

end Mydon.Vending
