import Mathlib.Algebra.Group.Prod
import Mydon.Vending.Margin

/-! The margin report adds up along the machines and along the products, and the order of the sales hardly
matters to it. -/

namespace Mydon.Vending

open Mydon.Lib Mydon.Cash

variable {env : MarginEnv} {rows rows' : List SaleRow} {s k : String}

/-! What the cells hold. -/

/-- The rows of a machine in service. -/
def soldBy (env : MarginEnv) (rows : List SaleRow) (s : String) : List SaleRow :=
  (counted env rows).filter fun r => env.serialKey r = s

/-- The rows of a cell. -/
def soldIn (env : MarginEnv) (rows : List SaleRow) (s k : String) : List SaleRow :=
  (soldBy env rows s).filter fun r => env.productKey r = k

def qtySum (rows : List SaleRow) : ℚ := (rows.map fun r => num r.qty).sum

def amountSum (rows : List SaleRow) : ℚ := (rows.map fun r => num r.amount).sum

def cellAt (env : MarginEnv) (rows : List SaleRow) (s k : String) : Cell where
  product := spelling env rows k
  qty := qtySum (soldIn env rows s k)
  revenue := amountSum (soldIn env rows s k)
  cogsRaw := (unitOf env rows k).elim 0 fun unit => qtySum (soldIn env rows s k) * unit
  unknownUnits := if unitOf env rows k = none then qtySum (soldIn env rows s k) else 0

theorem foldl_addSale (unit : Option ℚ) (own : List SaleRow) (cell : Cell) : own.foldl (addSale unit) cell =
    { cell with
      qty := cell.qty + qtySum own
      revenue := cell.revenue + amountSum own
      cogsRaw := cell.cogsRaw + unit.elim 0 fun unit => qtySum own * unit
      unknownUnits := cell.unknownUnits + if unit = none then qtySum own else 0 } := by
  induction own generalizing cell with
  | nil => rcases unit with _ | unit <;> simp [qtySum, amountSum]
  | cons r own ih =>
    rw [List.foldl_cons, ih]
    rcases unit with _ | unit
    · simp [addSale, qtySum, amountSum, add_assoc]
    · simp [addSale, qtySum, amountSum, add_assoc, add_mul]

theorem cells_eq (env : MarginEnv) (rows : List SaleRow) (s : String) : cells env rows (soldBy env rows s) =
    (OrderedMap.keySet ((soldBy env rows s).map env.productKey)).map fun k => (k, cellAt env rows s k) := by
  unfold cells
  rw [tally_eq]
  apply List.map_congr_left
  intro k _
  have hunit : (soldIn env rows s k).foldl (fun cell r => addSale (unitOf env rows (env.productKey r)) cell r)
      (emptyCell (spelling env rows k)) = (soldIn env rows s k).foldl (addSale (unitOf env rows k)) (emptyCell (spelling env rows k)) := by
    apply List.foldl_ext
    intro cell r hr
    rw [of_decide_eq_true (List.mem_filter.mp hr).2]
  change (k, (soldIn env rows s k).foldl _ _) = _
  rw [hunit, foldl_addSale]
  simp [emptyCell, cellAt]

def machineKeys (env : MarginEnv) (rows : List SaleRow) : List String :=
  OrderedMap.keySet ((counted env rows).map env.serialKey)

def productKeys (env : MarginEnv) (rows : List SaleRow) (s : String) : List String :=
  OrderedMap.keySet ((soldBy env rows s).map env.productKey)

def gatheredState (env : MarginEnv) (rows : List SaleRow) : MarginState :=
  rows.foldl (marginStep env) ⟨[], [], [], [], []⟩

theorem machines_eq (env : MarginEnv) (rows : List SaleRow) : (gatheredState env rows).machines =
    (machineKeys env rows).map fun s => (s, ⟨(startMachine env s).serial, (startMachine env s).name,
      (productKeys env rows s).map fun k => (k, cellAt env rows s k)⟩) := by
  rw [gatheredState, (gathered env rows).machines, tally_eq]
  apply List.map_congr_left
  intro s _
  have hcells : ((soldBy env rows s).foldl (addRow env rows) (startMachine env s)).cells =
      (productKeys env rows s).map fun k => (k, cellAt env rows s k) :=
    (foldl_addRow_start _ s).trans (cells_eq env rows s)
  rw [← hcells]
  change (s, (soldBy env rows s).foldl (addRow env rows) (startMachine env s)) = _
  rw [foldl_addRow]

/-! Sums. -/

/-- The figures that are summed. -/
def amounts (f : MarginFigures) : ℚ × ℤ × ℤ × ℤ × ℚ := (f.qty, f.revenue, f.cogs, f.margin, f.unknownUnits)

/-- The margin is what the costs leave of the revenue. -/
def Balanced (f : MarginFigures) : Prop := f.margin = f.revenue - f.cogs

theorem balanced_rollUp (fs : List MarginFigures) : Balanced (rollUp env fs) := rfl

theorem amounts_rollUp {fs : List MarginFigures} (h : ∀ f ∈ fs, Balanced f) :
    amounts (rollUp env fs) = (fs.map amounts).sum := by
  induction fs with
  | nil => rfl
  | cons f fs ih =>
    obtain ⟨hf, hfs⟩ := List.forall_mem_cons.mp h
    rw [List.map_cons, List.sum_cons, ← ih hfs]
    unfold Balanced at hf
    simp only [amounts, rollUp, List.map_cons, List.sum_cons, hf]
    refine Prod.ext rfl (Prod.ext rfl (Prod.ext rfl (Prod.ext ?_ rfl)))
    change _ = _ - _ + (_ - _)
    ring

/-- The row of a cell. -/
def productAt (env : MarginEnv) (rows : List SaleRow) (s k : String) : MarginProduct := finishProduct env (cellAt env rows s k)

def machineAt (env : MarginEnv) (rows : List SaleRow) (s : String) : MachineAcc :=
  ⟨(startMachine env s).serial, (startMachine env s).name, (productKeys env rows s).map fun k => (k, cellAt env rows s k)⟩

/-- The rows of all cells, under the keys of their products. -/
def allCells (env : MarginEnv) (rows : List SaleRow) : List (String × MarginProduct) :=
  (machineKeys env rows).flatMap fun s => (productKeys env rows s).map fun k => (k, productAt env rows s k)

theorem finishCells_machineAt (s : String) : finishCells env (machineAt env rows s) =
    (productKeys env rows s).map fun k => (k, productAt env rows s k) := List.map_map

theorem machines_report (env : MarginEnv) (rows : List SaleRow) : (marginByMachine env rows).machines =
    ((machineKeys env rows).map fun s => finishMachine env (machineAt env rows s)).insertionSort machineLe := by
  change ((gatheredState env rows).machines.map fun e => finishMachine env e.2).insertionSort machineLe = _
  rw [machines_eq, List.map_map]
  rfl

theorem products_report (env : MarginEnv) (rows : List SaleRow) : (marginByMachine env rows).products =
    ((group Prod.fst (allCells env rows)).map fun e => finishBucket env (e.2.map Prod.snd)).insertionSort productLe := by
  change ((group Prod.fst ((gatheredState env rows).machines.flatMap fun e => finishCells env e.2)).map _).insertionSort _ = _
  have hall : ((gatheredState env rows).machines.flatMap fun e => finishCells env e.2) = allCells env rows := by
    rw [machines_eq, List.flatMap_map]
    unfold allCells
    congr 1
    funext s
    exact finishCells_machineAt s
  rw [hall]

theorem balanced_finishProduct (cell : Cell) : Balanced (finishProduct env cell).toMarginFigures := rfl

theorem sum_map_perm {α M : Type} [AddCommMonoid M] {l l' : List α} (h : l.Perm l') (f : α → M) :
    (l.map f).sum = (l'.map f).sum := (h.map f).sum_eq

/-- A machine is the sum of its products. -/
theorem amounts_finishMachine (acc : MachineAcc) : amounts (finishMachine env acc).toMarginFigures =
    ((finishMachine env acc).products.map fun p => amounts p.toMarginFigures).sum := by
  change amounts (rollUp env ((finishMachine env acc).products.map MarginProduct.toMarginFigures)) = _
  rw [amounts_rollUp, List.map_map]
  · rfl
  · intro f hf
    obtain ⟨p, hp, rfl⟩ := List.mem_map.mp hf
    have hmem := (List.perm_insertionSort _ _).subset hp
    obtain ⟨e, he, rfl⟩ := List.mem_map.mp hmem
    obtain ⟨own, -, rfl⟩ := List.mem_map.mp he
    exact balanced_finishProduct own.2

theorem sum_finishMachine (s : String) :
    ((finishMachine env (machineAt env rows s)).products.map fun p => amounts p.toMarginFigures).sum =
      ((productKeys env rows s).map fun k => amounts (productAt env rows s k).toMarginFigures).sum := by
  have hperm : (finishMachine env (machineAt env rows s)).products.Perm
      (((productKeys env rows s).map fun k => (k, productAt env rows s k)).map Prod.snd) := by
    rw [← finishCells_machineAt]
    exact List.perm_insertionSort _ _
  rw [sum_map_perm hperm, List.map_map, List.map_map]
  rfl

/-- The machines together hold all the cells. -/
theorem sum_machines (env : MarginEnv) (rows : List SaleRow) :
    ((marginByMachine env rows).machines.map fun m => amounts m.toMarginFigures).sum =
      ((allCells env rows).map fun e => amounts e.2.toMarginFigures).sum := by
  rw [machines_report, sum_map_perm (List.perm_insertionSort _ _), List.map_map]
  unfold allCells
  rw [List.map_flatMap, List.flatMap_def, List.sum_flatten, List.map_map]
  congr 1
  apply List.map_congr_left
  intro s _
  rw [Function.comp_apply, amounts_finishMachine, sum_finishMachine, Function.comp_apply, List.map_map]
  rfl

/-- The product rows together hold all the cells. -/
theorem sum_products (env : MarginEnv) (rows : List SaleRow) :
    ((marginByMachine env rows).products.map fun p => amounts p.toMarginFigures).sum =
      ((allCells env rows).map fun e => amounts e.2.toMarginFigures).sum := by
  have hbalanced : ∀ e ∈ allCells env rows, Balanced e.2.toMarginFigures := by
    intro e he
    obtain ⟨s, -, he⟩ := List.mem_flatMap.mp he
    obtain ⟨k, -, rfl⟩ := List.mem_map.mp he
    exact balanced_finishProduct _
  rw [products_report, sum_map_perm (List.perm_insertionSort _ _), List.map_map, group_eq, List.map_map]
  have hsum := sum_by_key (fun e : String × MarginProduct => amounts e.2.toMarginFigures)
    (nodup_keySet ((allCells env rows).map Prod.fst)) (fun e he => mem_keySet.mpr (List.mem_map_of_mem he))
  rw [← hsum]
  congr 1
  apply List.map_congr_left
  intro k _
  rw [Function.comp_apply, Function.comp_apply]
  change amounts (rollUp env ((((allCells env rows).filter fun e => e.1 = k).map Prod.snd).map MarginProduct.toMarginFigures)) = _
  rw [amounts_rollUp, List.map_map, List.map_map]
  · rfl
  · intro f hf
    rw [List.map_map] at hf
    obtain ⟨e, he, rfl⟩ := List.mem_map.mp hf
    exact hbalanced e (List.mem_of_mem_filter he)

theorem amounts_totals (env : MarginEnv) (rows : List SaleRow) :
    amounts ⟨(marginByMachine env rows).totals, true⟩ =
      ((marginByMachine env rows).machines.map fun m => amounts m.toMarginFigures).sum := by
  have htotals := @amounts_rollUp env ((marginByMachine env rows).machines.map MarginMachine.toMarginFigures) (by
    intro f hf
    obtain ⟨m, hm, rfl⟩ := List.mem_map.mp hf
    rw [machines_report] at hm
    obtain ⟨s, -, rfl⟩ := List.mem_map.mp ((List.perm_insertionSort _ _).subset hm)
    exact balanced_rollUp _)
  rw [List.map_map] at htotals
  exact htotals

end Mydon.Vending
