import Mydon.Cash.Collections
import Mydon.Vending.Slots

/-! The margin report: the sales of the machines in service, cell by cell, and what they add up to along the
machines and along the products. -/

namespace Mydon.Vending

open Mydon.Lib Mydon.Cash

/-- A number is missing when it is not finite. -/
structure SaleRow where
  serial : String
  product : String
  qty : Option ℚ
  amount : Option ℚ
  deriving DecidableEq

def num (v : Option ℚ) : ℚ := v.getD 0

/-- `pct1`: per cent with one decimal. -/
def pct1 (part whole : ℤ) : Option ℚ :=
  if whole = 0 then none else some ((mathRound ((part : ℚ) / whole * 1000) : ℚ) / 10)

structure MarginTotals where
  qty : ℚ
  revenue : ℤ
  cogs : ℤ
  margin : ℤ
  pct : Option ℚ
  unknownUnits : ℚ
  deriving DecidableEq

structure MarginFigures extends MarginTotals where
  low : Bool
  deriving DecidableEq

structure MarginProduct extends MarginFigures where
  product : String
  deriving DecidableEq

structure MarginMachine extends MarginFigures where
  serial : String
  name : String
  products : List MarginProduct
  deriving DecidableEq

structure MarginExcluded where
  serial : String
  qty : ℚ
  amount : ℚ
  deriving DecidableEq

structure MarginReport where
  days : ℕ
  from_ : String
  to_ : String
  lowPct : ℚ
  machines : List MarginMachine
  products : List MarginProduct
  totals : MarginTotals
  unknownUnits : ℚ
  unknownProducts : List String
  excluded : List MarginExcluded
  deriving DecidableEq

structure Cell where
  product : String
  qty : ℚ
  revenue : ℚ
  cogsRaw : ℚ
  unknownUnits : ℚ
  deriving DecidableEq

def emptyCell (product : String) : Cell := ⟨product, 0, 0, 0, 0⟩

structure MachineAcc where
  serial : String
  name : String
  cells : List (String × Cell)
  deriving DecidableEq

structure MarginEnv where
  host : Js.Host
  /-- `null`, and what is no finite number, is missing. -/
  cost : String → Option ℚ
  /-- The machines in service: serial and name. -/
  inService : List (String × String)
  days : ℕ
  from_ : String
  to_ : String
  lowPct : ℚ

variable (env : MarginEnv)

def MarginEnv.serialKey (r : SaleRow) : String := normalizeMachineSerial env.host r.serial

def MarginEnv.productKey (r : SaleRow) : String := normalizeProductName env.host r.product

/-- The card of a machine in service; of one key the last counts. -/
def MarginEnv.park : List (String × String × String) :=
  env.inService.foldl (fun park e => OrderedMap.set (normalizeMachineSerial env.host e.1) e park) []

/-! The loop over the rows. -/

structure MarginState where
  /-- `nameRegistry`. -/
  seen : List (String × String)
  /-- `costLookup`. -/
  byKey : List (String × Option ℚ)
  machines : List (String × MachineAcc)
  excluded : List (String × MarginExcluded)
  unknownNames : List (String × String)

def display (r : SaleRow) (seen : List (String × String)) : String × List (String × String) :=
  match OrderedMap.get seen (env.productKey r) with
  | some hit => (hit, seen)
  | none => (r.product, OrderedMap.set (env.productKey r) r.product seen)

/-- A price that is not positive is no price. -/
def MarginEnv.price (product : String) : Option ℚ := (env.cost product).filter (0 < ·)

def unitCost (product : String) (byKey : List (String × Option ℚ)) : Option ℚ × List (String × Option ℚ) :=
  let key := normalizeProductName env.host product
  match OrderedMap.get byKey key with
  | some value => (value, byKey)
  | none => (env.price product, OrderedMap.set key (env.price product) byKey)

def addSale (unit : Option ℚ) (cell : Cell) (r : SaleRow) : Cell :=
  match unit with
  | none => { cell with
      qty := cell.qty + num r.qty, revenue := cell.revenue + num r.amount, unknownUnits := cell.unknownUnits + num r.qty }
  | some unit => { cell with
      qty := cell.qty + num r.qty, revenue := cell.revenue + num r.amount, cogsRaw := cell.cogsRaw + num r.qty * unit }

def addExcluded (acc : MarginExcluded) (r : SaleRow) : MarginExcluded :=
  { acc with qty := acc.qty + num r.qty, amount := acc.amount + num r.amount }

/-- `machine.cells.get(key) ?? emptyCell(display(row.product))`. -/
def saleCell (machine : MachineAcc) (seen : List (String × String)) (r : SaleRow) : Cell × List (String × String) :=
  match OrderedMap.get machine.cells (env.productKey r) with
  | some cell => (cell, seen)
  | none => (emptyCell (display env r seen).1, (display env r seen).2)

def marginStep (st : MarginState) (r : SaleRow) : MarginState :=
  let serial := env.serialKey r
  match OrderedMap.get env.park serial with
  | none => { st with
      excluded := OrderedMap.alter (fun acc => addExcluded (acc.getD ⟨serial, 0, 0⟩) r) serial st.excluded }
  | some card =>
    let machine := (OrderedMap.get st.machines serial).getD ⟨card.1, card.2, []⟩
    let key := env.productKey r
    let (cell, seen) := saleCell env machine st.seen r
    let (unit, byKey) := unitCost env cell.product st.byKey
    { st with
      seen
      byKey
      machines := OrderedMap.set serial { machine with cells := OrderedMap.set key (addSale unit cell r) machine.cells } st.machines
      unknownNames := if unit = none then OrderedMap.set key cell.product st.unknownNames else st.unknownNames }

/-! The report. -/

def isLow (margin : ℤ) (pct : Option ℚ) : Bool := margin < 0 || pct.any (· < env.lowPct)

def finishProduct (cell : Cell) : MarginProduct :=
  let revenue := mathRound cell.revenue
  let cogs := mathRound cell.cogsRaw
  let margin := revenue - cogs
  let pct := pct1 margin revenue
  ⟨⟨⟨cell.qty, revenue, cogs, margin, pct, cell.unknownUnits⟩, isLow env margin pct⟩, cell.product⟩

def rollUp (rows : List MarginFigures) : MarginFigures :=
  let revenue := (rows.map fun r => r.revenue).sum
  let cogs := (rows.map fun r => r.cogs).sum
  let margin := revenue - cogs
  let pct := pct1 margin revenue
  ⟨⟨(rows.map fun r => r.qty).sum, revenue, cogs, margin, pct, (rows.map fun r => r.unknownUnits).sum⟩, isLow env margin pct⟩

/-- `byMargin(a, b) || byText(a.product, b.product)` is not positive. -/
def productLe (a b : MarginProduct) : Prop :=
  b.margin < a.margin ∨ a.margin = b.margin ∧ Js.before b.product a.product = false

def machineLe (a b : MarginMachine) : Prop :=
  b.margin < a.margin ∨ a.margin = b.margin ∧ Js.before b.serial a.serial = false

def excludedLe (a b : MarginExcluded) : Prop :=
  b.amount < a.amount ∨ a.amount = b.amount ∧ Js.before b.serial a.serial = false

instance : DecidableRel productLe := fun _ _ => by unfold productLe; infer_instance
instance : DecidableRel machineLe := fun _ _ => by unfold machineLe; infer_instance
instance : DecidableRel excludedLe := fun _ _ => by unfold excludedLe; infer_instance

/-- The cells of a machine, finished, under their keys. -/
def finishCells (acc : MachineAcc) : List (String × MarginProduct) :=
  acc.cells.map fun e => (e.1, finishProduct env e.2)

def finishMachine (acc : MachineAcc) : MarginMachine :=
  let products := ((finishCells env acc).map Prod.snd).insertionSort productLe
  ⟨rollUp env (products.map MarginProduct.toMarginFigures), acc.serial, acc.name, products⟩

/-- A product that machines sold: their rows, under the spelling of the first. -/
def finishBucket (rows : List MarginProduct) : MarginProduct :=
  ⟨rollUp env (rows.map MarginProduct.toMarginFigures), (rows.head?.map MarginProduct.product).getD ""⟩

def reportOfState (st : MarginState) : MarginReport :=
  let machines := (st.machines.map fun e => finishMachine env e.2).insertionSort machineLe
  let byProduct := group Prod.fst (st.machines.flatMap fun e => finishCells env e.2)
  let totals := (rollUp env (machines.map MarginMachine.toMarginFigures)).toMarginTotals
  { days := env.days
    from_ := env.from_
    to_ := env.to_
    lowPct := env.lowPct
    machines
    products := (byProduct.map fun e => finishBucket env (e.2.map Prod.snd)).insertionSort productLe
    totals
    unknownUnits := totals.unknownUnits
    unknownProducts := (st.unknownNames.map Prod.snd).insertionSort fun a b => Js.before b a = false
    excluded := (st.excluded.map Prod.snd).insertionSort excludedLe }

def marginByMachine (rows : List SaleRow) : MarginReport :=
  reportOfState env (rows.foldl (marginStep env) ⟨[], [], [], [], []⟩)

/-! What the loop has gathered. The spelling and the price of a product are those of its first counted row, so the
cells are two nested tallies. -/

variable {env} {rows pre : List SaleRow} {r : SaleRow} {s k : String}

def MarginEnv.inPark (env : MarginEnv) (r : SaleRow) : Bool := (OrderedMap.get env.park (env.serialKey r)).isSome

/-- The rows of machines in service. -/
def counted (env : MarginEnv) (rows : List SaleRow) : List SaleRow := rows.filter env.inPark

def spelling (env : MarginEnv) (rows : List SaleRow) (k : String) : String :=
  (((counted env rows).find? fun r => env.productKey r = k).map SaleRow.product).getD ""

def unitOf (env : MarginEnv) (rows : List SaleRow) (k : String) : Option ℚ := env.price (spelling env rows k)

def cells (env : MarginEnv) (rows own : List SaleRow) : List (String × Cell) :=
  tally env.productKey (fun k => emptyCell (spelling env rows k))
    (fun cell r => addSale (unitOf env rows (env.productKey r)) cell r) own

def startMachine (env : MarginEnv) (s : String) : MachineAcc :=
  let card := (OrderedMap.get env.park s).getD ("", "")
  ⟨card.1, card.2, []⟩

def addRow (env : MarginEnv) (rows : List SaleRow) (acc : MachineAcc) (r : SaleRow) : MachineAcc :=
  { acc with cells := OrderedMap.alter (fun own => addSale (unitOf env rows (env.productKey r))
      (own.getD (emptyCell (spelling env rows (env.productKey r)))) r) (env.productKey r) acc.cells }

def noteUnknown (env : MarginEnv) (rows : List SaleRow) (names : List (String × String)) (r : SaleRow) :
    List (String × String) :=
  if unitOf env rows (env.productKey r) = none then
    OrderedMap.set (env.productKey r) (spelling env rows (env.productKey r)) names
  else names

structure Gathered (env : MarginEnv) (rows pre : List SaleRow) (st : MarginState) : Prop where
  seen : ∀ k, OrderedMap.get st.seen k =
    if k ∈ (counted env pre).map env.productKey then some (spelling env rows k) else none
  byKey : ∀ k, OrderedMap.get st.byKey k =
    if k ∈ (counted env pre).map env.productKey then some (unitOf env rows k) else none
  machines : st.machines = tally env.serialKey (startMachine env) (addRow env rows) (counted env pre)
  excluded : st.excluded =
    tally env.serialKey (fun s => ⟨s, 0, 0⟩) addExcluded (pre.filter fun r => !env.inPark r)
  unknownNames : st.unknownNames = (counted env pre).foldl (noteUnknown env rows) []

theorem foldl_addRow (own : List SaleRow) (acc : MachineAcc) : own.foldl (addRow env rows) acc =
    { acc with cells := own.foldl (fun m r => OrderedMap.alter (fun cell => addSale (unitOf env rows (env.productKey r))
      (cell.getD (emptyCell (spelling env rows (env.productKey r)))) r) (env.productKey r) m) acc.cells } := by
  induction own generalizing acc with
  | nil => rfl
  | cons r own ih => rw [List.foldl_cons, ih, List.foldl_cons, addRow]

/-- The cells of a machine are a tally of its own rows. -/
theorem foldl_addRow_start (own : List SaleRow) (s : String) :
    (own.foldl (addRow env rows) (startMachine env s)).cells = cells env rows own := by
  rw [foldl_addRow]
  rfl

theorem addSale_product (unit : Option ℚ) (cell : Cell) (r : SaleRow) : (addSale unit cell r).product = cell.product := by
  unfold addSale
  rcases unit with _ | unit <;> rfl

theorem foldl_addSale_product {f : SaleRow → Option ℚ} (own : List SaleRow) (cell : Cell) :
    (own.foldl (fun cell r => addSale (f r) cell r) cell).product = cell.product := by
  induction own generalizing cell with
  | nil => rfl
  | cons r own ih => rw [List.foldl_cons, ih, addSale_product]

theorem product_of_get {own : List SaleRow} {cell : Cell} (h : OrderedMap.get (cells env rows own) k = some cell) :
    cell.product = spelling env rows k := by
  unfold cells at h
  rw [get_tally] at h
  split_ifs at h
  obtain rfl := Option.some.inj h
  exact foldl_addSale_product _ _

/-- The spelling of a counted product has its key. -/
theorem productKey_spelling (h : k ∈ (counted env rows).map env.productKey) :
    normalizeProductName env.host (spelling env rows k) = k := by
  obtain ⟨r, hr, hk⟩ := List.mem_map.mp h
  obtain ⟨first, hfirst⟩ := Option.isSome_iff_exists.mp
    (List.find?_isSome.mpr ⟨r, hr, decide_eq_true hk⟩ : ((counted env rows).find? fun r => env.productKey r = k).isSome = true)
  have hkey := List.find?_some hfirst
  unfold spelling
  rw [hfirst]
  exact of_decide_eq_true hkey

theorem counted_append (pre own : List SaleRow) : counted env (pre ++ own) = counted env pre ++ counted env own :=
  List.filter_append _ _

theorem counted_singleton (h : env.inPark r = true) : counted env [r] = [r] := List.filter_cons_of_pos h

/-- A key that comes for the first time is spelled as in its row. -/
theorem spelling_of_new (hfront : pre ++ [r] <+: rows) (hpark : env.inPark r = true)
    (hnew : env.productKey r ∉ (counted env pre).map env.productKey) : spelling env rows (env.productKey r) = r.product := by
  obtain ⟨rest, rfl⟩ := hfront
  have hnone : (counted env pre).find? (fun x => env.productKey x = env.productKey r) = none := by
    rw [List.find?_eq_none]
    intro x hx heq
    exact hnew (List.mem_map.mpr ⟨x, hx, of_decide_eq_true heq⟩)
  unfold spelling
  rw [counted_append, counted_append, counted_singleton hpark, List.find?_append, List.find?_append, hnone,
    Option.none_or, List.find?_singleton, if_pos (decide_eq_true rfl)]
  rfl

variable {st : MarginState}

/-- The registry gives a product its spelling. -/
theorem Gathered.display_eq (h : Gathered env rows pre st) (hfront : pre ++ [r] <+: rows) (hpark : env.inPark r = true) :
    (display env r st.seen).1 = spelling env rows (env.productKey r) ∧
      ∀ k, OrderedMap.get (display env r st.seen).2 k =
        if k ∈ (counted env (pre ++ [r])).map env.productKey then some (spelling env rows k) else none := by
  rw [counted_append, counted_singleton hpark, List.map_append, List.map_singleton]
  have hseen := get_remember h.seen fun hin => (spelling_of_new hfront hpark hin).symm
  unfold display
  rcases hget : OrderedMap.get st.seen (env.productKey r) with _ | hit <;> rw [hget] at hseen <;> exact hseen

/-- The machine of a row, as the loop finds it. -/
def machineSoFar (env : MarginEnv) (rows pre : List SaleRow) (s : String) : MachineAcc :=
  ((counted env pre).filter fun x => env.serialKey x = s).foldl (addRow env rows) (startMachine env s)

theorem Gathered.machine_eq (h : Gathered env rows pre st) (s : String) :
    (OrderedMap.get st.machines s).getD (startMachine env s) = machineSoFar env rows pre s := by
  rw [h.machines]
  exact getD_tally _ s

/-- The cell of a row: the one there is, or an empty one under the spelling of the product. -/
theorem Gathered.saleCell_eq (h : Gathered env rows pre st) (hfront : pre ++ [r] <+: rows) (hpark : env.inPark r = true) :
    (saleCell env (machineSoFar env rows pre (env.serialKey r)) st.seen r).1 =
        (OrderedMap.get (machineSoFar env rows pre (env.serialKey r)).cells (env.productKey r)).getD
          (emptyCell (spelling env rows (env.productKey r))) ∧
      (saleCell env (machineSoFar env rows pre (env.serialKey r)) st.seen r).1.product =
        spelling env rows (env.productKey r) ∧
      ∀ k, OrderedMap.get (saleCell env (machineSoFar env rows pre (env.serialKey r)) st.seen r).2 k =
        if k ∈ (counted env (pre ++ [r])).map env.productKey then some (spelling env rows k) else none := by
  have hcells : (machineSoFar env rows pre (env.serialKey r)).cells =
      cells env rows ((counted env pre).filter fun x => env.serialKey x = env.serialKey r) := foldl_addRow_start _ _
  obtain ⟨hdisplay, hseen⟩ := h.display_eq hfront hpark
  unfold saleCell
  rw [hcells]
  rcases hget : OrderedMap.get (cells env rows ((counted env pre).filter fun x => env.serialKey x = env.serialKey r))
    (env.productKey r) with _ | cell
  · simp only [Option.getD_none]
    rw [hdisplay]
    exact ⟨rfl, rfl, hseen⟩
  · simp only [Option.getD_some]
    refine ⟨trivial, product_of_get hget, fun k => ?_⟩
    have hin : env.productKey r ∈ (counted env pre).map env.productKey := by
      have hmem := hget
      unfold cells at hmem
      rw [get_tally] at hmem
      split_ifs at hmem with hmem'
      exact (List.map_subset _ (List.filter_subset_self _)) hmem'
    rw [h.seen, counted_append, counted_singleton hpark, List.map_append, List.map_singleton]
    have hiff : k ∈ (counted env pre).map env.productKey ++ [env.productKey r] ↔
        k ∈ (counted env pre).map env.productKey := by
      rw [List.mem_append, List.mem_singleton]
      exact or_iff_left_of_imp fun hk => hk ▸ hin
    simp only [hiff]

/-- The price of a row is asked for once for each product. -/
theorem Gathered.unitCost_eq (h : Gathered env rows pre st) (hfront : pre ++ [r] <+: rows) (hpark : env.inPark r = true) :
    (unitCost env (spelling env rows (env.productKey r)) st.byKey).1 = unitOf env rows (env.productKey r) ∧
      ∀ k, OrderedMap.get (unitCost env (spelling env rows (env.productKey r)) st.byKey).2 k =
        if k ∈ (counted env (pre ++ [r])).map env.productKey then some (unitOf env rows k) else none := by
  have hmem : env.productKey r ∈ (counted env rows).map env.productKey := by
    obtain ⟨rest, rfl⟩ := hfront
    rw [counted_append, counted_append, counted_singleton hpark]
    simp
  unfold unitCost
  rw [productKey_spelling hmem, counted_append, counted_singleton hpark, List.map_append, List.map_singleton]
  have hknown := @get_remember _ _ _ _ _ (unitOf env rows) (env.productKey r) _ h.byKey fun _ => rfl
  dsimp only
  rcases hget : OrderedMap.get st.byKey (env.productKey r) with _ | value <;> rw [hget] at hknown <;> exact hknown

/-- The loop gathers one more row. -/
theorem Gathered.step (h : Gathered env rows pre st) (hfront : pre ++ [r] <+: rows) :
    Gathered env rows (pre ++ [r]) (marginStep env st r) := by
  rcases hcard : OrderedMap.get env.park (env.serialKey r) with _ | card
  · have hpark : env.inPark r = false := by rw [MarginEnv.inPark, hcard]; rfl
    have hcounted : counted env (pre ++ [r]) = counted env pre := by
      rw [counted_append, counted, counted, List.filter_cons_of_neg (by rw [hpark]; decide), List.filter_nil, List.append_nil]
    have hstep : marginStep env st r =
        { st with
          excluded := OrderedMap.alter (fun acc => addExcluded (acc.getD ⟨env.serialKey r, 0, 0⟩) r)
            (env.serialKey r) st.excluded } := by
      unfold marginStep
      simp only [hcard]
    rw [hstep]
    refine ⟨by rw [hcounted]; exact h.seen, by rw [hcounted]; exact h.byKey, by rw [hcounted]; exact h.machines, ?_,
      by rw [hcounted]; exact h.unknownNames⟩
    rw [h.excluded, List.filter_append, List.filter_cons_of_pos (by rw [hpark]; rfl), List.filter_nil, tally_concat]
  · have hpark : env.inPark r = true := by rw [MarginEnv.inPark, hcard]; rfl
    have hstart : startMachine env (env.serialKey r) = ⟨card.1, card.2, []⟩ := by
      unfold startMachine
      rw [hcard]
      rfl
    obtain ⟨hcell, hproduct, hseen⟩ := h.saleCell_eq hfront hpark
    obtain ⟨hunit, hbyKey⟩ := h.unitCost_eq hfront hpark
    have hmachine := h.machine_eq (env.serialKey r)
    have hcounted : counted env (pre ++ [r]) = counted env pre ++ [r] := by
      rw [counted_append, counted_singleton hpark]
    have hstep : marginStep env st r =
        { seen := (saleCell env (machineSoFar env rows pre (env.serialKey r)) st.seen r).2
          byKey := (unitCost env (spelling env rows (env.productKey r)) st.byKey).2
          machines := OrderedMap.set (env.serialKey r)
            (addRow env rows (machineSoFar env rows pre (env.serialKey r)) r) st.machines
          excluded := st.excluded
          unknownNames := noteUnknown env rows st.unknownNames r } := by
      unfold marginStep
      simp only [hcard]
      rw [← hstart, hmachine, hproduct, hunit, hcell]
      unfold addRow noteUnknown
      congr 1
      congr 1
      congr 1
      exact OrderedMap.alter_congr rfl
    rw [hstep]
    refine ⟨hseen, hbyKey, ?_, ?_, ?_⟩
    · dsimp only
      rw [hcounted, tally_concat, ← h.machines]
      apply OrderedMap.alter_congr
      rw [hmachine]
    · dsimp only
      rw [h.excluded, List.filter_append, List.filter_cons_of_neg (by rw [hpark]; decide), List.filter_nil, List.append_nil]
    · dsimp only
      rw [hcounted, List.foldl_append, h.unknownNames]
      rfl

/-- The loop gathers all the rows. -/
theorem gathered (env : MarginEnv) (rows : List SaleRow) :
    Gathered env rows rows (rows.foldl (marginStep env) ⟨[], [], [], [], []⟩) := by
  have hrun : ∀ pre, pre <+: rows → Gathered env rows pre (pre.foldl (marginStep env) ⟨[], [], [], [], []⟩) := by
    intro pre
    induction pre using List.reverseRecOn with
    | nil => exact fun _ => ⟨fun _ => rfl, fun _ => rfl, rfl, rfl, rfl⟩
    | append_singleton pre r ih =>
      intro hfront
      rw [List.foldl_append, List.foldl_cons, List.foldl_nil]
      exact (ih ((List.prefix_append pre [r]).trans hfront)).step hfront
  exact hrun rows (List.prefix_refl rows)

end Mydon.Vending
