import Mydon.Vending.Field
import Mathlib.Data.Rat.Floor

/-! The purchase: what the machines lack of each product, what of it is bought, and what of it
comes from the stock. -/

namespace Mydon.Vending

open Mydon.Lib

/-! What the machines lack. -/

def slotDeficit (s : Slot) : ℤ := max 0 (s.capacity - min s.quantity s.capacity)

structure MachineSlots where
  machineId : String
  slots : List Slot
  deriving DecidableEq

structure ProductNeed where
  product : String
  perMachine : List (String × ℚ)
  total : ℚ
  deriving DecidableEq

/-- A valid slot of a product that is not full. -/
def lacking (s : Slot) : Bool := usable s && 0 < slotDeficit s

def lackingSlots (machines : List MachineSlots) : List (String × Slot) :=
  machines.flatMap fun m => (m.slots.filter lacking).map fun s => (m.machineId, s)

def addNeed (entry : ProductNeed) (e : String × Slot) : ProductNeed :=
  { entry with
    perMachine := OrderedMap.alter (fun own => own.getD 0 + slotDeficit e.2) e.1 entry.perMachine
    total := entry.total + slotDeficit e.2 }

def needByProduct (machines : List MachineSlots) : List ProductNeed :=
  (tally (fun e => productName e.2) (fun product => ⟨product, [], 0⟩) addNeed (lackingSlots machines)).map Prod.snd

/-! What is bought. -/

structure PriceEntry where
  price : ℚ
  pack : ℚ
  deriving DecidableEq

structure PurchaseRow where
  product : String
  perMachine : List (String × ℚ)
  need : Option ℚ
  stock : ℚ
  sold7 : ℚ
  deriving DecidableEq

inductive AllocationPolicy
  | purchaseFirst
  | warehouseFirst
  deriving DecidableEq

structure ProductRule where
  excluded : Bool
  fixedQty : Option ℚ
  pack : Option ℚ
  deriving DecidableEq

structure PurchaseOptions where
  round : Bool := true
  includeNoSales : Bool := false
  allocation : AllocationPolicy := .purchaseFirst
  rules : List (String × ProductRule) := []
  deriving DecidableEq

structure PurchaseItem where
  product : String
  perMachine : List (String × ℚ)
  need : ℚ
  stock : ℚ
  covered : ℚ
  buy : ℚ
  surplus : ℚ
  pack : ℚ
  order : ℚ
  extra : ℚ
  price : ℚ
  costExact : ℚ
  costRounded : ℚ
  noPrice : Bool
  noSales : Bool
  fromPurchase : ℚ
  fromStock : ℚ
  unfilled : ℚ
  toStock : ℚ
  stockAfter : ℚ
  excluded : Bool
  fixedQty : Option ℚ
  deriving DecidableEq

/-- A fixed quantity replaces the shortage and is not rounded to packs. -/
def orderQty (round excluded : Bool) (fixedQty : Option ℚ) (buy pack : ℚ) : ℚ :=
  if excluded || buy = 0 then 0
  else match fixedQty with
    | some qty => qty
    | none => if round then ⌈buy / pack⌉ * pack else buy

/-- What goes into the machines from the purchase, and from the stock. -/
def load (allocation : AllocationPolicy) (need stock order : ℚ) : ℚ × ℚ :=
  match allocation with
  | .purchaseFirst =>
    let fromPurchase := min need order
    (fromPurchase, min stock (need - fromPurchase))
  | .warehouseFirst =>
    let fromStock := min stock need
    (min order (need - fromStock), fromStock)

section row
variable (prices : List (String × PriceEntry)) (opts : PurchaseOptions) (row : PurchaseRow) (need : ℚ)

def ruledOut : Bool := (OrderedMap.get opts.rules row.product).any (·.excluded)

def fixedQtyOf : Option ℚ := ((OrderedMap.get opts.rules row.product).bind (·.fixedQty)).filter (0 < ·)

/-- A pack of less than one piece would not round anything. -/
def packOf : ℚ :=
  max 1 ((((OrderedMap.get prices row.product).map (·.pack)).or
    ((OrderedMap.get opts.rules row.product).bind (·.pack))).getD 1)

def buyQty : ℚ := if ruledOut opts row then 0 else max 0 (need - row.stock)

def orderOf : ℚ :=
  orderQty opts.round (ruledOut opts row) (fixedQtyOf opts row) (buyQty opts row need) (packOf prices opts row)

/-- What is ruled out or not sold is not bought, but what lies in the stock is loaded. -/
def orderForLoad : ℚ :=
  let purchasable := !ruledOut opts row && (opts.includeNoSales || !(row.sold7 ≤ 0 : Bool))
  if purchasable then orderOf prices opts row need else 0

def itemOf (loaded : ℚ × ℚ) : PurchaseItem :=
  let price := OrderedMap.get prices row.product
  let unit := (price.map (·.price)).getD 0
  let buy := buyQty opts row need
  let order := orderOf prices opts row need
  let toStock := orderForLoad prices opts row need - loaded.1
  { product := row.product
    perMachine := row.perMachine
    need
    stock := row.stock
    covered := min row.stock need
    buy
    surplus := max 0 (row.stock - need)
    pack := packOf prices opts row
    order
    extra := max 0 (order - buy)
    price := unit
    costExact := buy * unit
    costRounded := order * unit
    noPrice := price.isNone
    noSales := row.sold7 ≤ 0
    fromPurchase := loaded.1
    fromStock := loaded.2
    unfilled := need - loaded.1 - loaded.2
    toStock
    stockAfter := row.stock - loaded.2 + toStock
    excluded := ruledOut opts row
    fixedQty := fixedQtyOf opts row }

def purchaseItem : Option PurchaseItem :=
  let need := row.need.getD (row.perMachine.map Prod.snd).sum
  if need ≤ 0 then none
  else some (itemOf prices opts row need (load opts.allocation need row.stock (orderForLoad prices opts row need)))

end row

structure PurchaseSummary where
  items : List PurchaseItem
  excludedNoSales : List PurchaseItem
  excludedByRule : List PurchaseItem
  noPrice : List String
  allocation : AllocationPolicy
  totalNeed : ℚ
  totalCovered : ℚ
  totalBuy : ℚ
  totalOrder : ℚ
  costExact : ℚ
  costRounded : ℚ
  overpay : ℚ
  shortfallCost : ℚ
  costByPriceFull : ℚ
  totalFromPurchase : ℚ
  totalFromStock : ℚ
  totalUnfilled : ℚ
  totalToStock : ℚ
  deriving DecidableEq

def total (f : PurchaseItem → ℚ) (items : List PurchaseItem) : ℚ := (items.map f).sum

/-- Not sold within the week, and not asked for either. -/
def heldBack (opts : PurchaseOptions) (i : PurchaseItem) : Bool := i.noSales && !opts.includeNoSales

/-- The pieces are summed over everything that is loaded, the money over what is bought and has a price. -/
def computePurchase (input : List PurchaseRow) (prices : List (String × PriceEntry)) (opts : PurchaseOptions) :
    PurchaseSummary :=
  let loaded := input.filterMap (purchaseItem prices opts)
  let admitted := loaded.filter fun i => !i.excluded
  let items := admitted.filter fun i => !heldBack opts i
  let priced := items.filter fun i => !i.noPrice
  let costExact := total (·.costExact) priced
  let costRounded := total (·.costRounded) priced
  { items
    excludedNoSales := admitted.filter (heldBack opts)
    excludedByRule := loaded.filter (·.excluded)
    noPrice := (admitted.filter (·.noPrice)).map (·.product)
    allocation := opts.allocation
    totalNeed := total (·.need) items
    totalCovered := total (·.covered) items
    totalBuy := total (·.buy) items
    totalOrder := total (·.order) items
    costExact
    costRounded
    overpay := max 0 (costRounded - costExact)
    shortfallCost := max 0 (costExact - costRounded)
    costByPriceFull := total (fun i => i.need * i.price) (admitted.filter fun i => !i.noPrice)
    totalFromPurchase := total (·.fromPurchase) loaded
    totalFromStock := total (·.fromStock) loaded
    totalUnfilled := total (·.unfilled) loaded
    totalToStock := total (·.toStock) loaded }

/-- The rows of the needs: what has no row in the stock, or no sale, counts as zero. -/
def purchaseRows (needs : List ProductNeed) (stock sold7 : List (String × ℚ)) : List PurchaseRow :=
  needs.map fun n => ⟨n.product, n.perMachine, some n.total, (OrderedMap.get stock n.product).getD 0,
    (OrderedMap.get sold7 n.product).getD 0⟩

def allItems (s : PurchaseSummary) : List PurchaseItem := s.items ++ s.excludedByRule ++ s.excludedNoSales

/-! The needs. -/

section needs
variable {machines : List MachineSlots} {n : ProductNeed}

/-- What slots lack together. -/
def lack (slots : List (String × Slot)) : ℚ := (slots.map fun e => (slotDeficit e.2 : ℚ)).sum

/-- The slots of a product that are not full. -/
def lackingOf (machines : List MachineSlots) (product : String) : List (String × Slot) :=
  (lackingSlots machines).filter fun e => productName e.2 = product

theorem lacking_pos {s : Slot} (h : lacking s = true) : 0 < slotDeficit s := by
  unfold lacking at h
  rw [Bool.and_eq_true, decide_eq_true_eq] at h
  exact h.2

theorem foldl_addNeed (slots : List (String × Slot)) (start : ProductNeed) :
    slots.foldl addNeed start =
      { product := start.product
        perMachine := slots.foldl (fun m e => OrderedMap.alter (fun own => own.getD 0 + slotDeficit e.2) e.1 m)
          start.perMachine
        total := start.total + lack slots } := by
  induction slots generalizing start with
  | nil => simp [lack]
  | cons e rest ih =>
    rw [List.foldl_cons, ih]
    simp [addNeed, lack, add_assoc]

theorem needByProduct_eq (machines : List MachineSlots) : needByProduct machines =
    (OrderedMap.keySet ((lackingSlots machines).map fun e => productName e.2)).map fun product =>
      (lackingOf machines product).foldl addNeed ⟨product, [], 0⟩ := by
  unfold needByProduct lackingOf
  rw [tally_eq, List.map_map]
  rfl

theorem products_needByProduct (machines : List MachineSlots) :
    (needByProduct machines).map (·.product) =
      OrderedMap.keySet ((lackingSlots machines).map fun e => productName e.2) := by
  rw [needByProduct_eq, List.map_map]
  refine (List.map_congr_left fun product _ => ?_).trans (List.map_id _)
  simp [foldl_addNeed]

/-- Every product is needed once. -/
theorem nodup_needByProduct (machines : List MachineSlots) : ((needByProduct machines).map (·.product)).Nodup := by
  rw [products_needByProduct]
  exact nodup_keySet _

theorem of_mem_needByProduct (hn : n ∈ needByProduct machines) :
    n.total = lack (lackingOf machines n.product) ∧
      ∀ machineId, OrderedMap.get n.perMachine machineId =
        if machineId ∈ (lackingOf machines n.product).map Prod.fst then
          some (lack ((lackingOf machines n.product).filter fun e => e.1 = machineId)) else none := by
  rw [needByProduct_eq] at hn
  obtain ⟨product, -, rfl⟩ := List.mem_map.mp hn
  have hsum : ∀ slots : List (String × Slot),
      slots.foldl (fun n e => n + (slotDeficit e.2 : ℚ)) 0 = lack slots := by
    intro slots
    rw [lack, List.sum_eq_foldl, List.foldl_map]
  simp only [foldl_addNeed, zero_add, true_and]
  intro machineId
  rw [← hsum]
  exact @get_tally _ _ _ _ Prod.fst (fun _ => (0 : ℚ)) (fun n e => n + slotDeficit e.2) _ machineId

end needs

/-! One item. -/

/-- Nothing of an item is lost or made up. -/
structure PurchaseItem.Balanced (opts : PurchaseOptions) (i : PurchaseItem) : Prop where
  need : i.fromPurchase + i.fromStock + i.unfilled = i.need
  fromPurchase_nonneg : 0 ≤ i.fromPurchase
  fromStock_nonneg : 0 ≤ i.fromStock
  fromStock_le : i.fromStock ≤ i.stock
  unfilled_nonneg : 0 ≤ i.unfilled
  order : i.fromPurchase + i.toStock = if i.excluded || heldBack opts i then 0 else i.order
  stockAfter : i.stockAfter = i.stock - i.fromStock + i.toStock
  stockAfter_nonneg : 0 ≤ i.stockAfter

section item
variable {prices : List (String × PriceEntry)} {opts : PurchaseOptions} {row : PurchaseRow} {i : PurchaseItem}

theorem orderQty_nonneg {round excluded : Bool} {fixedQty : Option ℚ} {buy pack : ℚ} (hbuy : 0 ≤ buy)
    (hpack : 1 ≤ pack) (hfixed : ∀ qty ∈ fixedQty, 0 < qty) : 0 ≤ orderQty round excluded fixedQty buy pack := by
  unfold orderQty
  cases fixedQty with
  | some qty =>
    dsimp only
    split_ifs
    · exact le_rfl
    · exact (hfixed qty rfl).le
  | none =>
    split_ifs
    · exact le_rfl
    · have hceil : 0 ≤ ⌈buy / pack⌉ := Int.ceil_nonneg (div_nonneg hbuy (by linarith))
      have hceil' : (0 : ℚ) ≤ (⌈buy / pack⌉ : ℚ) := by exact_mod_cast hceil
      exact mul_nonneg hceil' (by linarith)
    · exact hbuy

/-- Under both policies the machines get the same, as far as order and stock reach. -/
theorem load_sum (allocation : AllocationPolicy) (need : ℚ) {stock order : ℚ} (hstock : 0 ≤ stock) (horder : 0 ≤ order) :
    (load allocation need stock order).1 + (load allocation need stock order).2 = min need (stock + order) := by
  cases allocation with
  | purchaseFirst =>
    change min need order + min stock (need - min need order) = _
    rcases le_total need order with h | h
    · rw [min_eq_left h, sub_self, min_eq_right hstock, add_zero, min_eq_left (by linarith)]
    · rw [min_eq_right h, ← min_add_add_left, add_sub_cancel, min_comm, add_comm]
  | warehouseFirst =>
    change min order (need - min stock need) + min stock need = _
    rcases le_total stock need with h | h
    · rw [min_eq_left h, ← min_add_add_right, sub_add_cancel, min_comm, add_comm]
    · rw [min_eq_right h, sub_self, min_eq_right horder, zero_add, min_eq_left (by linarith)]

theorem load_bounds (allocation : AllocationPolicy) {need stock order : ℚ} (hneed : 0 ≤ need) (hstock : 0 ≤ stock)
    (horder : 0 ≤ order) :
    (0 ≤ (load allocation need stock order).1 ∧ (load allocation need stock order).1 ≤ order) ∧
      0 ≤ (load allocation need stock order).2 ∧ (load allocation need stock order).2 ≤ stock := by
  cases allocation with
  | purchaseFirst =>
    exact ⟨⟨le_min hneed horder, min_le_right _ _⟩, le_min hstock (sub_nonneg.mpr (min_le_left _ _)), min_le_left _ _⟩
  | warehouseFirst =>
    exact ⟨⟨le_min horder (sub_nonneg.mpr (min_le_right _ _)), min_le_left _ _⟩, le_min hstock hneed, min_le_left _ _⟩

theorem orderForLoad_nonneg (need : ℚ) : 0 ≤ orderForLoad prices opts row need := by
  have hbuy : 0 ≤ buyQty opts row need := by
    unfold buyQty
    split_ifs
    · exact le_rfl
    · exact le_max_left _ _
  unfold orderForLoad
  dsimp only
  split_ifs
  · exact orderQty_nonneg hbuy (le_max_left _ _) fun qty hqty =>
      of_decide_eq_true (Option.filter_eq_some_iff.mp hqty).2
  · exact le_rfl

theorem orderForLoad_eq {need : ℚ} {loaded : ℚ × ℚ} (hi : i = itemOf prices opts row need loaded) :
    orderForLoad prices opts row need = if i.excluded || heldBack opts i then 0 else i.order := by
  subst hi
  unfold orderForLoad heldBack itemOf
  cases ruledOut opts row <;> cases opts.includeNoSales <;> cases decide (row.sold7 ≤ 0) <;> rfl

theorem purchaseItem_eq_some (h : purchaseItem prices opts row = some i) :
    0 < i.need ∧ i.need = row.need.getD (row.perMachine.map Prod.snd).sum ∧ i = itemOf prices opts row i.need
      (load opts.allocation i.need row.stock (orderForLoad prices opts row i.need)) := by
  unfold purchaseItem at h
  dsimp only at h
  split_ifs at h with hneed
  obtain rfl := Option.some.inj h
  exact ⟨not_le.mp hneed, rfl, rfl⟩

theorem balanced_of_purchaseItem (h : purchaseItem prices opts row = some i) (hstock : 0 ≤ row.stock) :
    i.Balanced opts := by
  obtain ⟨hneed, -, hi⟩ := purchaseItem_eq_some h
  generalize hn : i.need = need at hneed hi
  subst hi
  have horder := @orderForLoad_nonneg prices opts row need
  have hsum := load_sum opts.allocation need hstock horder
  obtain ⟨⟨hp, hp'⟩, hs, hs'⟩ := load_bounds opts.allocation hneed.le hstock horder
  have hle := min_le_left need (row.stock + orderForLoad prices opts row need)
  constructor
  case order =>
    rw [← orderForLoad_eq rfl]
    exact add_sub_cancel _ _
  case stockAfter => rfl
  all_goals
    dsimp only [itemOf]
    linarith

/-- What the policy leaves of an item: it decides where the goods come from, and not how many there are. -/
structure Outcome where
  product : String
  unfilled : ℚ
  stockAfter : ℚ
  excluded : Bool
  noSales : Bool
  deriving DecidableEq

def PurchaseItem.outcome (i : PurchaseItem) : Outcome := ⟨i.product, i.unfilled, i.stockAfter, i.excluded, i.noSales⟩

theorem purchaseItem_policy (hstock : 0 ≤ row.stock) (allocation : AllocationPolicy) :
    (purchaseItem prices { opts with allocation } row).map (·.outcome) =
      (purchaseItem prices opts row).map (·.outcome) := by
  unfold purchaseItem
  dsimp only
  split_ifs with hneed
  · rfl
  · generalize row.need.getD (row.perMachine.map Prod.snd).sum = need
    have horder := @orderForLoad_nonneg prices opts row need
    have hsum := load_sum opts.allocation need hstock horder
    have hsum' := load_sum allocation need hstock horder
    have hunchanged : orderForLoad prices { opts with allocation } row = orderForLoad prices opts row := rfl
    have hrule : ruledOut { opts with allocation } row = ruledOut opts row := rfl
    simp only [Option.map_some, Option.some.injEq, PurchaseItem.outcome, Outcome.mk.injEq, itemOf, hunchanged, hrule,
      true_and, and_true]
    constructor <;> linarith

end item

/-! All items. -/

section items
variable {prices : List (String × PriceEntry)} {opts : PurchaseOptions} {rows : List PurchaseRow} {i : PurchaseItem}

theorem allItems_perm (rows : List PurchaseRow) (prices : List (String × PriceEntry)) (opts : PurchaseOptions) :
    (allItems (computePurchase rows prices opts)).Perm (rows.filterMap (purchaseItem prices opts)) := by
  set loaded := rows.filterMap (purchaseItem prices opts)
  have hheld : ((loaded.filter fun i => !i.excluded).filter (heldBack opts) ++
      (loaded.filter fun i => !i.excluded).filter fun i => !heldBack opts i).Perm (loaded.filter fun i => !i.excluded) :=
    List.filter_append_perm _ _
  have hruled : (loaded.filter (·.excluded) ++ loaded.filter fun i => !i.excluded).Perm loaded :=
    List.filter_append_perm _ _
  unfold allItems computePurchase
  rw [List.append_assoc]
  refine (List.perm_append_comm.trans ?_).trans hruled
  rw [List.append_assoc]
  exact hheld.append_left _

theorem mem_allItems : i ∈ allItems (computePurchase rows prices opts) ↔ ∃ row ∈ rows, purchaseItem prices opts row = some i := by
  rw [(allItems_perm rows prices opts).mem_iff, List.mem_filterMap]

theorem product_of_purchaseItem {row : PurchaseRow} (h : purchaseItem prices opts row = some i) :
    i.product = row.product ∧ i.perMachine = row.perMachine := by
  rw [(purchaseItem_eq_some h).2.2]
  exact ⟨rfl, rfl⟩

theorem nodup_allItems (hrows : (rows.map (·.product)).Nodup) :
    ((allItems (computePurchase rows prices opts)).map (·.product)).Nodup := by
  refine ((allItems_perm rows prices opts).map _).nodup_iff.mpr (hrows.sublist ?_)
  induction rows with
  | nil => exact List.Sublist.slnil
  | cons row rows ih =>
    rcases h : purchaseItem prices opts row with _ | i
    · rw [List.filterMap_cons_none h]
      exact (ih (List.nodup_cons.mp hrows).2).cons _
    · rw [List.filterMap_cons_some h, List.map_cons, List.map_cons, (product_of_purchaseItem h).1]
      exact (ih (List.nodup_cons.mp hrows).2).cons_cons _

/-- Under the other policy the items are the same ones, in the same order, with the same outcomes. -/
theorem outcomes_policy (hstock : ∀ row ∈ rows, 0 ≤ row.stock) (allocation : AllocationPolicy) :
    (allItems (computePurchase rows prices { opts with allocation })).map (·.outcome) =
      (allItems (computePurchase rows prices opts)).map (·.outcome) := by
  have hloaded : (rows.filterMap (purchaseItem prices { opts with allocation })).map (·.outcome) =
      (rows.filterMap (purchaseItem prices opts)).map (·.outcome) := by
    rw [List.map_filterMap, List.map_filterMap]
    exact List.filterMap_congr fun row hrow => purchaseItem_policy (hstock row hrow) allocation
  have hgroups : ∀ opts' : PurchaseOptions, (allItems (computePurchase rows prices opts')).map (·.outcome) =
      (((rows.filterMap (purchaseItem prices opts')).map (·.outcome)).filter fun o => !o.excluded).filter
          (fun o => !(o.noSales && !opts'.includeNoSales)) ++
        ((rows.filterMap (purchaseItem prices opts')).map (·.outcome)).filter (·.excluded) ++
        (((rows.filterMap (purchaseItem prices opts')).map (·.outcome)).filter fun o => !o.excluded).filter
          fun o => o.noSales && !opts'.includeNoSales := by
    intro opts'
    simp only [allItems, computePurchase, List.map_append, List.filter_map]
    rfl
  rw [hgroups, hgroups, hloaded]

end items

end Mydon.Vending
