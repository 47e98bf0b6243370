import Mydon.Lib.Supplies
import Mydon.Vending.Purchase

/-! The plan of a round: what is bought and what lies in the stock, handed out to the machines along
the route, and inside a machine to its slots. -/

namespace Mydon.Vending

open Mydon.Lib

/-- Numbered coils by their numbers, before the named ones. -/
def coilOrder (host : Js.Host) (a b : String) : ℚ :=
  let na := if Js.trim a = "" then none else host.number a
  let nb := if Js.trim b = "" then none else host.number b
  match na, nb with
  | some na, some nb => na - nb
  | some _, none => -1
  | none, some _ => 1
  | none, none => host.localeCompare a b

structure ProductAllocation where
  need : ℚ
  fromPurchase : ℚ
  fromStock : ℚ
  unfilled : ℚ
  deriving DecidableEq

structure MachineAllocation where
  serial : String
  byProduct : List (String × ProductAllocation)
  need : ℚ
  fromPurchase : ℚ
  fromStock : ℚ
  unfilled : ℚ
  deriving DecidableEq

/-- What one item gives to the machines of the route. -/
def shareOut (i : PurchaseItem) : List String → ℚ → ℚ → List (String × ProductAllocation)
  | [], _, _ => []
  | serial :: route, restPurchase, restStock =>
    let need := (OrderedMap.get i.perMachine serial).getD 0
    if need ≤ 0 then shareOut i route restPurchase restStock
    else
      let fromPurchase := min need restPurchase
      let fromStock := min (need - fromPurchase) restStock
      (serial, ⟨need, fromPurchase, fromStock, need - fromPurchase - fromStock⟩) ::
        shareOut i route (restPurchase - fromPurchase) (restStock - fromStock)

def MachineAllocation.add (m : MachineAllocation) (product : String) (a : ProductAllocation) : MachineAllocation :=
  { m with
    byProduct := OrderedMap.set product a m.byProduct
    need := m.need + a.need
    fromPurchase := m.fromPurchase + a.fromPurchase
    fromStock := m.fromStock + a.fromStock
    unfilled := m.unfilled + a.unfilled }

def allocateItem (route : List String) (out : List MachineAllocation) (i : PurchaseItem) : List MachineAllocation :=
  (shareOut i route i.fromPurchase i.fromStock).foldl
    (fun out e => out.map fun m => if m.serial = e.1 then m.add i.product e.2 else m) out

def allocateByRoute (items : List PurchaseItem) (route : List String) : List MachineAllocation :=
  let uniqueRoute := OrderedMap.keySet route
  items.foldl (allocateItem uniqueRoute) (uniqueRoute.map fun serial => ⟨serial, [], 0, 0, 0, 0⟩)

structure SlotPlanRow where
  coilId : String
  product : String
  quantity : ℤ
  capacity : ℤ
  need : ℚ
  fromPurchase : ℚ
  fromStock : ℚ
  unfilled : ℚ
  deriving DecidableEq

/-- The rows of the slots in turn; `left` is what the machine still has of each product. -/
def fillSlots : List Slot → List (String × ℚ × ℚ) → List SlotPlanRow
  | [], _ => []
  | s :: slots, left =>
    if lacking s then
      let need : ℚ := slotDeficit s
      let l := (OrderedMap.get left (productName s)).getD (0, 0)
      let fromPurchase := min need l.1
      let fromStock := min (need - fromPurchase) l.2
      ⟨s.coilId, productName s, min s.quantity s.capacity, s.capacity, need, fromPurchase, fromStock,
          need - fromPurchase - fromStock⟩ ::
        fillSlots slots (OrderedMap.set (productName s) (l.1 - fromPurchase, l.2 - fromStock) left)
    else fillSlots slots left

def orderedSlots (host : Js.Host) (slots : List Slot) : List Slot :=
  slots.insertionSort fun a b => coilOrder host a.coilId b.coilId ≤ 0

def allocateBySlots (host : Js.Host) (slots : List Slot) (alloc : MachineAllocation) : List SlotPlanRow :=
  fillSlots (orderedSlots host slots) (OrderedMap.mapValues (fun a => (a.fromPurchase, a.fromStock)) alloc.byProduct)

/-- The slots that the plan has for a serial. -/
def slotsOf (machines : List MachineSlots) (serial : String) : List Slot :=
  ((machines.find? fun m => m.machineId = serial).map (·.slots)).getD []

/-! The machines. -/

section route
variable {i : PurchaseItem} {route : List String} {items : List PurchaseItem}

def needAt (i : PurchaseItem) (serial : String) : ℚ := (OrderedMap.get i.perMachine serial).getD 0

/-- The machines of a route that lack the product. -/
def lackingAt (i : PurchaseItem) (route : List String) : List String := route.filter fun serial => 0 < needAt i serial

theorem shareOut_eq (i : PurchaseItem) (route : List String) (p s : ℚ) :
    (shareOut i route p s).map Prod.fst = lackingAt i route ∧
      (shareOut i route p s).map (fun e => (e.2.fromPurchase, e.2.fromStock)) =
        Supplies.serve ((lackingAt i route).map (needAt i)) p s ∧
      (∀ e ∈ shareOut i route p s, e.2.need = needAt i e.1 ∧ e.2.fromPurchase + e.2.fromStock + e.2.unfilled = e.2.need) := by
  induction route generalizing p s with
  | nil => exact ⟨rfl, rfl, List.forall_mem_nil _⟩
  | cons serial route ih =>
    unfold shareOut lackingAt
    by_cases h : (OrderedMap.get i.perMachine serial).getD 0 ≤ 0
    · rw [if_pos h, List.filter_cons_of_neg (by rw [decide_eq_true_eq]; exact not_lt.mpr h)]
      exact ih p s
    · rw [if_neg h, List.filter_cons_of_pos (by rw [decide_eq_true_eq]; exact not_le.mp h)]
      obtain ⟨hkeys, hserve, hmem⟩ := ih (p - min (needAt i serial) p)
        (s - min (needAt i serial - min (needAt i serial) p) s)
      refine ⟨congrArg (serial :: ·) hkeys, ?_, List.forall_mem_cons.mpr ⟨⟨rfl, ?_⟩, hmem⟩⟩
      · exact congrArg (_ :: ·) hserve
      · dsimp only
        ring

theorem shareOut_fits {p s : ℚ} (hp : 0 ≤ p) (hs : 0 ≤ s) :
    ∀ e ∈ shareOut i route p s, 0 ≤ e.2.fromPurchase ∧ 0 ≤ e.2.fromStock ∧ 0 ≤ e.2.unfilled := by
  induction route generalizing p s with
  | nil => exact List.forall_mem_nil _
  | cons serial route ih =>
    unfold shareOut
    by_cases h : (OrderedMap.get i.perMachine serial).getD 0 ≤ 0
    · rw [if_pos h]
      exact ih hp hs
    · rw [if_neg h]
      have hfits := Supplies.fits_portion (not_le.mp h).le hp hs
      obtain ⟨hp', hs'⟩ := Supplies.rest_nonneg ((OrderedMap.get i.perMachine serial).getD 0) p s
      refine List.forall_mem_cons.mpr ⟨⟨hfits.first, hfits.second, ?_⟩, ih hp' hs'⟩
      have hwithin := hfits.within
      dsimp only [Supplies.portion] at hwithin ⊢
      linarith

@[simp] theorem serial_add (m : MachineAllocation) (product : String) (a : ProductAllocation) :
    (m.add product a).serial = m.serial := rfl

@[simp] theorem serial_foldl_add (shares : List (String × ProductAllocation)) (m : MachineAllocation) :
    (shares.foldl (fun m e => m.add e.1 e.2) m).serial = m.serial := by
  induction shares generalizing m with
  | nil => rfl
  | cons e shares ih => exact ih (m.add e.1 e.2)

/-- The share of a machine in one item. -/
def shareAt (route : List String) (serial : String) (i : PurchaseItem) : List (String × ProductAllocation) :=
  ((shareOut i route i.fromPurchase i.fromStock).filter fun e => e.1 = serial).map fun e => (i.product, e.2)

theorem allocateItem_eq (route : List String) (out : List MachineAllocation) (i : PurchaseItem) :
    allocateItem route out i =
      out.map fun m => (shareAt route m.serial i).foldl (fun m e => m.add e.1 e.2) m := by
  unfold allocateItem shareAt
  induction shareOut i route i.fromPurchase i.fromStock generalizing out with
  | nil => simp
  | cons e shares ih =>
    rw [List.foldl_cons, ih, List.map_map]
    refine List.map_congr_left fun m _ => ?_
    by_cases h : m.serial = e.1
    · simp [h]
    · simp [h, Ne.symm h]

theorem foldl_allocateItem (route : List String) (items : List PurchaseItem) (out : List MachineAllocation) :
    items.foldl (allocateItem route) out =
      out.map fun m => (items.flatMap (shareAt route m.serial)).foldl (fun m e => m.add e.1 e.2) m := by
  induction items generalizing out with
  | nil => simp
  | cons i items ih =>
    rw [List.foldl_cons, ih, allocateItem_eq, List.map_map]
    refine List.map_congr_left fun m _ => ?_
    simp [List.foldl_append]

theorem byProduct_foldl_add (shares : List (String × ProductAllocation)) (m : MachineAllocation) :
    (shares.foldl (fun m e => m.add e.1 e.2) m).byProduct =
      shares.foldl (fun own e => OrderedMap.set e.1 e.2 own) m.byProduct := by
  induction shares generalizing m with
  | nil => rfl
  | cons e shares ih => exact ih (m.add e.1 e.2)

/-- A machine gets at most one share in an item. -/
theorem shareAt_eq (hroute : route.Nodup) (serial : String) (i : PurchaseItem) : shareAt route serial i =
    ((OrderedMap.get (shareOut i route i.fromPurchase i.fromStock) serial).map fun a => (i.product, a)).toList := by
  have hkeys : (OrderedMap.keys (shareOut i route i.fromPurchase i.fromStock)).Nodup := by
    rw [OrderedMap.keys, (shareOut_eq i route _ _).1]
    exact hroute.filter _
  rw [shareAt, OrderedMap.filter_key hkeys]
  cases OrderedMap.get (shareOut i route i.fromPurchase i.fromStock) serial <;> rfl

theorem products_sharesAt (hroute : route.Nodup) (serial : String) (items : List PurchaseItem) :
    ((items.flatMap (shareAt route serial)).map Prod.fst).Sublist (items.map (·.product)) := by
  induction items with
  | nil => exact List.Sublist.slnil
  | cons i items ih =>
    rw [List.flatMap_cons, List.map_append, List.map_cons, shareAt_eq hroute]
    cases OrderedMap.get (shareOut i route i.fromPurchase i.fromStock) serial with
    | none => exact ih.cons _
    | some a => exact ih.cons_cons _

/-- What the plan hands a machine, in the order of the items. -/
theorem allocateByRoute_eq (hproducts : (items.map (·.product)).Nodup) {a : MachineAllocation}
    (ha : a ∈ allocateByRoute items route) :
    a.serial ∈ route ∧ a.byProduct = items.flatMap (shareAt (OrderedMap.keySet route) a.serial) := by
  unfold allocateByRoute at ha
  rw [foldl_allocateItem, List.map_map] at ha
  obtain ⟨serial, hserial, rfl⟩ := List.mem_map.mp ha
  have hnodup := hproducts.sublist (products_sharesAt (nodup_keySet route) serial items)
  simp only [Function.comp, serial_foldl_add, byProduct_foldl_add]
  exact ⟨mem_keySet.mp hserial, OrderedMap.foldl_set_eq_append (by simpa [OrderedMap.keys] using hnodup)⟩

theorem serials_allocateByRoute (items : List PurchaseItem) (route : List String) :
    (allocateByRoute items route).map (·.serial) = OrderedMap.keySet route := by
  unfold allocateByRoute
  rw [foldl_allocateItem, List.map_map, List.map_map]
  refine (List.map_congr_left fun serial _ => ?_).trans (List.map_id _)
  simp

/-- What a machine is handed of a product. -/
def share (a : MachineAllocation) (product : String) : ProductAllocation :=
  (OrderedMap.get a.byProduct product).getD ⟨0, 0, 0, 0⟩

theorem get_sharesAt (hroute : route.Nodup) (serial : String) (hproducts : (items.map (·.product)).Nodup)
    (hi : i ∈ items) : OrderedMap.get (items.flatMap (shareAt route serial)) i.product =
      OrderedMap.get (shareOut i route i.fromPurchase i.fromStock) serial := by
  have hnodup := hproducts.sublist (products_sharesAt hroute serial items)
  rcases h : OrderedMap.get (shareOut i route i.fromPurchase i.fromStock) serial with _ | a
  · rw [OrderedMap.get_eq_none_iff, OrderedMap.keys, List.mem_map]
    rintro ⟨e, he, heq⟩
    obtain ⟨j, hj, he⟩ := List.mem_flatMap.mp he
    rw [shareAt_eq hroute, Option.mem_toList, Option.map_eq_some_iff] at he
    obtain ⟨a, ha, rfl⟩ := he
    obtain rfl := List.inj_on_of_nodup_map hproducts hj hi heq
    rw [h] at ha
    cases ha
  · refine OrderedMap.get_of_mem hnodup (List.mem_flatMap.mpr ⟨i, hi, ?_⟩)
    rw [shareAt_eq hroute, h]
    exact List.mem_singleton_self _

theorem share_eq (hproducts : (items.map (·.product)).Nodup) {a : MachineAllocation}
    (ha : a ∈ allocateByRoute items route) (hi : i ∈ items) : share a i.product =
      (OrderedMap.get (shareOut i (OrderedMap.keySet route) i.fromPurchase i.fromStock) a.serial).getD ⟨0, 0, 0, 0⟩ := by
  rw [share, (allocateByRoute_eq hproducts ha).2, get_sharesAt (nodup_keySet route) _ hproducts hi]

/-- Without an item a machine is handed nothing. -/
theorem share_of_not_item (hproducts : (items.map (·.product)).Nodup) {a : MachineAllocation}
    (ha : a ∈ allocateByRoute items route) {product : String} (hnone : ∀ i ∈ items, i.product ≠ product) :
    share a product = ⟨0, 0, 0, 0⟩ := by
  have hget : OrderedMap.get (items.flatMap (shareAt (OrderedMap.keySet route) a.serial)) product = none := by
    rw [OrderedMap.get_eq_none_iff]
    intro hmem
    obtain ⟨i, hi, heq⟩ := List.mem_map.mp ((products_sharesAt (nodup_keySet route) _ _).subset hmem)
    exact hnone i hi heq
  rw [share, (allocateByRoute_eq hproducts ha).2, hget, Option.getD_none]

/-- The shares of the machines in an item add up to what `shareOut` gives. -/
theorem sum_share (hproducts : (items.map (·.product)).Nodup) (hi : i ∈ items) (f : ProductAllocation → ℚ)
    (hf : f ⟨0, 0, 0, 0⟩ = 0) : ((allocateByRoute items route).map fun a => f (share a i.product)).sum =
      ((shareOut i (OrderedMap.keySet route) i.fromPurchase i.fromStock).map fun e => f e.2).sum := by
  set shares := shareOut i (OrderedMap.keySet route) i.fromPurchase i.fromStock with hshares
  have hkeys : shares.map Prod.fst = lackingAt i (OrderedMap.keySet route) := (shareOut_eq i _ _ _).1
  have hnodup : (OrderedMap.keys shares).Nodup := by
    rw [OrderedMap.keys, hkeys]
    exact (nodup_keySet route).filter _
  have heach : ∀ serial, f ((OrderedMap.get shares serial).getD ⟨0, 0, 0, 0⟩) =
      ((shares.filter fun e => e.1 = serial).map fun e => f e.2).sum := by
    intro serial
    rw [OrderedMap.filter_key hnodup]
    cases OrderedMap.get shares serial <;> simp [hf]
  have hmap : (allocateByRoute items route).map (fun a => f (share a i.product)) =
      (OrderedMap.keySet route).map fun serial => ((shares.filter fun e => e.1 = serial).map fun e => f e.2).sum := by
    rw [← serials_allocateByRoute items route, List.map_map]
    refine List.map_congr_left fun a ha => ?_
    rw [share_eq hproducts ha hi]
    exact heach a.serial
  rw [hmap]
  refine sum_by_key (fun e : String × ProductAllocation => f e.2) (nodup_keySet route) fun e he => ?_
  have hmem : e.1 ∈ lackingAt i (OrderedMap.keySet route) := hkeys ▸ List.mem_map_of_mem he
  exact (List.mem_filter.mp hmem).1

/-- What the machines of a route lack of a product. -/
theorem sum_lackingAt (hneeds : ∀ serial ∈ route, 0 ≤ needAt i serial) :
    ((lackingAt i route).map (needAt i)).sum = (route.map (needAt i)).sum := by
  induction route with
  | nil => rfl
  | cons serial route ih =>
    obtain ⟨hhead, hrest⟩ := List.forall_mem_cons.mp hneeds
    unfold lackingAt at ih ⊢
    by_cases h : 0 < needAt i serial
    · rw [List.filter_cons_of_pos (by simpa using h), List.map_cons, List.map_cons, List.sum_cons, List.sum_cons, ih hrest]
    · rw [List.filter_cons_of_neg (by simpa using h), List.map_cons, List.sum_cons, ih hrest, le_antisymm (not_lt.mp h) hhead,
        zero_add]

theorem sums_shareOut {opts : PurchaseOptions} (hbalanced : i.Balanced opts) (hneeds : ∀ serial ∈ route, 0 ≤ needAt i serial)
    (htotal : (route.map (needAt i)).sum = i.need) :
    ((shareOut i route i.fromPurchase i.fromStock).map fun e => e.2.fromPurchase).sum = i.fromPurchase ∧
      ((shareOut i route i.fromPurchase i.fromStock).map fun e => e.2.fromStock).sum = i.fromStock ∧
      ((shareOut i route i.fromPurchase i.fromStock).map fun e => e.2.unfilled).sum = i.unfilled := by
  obtain ⟨hkeys, hserve, hmem⟩ := shareOut_eq i route i.fromPurchase i.fromStock
  set shares := shareOut i route i.fromPurchase i.fromStock
  have hpos : ∀ need ∈ (lackingAt i route).map (needAt i), 0 ≤ need := by
    intro need hneed
    obtain ⟨serial, hserial, rfl⟩ := List.mem_map.mp hneed
    exact hneeds serial (List.mem_filter.mp hserial).1
  have hneed := hbalanced.need
  have hunfilled := hbalanced.unfilled_nonneg
  obtain ⟨hfirst, hsecond⟩ := Supplies.sum_serve hpos hbalanced.fromPurchase_nonneg hbalanced.fromStock_nonneg
    (by rw [sum_lackingAt hneeds, htotal]; linarith)
  rw [← hserve, List.map_map] at hfirst hsecond
  have hall : (shares.map fun e => e.2.fromPurchase + e.2.fromStock + e.2.unfilled).sum =
      ((lackingAt i route).map (needAt i)).sum := by
    rw [← hkeys, List.map_map]
    refine congrArg List.sum (List.map_congr_left fun e he => ?_)
    obtain ⟨hat, hsum⟩ := hmem e he
    rw [hsum, hat, Function.comp]
  rw [List.sum_map_add, List.sum_map_add, sum_lackingAt hneeds, htotal] at hall
  have hfirst' : (shares.map fun e => e.2.fromPurchase).sum = i.fromPurchase := hfirst
  have hsecond' : (shares.map fun e => e.2.fromStock).sum = i.fromStock := hsecond
  exact ⟨hfirst, hsecond, by linarith⟩

end route

/-! The slots of one machine. -/

section slots
variable {slots : List Slot} {left : List (String × ℚ × ℚ)} {product : String}

/-- What one row plans for its slot. -/
structure SlotPlanRow.For (s : Slot) (r : SlotPlanRow) : Prop where
  coilId : r.coilId = s.coilId
  product : r.product = productName s
  need : r.need = slotDeficit s
  fromPurchase : 0 ≤ r.fromPurchase
  fromStock : 0 ≤ r.fromStock
  within : r.fromPurchase + r.fromStock ≤ slotDeficit s
  unfilled : r.fromPurchase + r.fromStock + r.unfilled = slotDeficit s

/-- What is left of a product. -/
def leftOf (left : List (String × ℚ × ℚ)) (product : String) : ℚ × ℚ := (OrderedMap.get left product).getD (0, 0)

def deficits (slots : List Slot) (product : String) : List ℚ :=
  ((slots.filter lacking).filter fun s => productName s = product).map fun s => (slotDeficit s : ℚ)

theorem leftOf_set (product other : String) (l : ℚ × ℚ) (left : List (String × ℚ × ℚ)) :
    leftOf (OrderedMap.set product l left) other = if product = other then l else leftOf left other := by
  unfold leftOf
  rw [OrderedMap.get_set]
  split_ifs <;> rfl

/-- A slot takes from what is left of its own product only. -/
theorem fillSlots_serve (slots : List Slot) (left : List (String × ℚ × ℚ)) (product : String) :
    ((fillSlots slots left).filter fun r => r.product = product).map (fun r => (r.fromPurchase, r.fromStock)) =
      Supplies.serve (deficits slots product) (leftOf left product).1 (leftOf left product).2 := by
  induction slots generalizing left with
  | nil => rfl
  | cons s slots ih =>
    unfold fillSlots deficits
    by_cases h : lacking s = true
    · rw [if_pos h, List.filter_cons_of_pos h]
      by_cases hproduct : productName s = product
      · rw [List.filter_cons_of_pos (by simpa using hproduct), List.filter_cons_of_pos (by simpa using hproduct),
          List.map_cons, List.map_cons, ih, leftOf_set, if_pos hproduct, hproduct]
        rfl
      · rw [List.filter_cons_of_neg (by simpa using hproduct), List.filter_cons_of_neg (by simpa using hproduct), ih,
          leftOf_set, if_neg hproduct]
        rfl
    · rw [if_neg h, List.filter_cons_of_neg h]
      exact ih left

theorem fillSlots_for (hleft : ∀ product, 0 ≤ (leftOf left product).1 ∧ 0 ≤ (leftOf left product).2) :
    List.Forall₂ SlotPlanRow.For (slots.filter lacking) (fillSlots slots left) := by
  induction slots generalizing left with
  | nil => exact List.Forall₂.nil
  | cons s slots ih =>
    unfold fillSlots
    by_cases h : lacking s = true
    · rw [if_pos h, List.filter_cons_of_pos h]
      have hneed : (0 : ℚ) ≤ slotDeficit s := by exact_mod_cast (lacking_pos h).le
      obtain ⟨hp, hs⟩ := hleft (productName s)
      have hfits := Supplies.fits_portion hneed hp hs
      refine List.Forall₂.cons ⟨rfl, rfl, rfl, hfits.first, hfits.second, hfits.within, ?_⟩ (ih fun product => ?_)
      · dsimp only
        ring
      · rw [leftOf_set]
        split_ifs
        · exact Supplies.rest_nonneg _ _ _
        · exact hleft product
    · rw [if_neg h, List.filter_cons_of_neg h]
      exact ih hleft

theorem orderedSlots_perm (host : Js.Host) (slots : List Slot) : (orderedSlots host slots).Perm slots :=
  List.perm_insertionSort _ _

theorem sum_deficits_ordered (host : Js.Host) (slots : List Slot) (product : String) :
    (deficits (orderedSlots host slots) product).sum = (deficits slots product).sum :=
  ((((orderedSlots_perm host slots).filter _).filter _).map _).sum_eq

theorem deficits_nonneg (slots : List Slot) (product : String) : ∀ need ∈ deficits slots product, 0 ≤ need := by
  intro need hneed
  obtain ⟨s, hs, rfl⟩ := List.mem_map.mp hneed
  exact_mod_cast (lacking_pos (List.mem_filter.mp (List.mem_filter.mp hs).1).2).le

/-- The machine has enough slots for what it is handed. -/
structure Handed (a : MachineAllocation) (slots : List Slot) (product : String) : Prop where
  fromPurchase : 0 ≤ (share a product).fromPurchase
  fromStock : 0 ≤ (share a product).fromStock
  all : (share a product).fromPurchase + (share a product).fromStock + (share a product).unfilled = (deficits slots product).sum
  unfilled : 0 ≤ (share a product).unfilled

theorem leftOf_share (a : MachineAllocation) (product : String) :
    leftOf (OrderedMap.mapValues (fun a => (a.fromPurchase, a.fromStock)) a.byProduct) product =
      ((share a product).fromPurchase, (share a product).fromStock) := by
  rw [leftOf, share, OrderedMap.get_mapValues]
  cases OrderedMap.get a.byProduct product <;> rfl

/-- The rows of a product. -/
def rowsOf (rows : List SlotPlanRow) (product : String) : List SlotPlanRow := rows.filter fun r => r.product = product

theorem sums_of_for {slots : List Slot} {rows : List SlotPlanRow} (h : List.Forall₂ SlotPlanRow.For slots rows)
    (product : String) :
    ((rowsOf rows product).map fun r => r.fromPurchase + r.fromStock + r.unfilled).sum =
      ((slots.filter fun s => productName s = product).map fun s => (slotDeficit s : ℚ)).sum := by
  induction h with
  | nil => rfl
  | @cons s r slots rows hfor _ ih =>
    unfold rowsOf at ih ⊢
    by_cases hproduct : productName s = product
    · rw [List.filter_cons_of_pos (by simpa [hfor.product] using hproduct), List.filter_cons_of_pos (by simpa using hproduct),
        List.map_cons, List.map_cons, List.sum_cons, List.sum_cons, ih, hfor.unfilled]
    · rw [List.filter_cons_of_neg (by simpa [hfor.product] using hproduct), List.filter_cons_of_neg (by simpa using hproduct), ih]

theorem sums_allocateBySlots (host : Js.Host) {a : MachineAllocation} (h : ∀ product, Handed a slots product)
    (product : String) :
    ((rowsOf (allocateBySlots host slots a) product).map (·.fromPurchase)).sum = (share a product).fromPurchase ∧
      ((rowsOf (allocateBySlots host slots a) product).map (·.fromStock)).sum = (share a product).fromStock ∧
      ((rowsOf (allocateBySlots host slots a) product).map (·.unfilled)).sum = (share a product).unfilled := by
  have hserve := fillSlots_serve (orderedSlots host slots)
    (OrderedMap.mapValues (fun a => (a.fromPurchase, a.fromStock)) a.byProduct) product
  have hfor : List.Forall₂ SlotPlanRow.For ((orderedSlots host slots).filter lacking) (allocateBySlots host slots a) := by
    refine fillSlots_for fun product => ?_
    rw [leftOf_share]
    exact ⟨(h product).fromPurchase, (h product).fromStock⟩
  have hall := sums_of_for hfor product
  have hsum : ((((orderedSlots host slots).filter lacking).filter fun s => productName s = product).map fun s =>
      (slotDeficit s : ℚ)).sum = (deficits slots product).sum := sum_deficits_ordered host slots product
  rw [leftOf_share] at hserve
  obtain ⟨hp, hs, hsplit, hopen⟩ := h product
  obtain ⟨hfirst, hsecond⟩ := Supplies.sum_serve (deficits_nonneg (orderedSlots host slots) product) hp hs
    (by rw [sum_deficits_ordered, ← hsplit]; linarith)
  rw [← hserve, List.map_map] at hfirst hsecond
  have hfirst' : ((rowsOf (allocateBySlots host slots a) product).map (·.fromPurchase)).sum = _ := hfirst
  have hsecond' : ((rowsOf (allocateBySlots host slots a) product).map (·.fromStock)).sum = _ := hsecond
  rw [List.sum_map_add, List.sum_map_add, hsum, hfirst', hsecond', ← hsplit] at hall
  exact ⟨hfirst', hsecond', by linarith⟩

end slots

/-! The whole plan. -/

section plan
variable {machines : List MachineSlots} {product : String}

theorem lackingOf_machine (hserials : (machines.map (·.machineId)).Nodup) (serial product : String) :
    (lackingOf machines product).filter (fun e => e.1 = serial) =
      (((slotsOf machines serial).filter lacking).filter fun s => productName s = product).map fun s => (serial, s) := by
  induction machines with
  | nil => rfl
  | cons m machines ih =>
    obtain ⟨hnot, hrest⟩ := List.nodup_cons.mp hserials
    have hcons : (lackingOf (m :: machines) product).filter (fun e => e.1 = serial) =
        ((((m.slots.filter lacking).filter fun s => productName s = product).map fun s => (m.machineId, s)).filter
          fun e => e.1 = serial) ++ (lackingOf machines product).filter fun e => e.1 = serial := by
      simp only [lackingOf, lackingSlots, List.flatMap_cons, List.filter_append, List.filter_map]
      rfl
    rw [hcons]
    by_cases h : m.machineId = serial
    · have hnone : (lackingOf machines product).filter (fun e => e.1 = serial) = [] := by
        rw [List.filter_eq_nil_iff]
        intro e he heq
        obtain ⟨m', hm', he'⟩ := List.mem_flatMap.mp (List.mem_filter.mp he).1
        obtain ⟨s, -, rfl⟩ := List.mem_map.mp he'
        exact hnot (List.mem_map.mpr ⟨m', hm', (of_decide_eq_true heq).trans h.symm⟩)
      have hslots : slotsOf (m :: machines) serial = m.slots := by simp [slotsOf, h]
      rw [hnone, List.append_nil, hslots, h]
      refine List.filter_eq_self.mpr fun e he => ?_
      obtain ⟨s, -, rfl⟩ := List.mem_map.mp he
      exact decide_eq_true rfl
    · have hslots : slotsOf (m :: machines) serial = slotsOf machines serial := by simp [slotsOf, h]
      have hnone : ((((m.slots.filter lacking).filter fun s => productName s = product).map fun s => (m.machineId, s)).filter
          fun e => e.1 = serial) = [] := by
        rw [List.filter_eq_nil_iff]
        intro e he heq
        obtain ⟨s, -, rfl⟩ := List.mem_map.mp he
        exact h (of_decide_eq_true heq)
      rw [hnone, List.nil_append, hslots]
      exact ih hrest

/-- What a machine lacks of a product, by its slots. -/
theorem lack_of_machine (hserials : (machines.map (·.machineId)).Nodup) (serial product : String) :
    lack ((lackingOf machines product).filter fun e => e.1 = serial) = (deficits (slotsOf machines serial) product).sum := by
  rw [lackingOf_machine hserials, lack, deficits, List.map_map]
  rfl

variable {stock sold7 : List (String × ℚ)} {prices : List (String × PriceEntry)} {opts : PurchaseOptions}
  {i : PurchaseItem} {route : List String}

/-- The items over the needs of the machines. -/
def itemsOf (machines : List MachineSlots) (stock sold7 : List (String × ℚ)) (prices : List (String × PriceEntry))
    (opts : PurchaseOptions) : List PurchaseItem :=
  allItems (computePurchase (purchaseRows (needByProduct machines) stock sold7) prices opts)

theorem stock_nonneg (hstock : ∀ e ∈ stock, 0 ≤ e.2) :
    ∀ row ∈ purchaseRows (needByProduct machines) stock sold7, 0 ≤ row.stock := by
  intro row hrow
  obtain ⟨n, -, rfl⟩ := List.mem_map.mp hrow
  rcases h : OrderedMap.get stock n.product with _ | qty
  · exact le_rfl
  · exact hstock _ (OrderedMap.mem_of_get h)

theorem nodup_itemsOf : ((itemsOf machines stock sold7 prices opts).map (·.product)).Nodup := by
  refine nodup_allItems ?_
  rw [purchaseRows, List.map_map]
  exact nodup_needByProduct machines

/-- An item needs what the slots of its product lack, at every machine. -/
theorem needs_of_item (hserials : (machines.map (·.machineId)).Nodup) (hi : i ∈ itemsOf machines stock sold7 prices opts) :
    i.need = lack (lackingOf machines i.product) ∧
      ∀ serial, needAt i serial = (deficits (slotsOf machines serial) i.product).sum := by
  obtain ⟨row, hrow, hitem⟩ := mem_allItems.mp hi
  obtain ⟨n, hn, rfl⟩ := List.mem_map.mp hrow
  obtain ⟨-, hneed, -⟩ := purchaseItem_eq_some hitem
  obtain ⟨hproduct, hper⟩ := product_of_purchaseItem hitem
  obtain ⟨htotal, hget⟩ := of_mem_needByProduct hn
  rw [hproduct]
  refine ⟨hneed.trans htotal, fun serial => ?_⟩
  rw [needAt, hper, hget serial, ← lack_of_machine hserials]
  split_ifs with hmem
  · rfl
  · have hnone : (lackingOf machines n.product).filter (fun e => e.1 = serial) = [] := by
      rw [List.filter_eq_nil_iff]
      intro e he heq
      exact hmem (List.mem_map.mpr ⟨e, he, of_decide_eq_true heq⟩)
    rw [hnone]
    rfl

/-- What slots lack has an item. -/
theorem exists_item (e : String × Slot) (he : e ∈ lackingSlots machines) :
    ∃ i ∈ itemsOf machines stock sold7 prices opts, i.product = productName e.2 := by
  have hmem : productName e.2 ∈ (needByProduct machines).map (·.product) := by
    rw [products_needByProduct, mem_keySet]
    exact List.mem_map_of_mem he
  obtain ⟨n, hn, hproduct⟩ := List.mem_map.mp hmem
  have hpos : 0 < n.total := by
    rw [(of_mem_needByProduct hn).1, hproduct]
    have hin : e ∈ lackingOf machines (productName e.2) := List.mem_filter.mpr ⟨he, decide_eq_true rfl⟩
    have hall : ∀ q ∈ (lackingOf machines (productName e.2)).map (fun e => (slotDeficit e.2 : ℚ)), 0 < q := by
      intro q hq
      obtain ⟨e', he', rfl⟩ := List.mem_map.mp hq
      obtain ⟨m, -, hm⟩ := List.mem_flatMap.mp (List.mem_filter.mp he').1
      obtain ⟨s, hs, rfl⟩ := List.mem_map.mp hm
      exact_mod_cast lacking_pos (List.mem_filter.mp hs).2
    exact List.sum_pos _ hall (List.ne_nil_of_mem (List.mem_map_of_mem hin))
  have hrow : ⟨n.product, n.perMachine, some n.total, (OrderedMap.get stock n.product).getD 0,
      (OrderedMap.get sold7 n.product).getD 0⟩ ∈ purchaseRows (needByProduct machines) stock sold7 := List.mem_map.mpr ⟨n, hn, rfl⟩
  obtain ⟨i, hitem⟩ : ∃ i, purchaseItem prices opts ⟨n.product, n.perMachine, some n.total,
      (OrderedMap.get stock n.product).getD 0, (OrderedMap.get sold7 n.product).getD 0⟩ = some i := by
    unfold purchaseItem
    exact ⟨_, if_neg (not_le.mpr hpos)⟩
  exact ⟨i, mem_allItems.mpr ⟨_, hrow, hitem⟩, (product_of_purchaseItem hitem).1.trans hproduct⟩

/-- A plan loses nothing and makes nothing up, at any of its levels. -/
structure Conserves (host : Js.Host) (opts : PurchaseOptions) (machines : List MachineSlots) (items : List PurchaseItem)
    (plan : List MachineAllocation) : Prop where
  balanced : ∀ i ∈ items, i.Balanced opts
  reached : ∀ m ∈ machines, ∃ a ∈ plan, a.serial = m.machineId
  shares : ∀ i ∈ items, (plan.map fun a => (share a i.product).fromPurchase).sum = i.fromPurchase ∧
    (plan.map fun a => (share a i.product).fromStock).sum = i.fromStock ∧
    (plan.map fun a => (share a i.product).unfilled).sum = i.unfilled
  rows : ∀ a ∈ plan, ∀ product,
    ((rowsOf (allocateBySlots host (slotsOf machines a.serial) a) product).map (·.fromPurchase)).sum =
        (share a product).fromPurchase ∧
      ((rowsOf (allocateBySlots host (slotsOf machines a.serial) a) product).map (·.fromStock)).sum =
        (share a product).fromStock ∧
      ((rowsOf (allocateBySlots host (slotsOf machines a.serial) a) product).map (·.unfilled)).sum =
        (share a product).unfilled
  slots : ∀ a ∈ plan, List.Forall₂ SlotPlanRow.For ((orderedSlots host (slotsOf machines a.serial)).filter lacking)
    (allocateBySlots host (slotsOf machines a.serial) a)

/-- Every machine is handed what its slots can take. -/
theorem handed (hserials : (machines.map (·.machineId)).Nodup) (hstock : ∀ e ∈ stock, 0 ≤ e.2) {a : MachineAllocation}
    (ha : a ∈ allocateByRoute (itemsOf machines stock sold7 prices opts) route) (product : String) :
    Handed a (slotsOf machines a.serial) product := by
  have hnodup := @nodup_itemsOf machines stock sold7 prices opts
  by_cases hitem : ∃ i ∈ itemsOf machines stock sold7 prices opts, i.product = product
  · obtain ⟨i, hi, rfl⟩ := hitem
    obtain ⟨row, hrow, hrowItem⟩ := mem_allItems.mp hi
    have hbalanced := balanced_of_purchaseItem hrowItem (stock_nonneg hstock row hrow)
    have hneeds := (needs_of_item hserials hi).2 a.serial
    have hshare := share_eq hnodup ha hi
    obtain ⟨hkeys, -, hmem⟩ := shareOut_eq i (OrderedMap.keySet route) i.fromPurchase i.fromStock
    rcases h : OrderedMap.get (shareOut i (OrderedMap.keySet route) i.fromPurchase i.fromStock) a.serial with _ | e
    · rw [h, Option.getD_none] at hshare
      have hzero : (deficits (slotsOf machines a.serial) i.product).sum = 0 := by
        refine le_antisymm (not_lt.mp fun hpos => ?_) (List.sum_nonneg (deficits_nonneg _ _))
        rw [← hneeds] at hpos
        have hin : a.serial ∈ lackingAt i (OrderedMap.keySet route) :=
          List.mem_filter.mpr ⟨mem_keySet.mpr (allocateByRoute_eq hnodup ha).1, decide_eq_true hpos⟩
        rw [OrderedMap.get_eq_none_iff, OrderedMap.keys, hkeys] at h
        exact h hin
      constructor <;> simp [hshare, hzero]
    · rw [h, Option.getD_some] at hshare
      have he := OrderedMap.mem_of_get h
      obtain ⟨hp, hs, hu⟩ := shareOut_fits hbalanced.fromPurchase_nonneg hbalanced.fromStock_nonneg _ he
      obtain ⟨hat, hsum⟩ := hmem _ he
      constructor
      case all => rw [hshare, hsum, hat, hneeds]
      all_goals rwa [hshare]
  · have hshare := share_of_not_item hnodup ha fun i hi heq => hitem ⟨i, hi, heq⟩
    have hzero : deficits (slotsOf machines a.serial) product = [] := by
      rw [deficits, List.map_eq_nil_iff, List.eq_nil_iff_forall_not_mem]
      intro s hs
      have hin : (a.serial, s) ∈ (lackingOf machines product).filter fun e => e.1 = a.serial := by
        rw [lackingOf_machine hserials]
        exact List.mem_map.mpr ⟨s, hs, rfl⟩
      obtain ⟨hin, hproduct⟩ := List.mem_filter.mp (List.mem_filter.mp hin).1
      obtain ⟨i, hi, heq⟩ := @exists_item machines stock sold7 prices opts _ hin
      exact hitem ⟨i, hi, heq.trans (of_decide_eq_true hproduct)⟩
    constructor <;> simp [hshare, hzero]

/-- From the slots to the purchase, along the route and back to the slots, no piece is lost or made up, and
the policy changes neither what stays unfilled nor what the stock is left with. -/
theorem plan_conserves (host : Js.Host) (sold7 : List (String × ℚ)) (prices : List (String × PriceEntry))
    (opts : PurchaseOptions) (hserials : (machines.map (·.machineId)).Nodup) (hstock : ∀ e ∈ stock, 0 ≤ e.2)
    (hroute : ∀ m ∈ machines, m.machineId ∈ route) :
    Conserves host opts machines (itemsOf machines stock sold7 prices opts)
        (allocateByRoute (itemsOf machines stock sold7 prices opts) route) ∧
      ∀ allocation, (itemsOf machines stock sold7 prices { opts with allocation }).map (·.outcome) =
        (itemsOf machines stock sold7 prices opts).map (·.outcome) := by
  have hnodup := @nodup_itemsOf machines stock sold7 prices opts
  have hbalanced : ∀ i ∈ itemsOf machines stock sold7 prices opts, i.Balanced opts := by
    intro i hi
    obtain ⟨row, hrow, hitem⟩ := mem_allItems.mp hi
    exact balanced_of_purchaseItem hitem (stock_nonneg hstock row hrow)
  refine ⟨⟨hbalanced, fun m hm => ?_, fun i hi => ?_, fun a ha => ?_, fun a ha => ?_⟩, fun allocation => ?_⟩
  · have hin : m.machineId ∈ (allocateByRoute (itemsOf machines stock sold7 prices opts) route).map (·.serial) := by
      rw [serials_allocateByRoute]
      exact mem_keySet.mpr (hroute m hm)
    obtain ⟨a, ha, heq⟩ := List.mem_map.mp hin
    exact ⟨a, ha, heq⟩
  · obtain ⟨hneed, hneeds⟩ := needs_of_item hserials hi
    have hnonneg : ∀ serial ∈ OrderedMap.keySet route, 0 ≤ needAt i serial := by
      intro serial _
      rw [hneeds serial]
      exact List.sum_nonneg (deficits_nonneg _ _)
    have htotal : ((OrderedMap.keySet route).map (needAt i)).sum = i.need := by
      rw [hneed, List.map_congr_left fun serial _ => (hneeds serial).trans (lack_of_machine hserials serial i.product).symm]
      refine sum_by_key (fun e : String × Slot => (slotDeficit e.2 : ℚ)) (nodup_keySet route) fun e he => ?_
      obtain ⟨m, hm, he⟩ := List.mem_flatMap.mp (List.mem_filter.mp he).1
      obtain ⟨s, -, rfl⟩ := List.mem_map.mp he
      exact mem_keySet.mpr (hroute m hm)
    rw [sum_share hnodup hi (·.fromPurchase) rfl, sum_share hnodup hi (·.fromStock) rfl, sum_share hnodup hi (·.unfilled) rfl]
    exact sums_shareOut (hbalanced i hi) hnonneg htotal
  · exact sums_allocateBySlots host (handed hserials hstock ha)
  · refine fillSlots_for fun product => ?_
    rw [leftOf_share]
    exact ⟨(handed hserials hstock ha product).fromPurchase, (handed hserials hstock ha product).fromStock⟩
  · exact outcomes_policy (stock_nonneg hstock) allocation

def coilHost : Js.Host where
  toLowerCase s := s
  number s := s.toInt?.map fun n => (n : ℚ)
  numberText _ := ""
  toFixed12 _ := ""
  localeCompare a b := if a = b then 0 else if a < b then -1 else 1
  sha256 _ := ""

/-- Two machines lack six and eight bottles, three lie in the stock, and a pack holds six. -/
def twoMachines : List MachineSlots :=
  [⟨"A", [⟨"1", some "Cola", 10, 4⟩, ⟨"2", some "Cola", 5, 5⟩]⟩, ⟨"B", [⟨"7", some "Cola", 8, 0⟩]⟩]

theorem plan_conserves_twoMachines :
    (itemsOf twoMachines [("Cola", 3)] [("Cola", 5)] [("Cola", ⟨100, 6⟩)] {}).map
        (fun i => (i.need, i.fromPurchase, i.fromStock, i.stockAfter)) = [(14, 12, 2, 1)] ∧
      Conserves coilHost {} twoMachines (itemsOf twoMachines [("Cola", 3)] [("Cola", 5)] [("Cola", ⟨100, 6⟩)] {})
        (allocateByRoute (itemsOf twoMachines [("Cola", 3)] [("Cola", 5)] [("Cola", ⟨100, 6⟩)] {}) ["B", "A"]) :=
  ⟨by decide +kernel, (plan_conserves coilHost _ _ _ (by decide) (by decide +kernel) (by decide)).1⟩

end plan

end Mydon.Vending
