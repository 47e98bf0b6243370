import Mathlib.Algebra.BigOperators.Ring.List
import Mydon.Lib.Tally
import Mydon.Stock.Ledger

/-! What sales consume of the ingredients, and what a recipe costs: two reports over the same lines, written
apart. A missing number is no zero: it is added as nothing. -/

namespace Mydon.Stock

open Mydon.Lib

structure RecipeLine where
  ingredientId : String
  quantity : ℚ
  unit : QtyUnit
  deriving DecidableEq

structure IngredientPrice where
  price : Option ℚ
  unit : Option QtyUnit

/-! `recipeCost`. -/

structure LineCost where
  line : RecipeLine
  cost : Option ℚ
  why : Option String

structure RecipeCost where
  lines : List LineCost
  total : ℚ
  unresolved : ℕ

def lineCost (priceOf : String → IngredientPrice) (line : RecipeLine) : LineCost :=
  match (priceOf line.ingredientId).price, (priceOf line.ingredientId).unit with
  | some price, some unit =>
    match convertQty line.quantity line.unit unit with
    | none => ⟨line, none, some s!"«{line.unit.text}» не перевести в «{unit.text}» — разные размерности"⟩
    | some converted => ⟨line, some (price * converted), none⟩
  | _, _ => ⟨line, none, some "у ингредиента не заведена цена покупки"⟩

def addLineCost (acc : RecipeCost) (l : LineCost) : RecipeCost :=
  match l.cost with
  | none => ⟨acc.lines ++ [l], acc.total, acc.unresolved + 1⟩
  | some cost => ⟨acc.lines ++ [l], acc.total + cost, acc.unresolved⟩

def recipeCost (lines : List RecipeLine) (priceOf : String → IngredientPrice) : RecipeCost :=
  lines.foldl (fun acc line => addLineCost acc (lineCost priceOf line)) ⟨[], 0, 0⟩

/-! `consumptionReport`. -/

structure SoldProduct where
  productId : String
  qty : ℚ

/-- `Acc`; the set of products in the order they were added. -/
structure ConsumptionAcc where
  consumed : ℚ := 0
  unit : Option QtyUnit := none
  cost : ℚ := 0
  unconvertible : ℕ := 0
  products : List String := []
  hasConsumed : Bool := false
  hasCost : Bool := false

structure IngredientConsumption where
  ingredientId : String
  consumed : Option ℚ
  unit : Option QtyUnit
  cost : Option ℚ
  unconvertible : ℕ
  fromProducts : ℕ

structure ConsumptionReport where
  ingredients : List IngredientConsumption
  totalCost : ℚ
  unresolved : ℕ

section
variable (recipeOf : String → List RecipeLine) (priceOf : String → IngredientPrice)

/-- The amount of a line for a sale, in the unit of the ingredient. -/
def amountOf (s : SoldProduct) (line : RecipeLine) : Option ℚ :=
  (priceOf line.ingredientId).unit.bind (convertQty (s.qty * line.quantity) line.unit)

def addConsumption (e : ConsumptionAcc) (p : SoldProduct × RecipeLine) : ConsumptionAcc :=
  let e := { e with products := if p.1.productId ∈ e.products then e.products else e.products ++ [p.1.productId] }
  match amountOf priceOf p.1 p.2 with
  | none => { e with unconvertible := e.unconvertible + 1 }
  | some converted =>
    let e := { e with
      unit := (priceOf p.2.ingredientId).unit
      consumed := e.consumed + converted
      hasConsumed := true }
    match (priceOf p.2.ingredientId).price with
    | some price => { e with cost := e.cost + price * converted, hasCost := true }
    | none => e

/-- The cost of a line for a sale, where it has a unit, a conversion and a price. -/
def costOf (p : SoldProduct × RecipeLine) : Option ℚ :=
  (amountOf priceOf p.1 p.2).bind fun converted => (priceOf p.2.ingredientId).price.map (· * converted)

/-- The body of both loops; a line without a unit, a conversion or a price is not resolved. -/
def visitLine (st : List (String × ConsumptionAcc) × ℕ) (p : SoldProduct × RecipeLine) :
    List (String × ConsumptionAcc) × ℕ :=
  (OrderedMap.alter (fun own => addConsumption priceOf (own.getD {}) p) p.2.ingredientId st.1,
    if (costOf priceOf p).isNone then st.2 + 1 else st.2)

def visitSale (st : List (String × ConsumptionAcc) × ℕ) (s : SoldProduct) : List (String × ConsumptionAcc) × ℕ :=
  if 0 < s.qty then (recipeOf s.productId).foldl (fun st line => visitLine priceOf st (s, line)) st else st

def reportRow (e : String × ConsumptionAcc) : IngredientConsumption where
  ingredientId := e.1
  consumed := if e.2.hasConsumed then some e.2.consumed else none
  unit := e.2.unit
  cost := if e.2.hasCost then some e.2.cost else none
  unconvertible := e.2.unconvertible
  fromProducts := e.2.products.length

def consumptionReport (sold : List SoldProduct) : ConsumptionReport :=
  let st := sold.foldl (visitSale recipeOf priceOf) ([], 0)
  { ingredients := st.1.map reportRow
    totalCost := (st.1.map fun e => if e.2.hasCost then e.2.cost else 0).sum
    unresolved := st.2 }

/-- The lines of the recipes of all positive sales. -/
def saleLines (sold : List SoldProduct) : List (SoldProduct × RecipeLine) :=
  (sold.filter (0 < ·.qty)).flatMap fun s => (recipeOf s.productId).map (s, ·)

/-! Sums in which a missing number counts for nothing. -/

end

def addNull : Option ℚ → Option ℚ → Option ℚ
  | none, b => b
  | a, none => a
  | some a, some b => some (a + b)

def sumNull : List (Option ℚ) → Option ℚ
  | [] => none
  | x :: xs => addNull x (sumNull xs)

theorem addNull_none (a : Option ℚ) : addNull a none = a := by cases a <;> rfl

theorem sumNull_append (xs ys : List (Option ℚ)) : sumNull (xs ++ ys) = addNull (sumNull xs) (sumNull ys) := by
  have hassoc : ∀ a b c : Option ℚ, addNull (addNull a b) c = addNull a (addNull b c) := by
    intro a b c
    rcases a with _ | a <;> rcases b with _ | b <;> rcases c with _ | c <;> simp [addNull, add_assoc]
  induction xs with
  | nil => rfl
  | cons x xs ih => rw [List.cons_append, sumNull, ih, sumNull, hassoc]

theorem getD_sumNull (xs : List (Option ℚ)) : (sumNull xs).getD 0 = (xs.map (·.getD 0)).sum := by
  induction xs with
  | nil => rfl
  | cons x xs ih =>
    rw [List.map_cons, List.sum_cons, ← ih, sumNull]
    rcases x with _ | x <;> rcases sumNull xs with _ | y <;> simp [addNull]

section
variable {recipeOf : String → List RecipeLine} {priceOf : String → IngredientPrice}

/-- An entry after the lines of its ingredient. -/
structure OwnRow (priceOf : String → IngredientPrice) (own : List (SoldProduct × RecipeLine)) (e : ConsumptionAcc) :
    Prop where
  consumed : (if e.hasConsumed then some e.consumed else none) = sumNull (own.map fun p => amountOf priceOf p.1 p.2)
  cost : (if e.hasCost then some e.cost else none) = sumNull (own.map (costOf priceOf))
  idle : (e.hasConsumed = false → e.consumed = 0) ∧ (e.hasCost = false → e.cost = 0)
  unit : (e.unit = none → e.hasConsumed = false) ∧
    ∀ unit, e.unit = some unit → ∃ p ∈ own, (priceOf p.2.ingredientId).unit = some unit

variable {own : List (SoldProduct × RecipeLine)} {p : SoldProduct × RecipeLine}

theorem OwnRow.snoc {e : ConsumptionAcc} (h : OwnRow priceOf own e) : OwnRow priceOf (own ++ [p]) (addConsumption priceOf e p) := by
  have hold : ∀ unit, e.unit = some unit → ∃ q ∈ own ++ [p], (priceOf q.2.ingredientId).unit = some unit :=
    fun unit hunit => (h.unit.2 unit hunit).imp fun q hq => ⟨List.mem_append_left _ hq.1, hq.2⟩
  have hone : ∀ x : Option ℚ, sumNull [x] = x := addNull_none
  obtain ⟨hconsumed, hcost, ⟨hidle, hfree⟩, hunit, -⟩ := h
  rcases hamount : amountOf priceOf p.1 p.2 with _ | converted
  · have hnone : costOf priceOf p = none := by rw [costOf, hamount]; rfl
    refine ⟨?_, ?_, ?_, ?_⟩ <;> simp only [addConsumption, hamount, List.map_append, List.map_singleton, sumNull_append,
      hone, hnone, addNull_none]
    exacts [hconsumed, hcost, ⟨hidle, hfree⟩, ⟨hunit, hold⟩]
  · obtain ⟨unit, hunit, -⟩ := Option.bind_eq_some_iff.mp hamount
    have hset : ((priceOf p.2.ingredientId).unit = none → true = false) ∧
        ∀ unit, (priceOf p.2.ingredientId).unit = some unit →
          ∃ q ∈ own ++ [p], (priceOf q.2.ingredientId).unit = some unit := by
      refine ⟨fun hnone => (nomatch hunit.symm.trans hnone), fun unit hunit => ⟨p, ?_, hunit⟩⟩
      exact List.mem_append_right _ List.mem_cons_self
    have hadd : addNull (sumNull (own.map fun p => amountOf priceOf p.1 p.2)) (some converted) =
        some (e.consumed + converted) := by
      rw [← hconsumed]
      rcases hhas : e.hasConsumed with _ | _
      · simp [addNull, hidle hhas]
      · rfl
    rcases hprice : (priceOf p.2.ingredientId).price with _ | price
    · have hnone : costOf priceOf p = none := by rw [costOf, hamount, hprice]; rfl
      refine ⟨?_, ?_, ?_, ?_⟩ <;> simp only [addConsumption, hamount, hprice, List.map_append, List.map_singleton,
        sumNull_append, hone, hnone, addNull_none, hadd]
      exacts [rfl, hcost, ⟨fun h => (nomatch h), hfree⟩, hset]
    · have hsome : costOf priceOf p = some (price * converted) := by rw [costOf, hamount, hprice]; rfl
      have hpaid : addNull (sumNull (own.map (costOf priceOf))) (some (price * converted)) =
          some (e.cost + price * converted) := by
        rw [← hcost]
        rcases hhas : e.hasCost with _ | _
        · simp [addNull, hfree hhas]
        · rfl
      refine ⟨?_, ?_, ?_, ?_⟩ <;> simp only [addConsumption, hamount, hprice, List.map_append, List.map_singleton,
        sumNull_append, hone, hsome, hadd, hpaid]
      exacts [rfl, rfl, ⟨fun h => (nomatch h), fun h => (nomatch h)⟩, hset]

theorem ownRow_foldl (priceOf : String → IngredientPrice) (own : List (SoldProduct × RecipeLine)) :
    OwnRow priceOf own (own.foldl (addConsumption priceOf) {}) := by
  induction own using List.reverseRecOn with
  | nil => exact ⟨rfl, rfl, ⟨fun _ => rfl, fun _ => rfl⟩, fun _ => rfl, fun _ h => nomatch h⟩
  | append_singleton own p ih => rw [List.foldl_concat]; exact ih.snoc

theorem foldl_visitSale (sold : List SoldProduct) : sold.foldl (visitSale recipeOf priceOf) ([], 0) =
    (tally (fun p => p.2.ingredientId) (fun _ => {}) (addConsumption priceOf) (saleLines recipeOf sold),
      (saleLines recipeOf sold).countP fun p => (costOf priceOf p).isNone) := by
  have hlines : ∀ (lines : List (SoldProduct × RecipeLine)) st, lines.foldl (visitLine priceOf) st =
      (lines.foldl (fun m p =>
          OrderedMap.alter (fun own => addConsumption priceOf (own.getD {}) p) p.2.ingredientId m) st.1,
        st.2 + lines.countP fun p => (costOf priceOf p).isNone) := by
    intro lines
    induction lines with
    | nil => exact fun _ => rfl
    | cons p lines ih =>
      intro st
      rw [List.foldl_cons, ih, List.countP_cons, List.foldl_cons]
      unfold visitLine
      split_ifs <;> simp only [Prod.mk.injEq, true_and] <;> omega
  have hsales : ∀ st, sold.foldl (visitSale recipeOf priceOf) st =
      (saleLines recipeOf sold).foldl (visitLine priceOf) st := by
    induction sold with
    | nil => exact fun _ => rfl
    | cons s sold ih =>
      intro st
      rw [List.foldl_cons, ih, visitSale]
      split_ifs with hqty
      · simp only [saleLines, List.filter_cons, decide_eq_true hqty, if_true, List.flatMap_cons, List.foldl_append,
          List.foldl_map]
      · simp only [saleLines, List.filter_cons, decide_eq_false hqty, Bool.false_eq_true, if_false]
  rw [hsales, hlines, Nat.zero_add]
  rfl

/-- The lines of one ingredient. -/
def ownLines (recipeOf : String → List RecipeLine) (sold : List SoldProduct) (id : String) :
    List (SoldProduct × RecipeLine) :=
  (saleLines recipeOf sold).filter (·.2.ingredientId = id)

theorem ingredients_eq (sold : List SoldProduct) : (consumptionReport recipeOf priceOf sold).ingredients =
    (OrderedMap.keySet ((saleLines recipeOf sold).map (·.2.ingredientId))).map fun id =>
      reportRow (id, (ownLines recipeOf sold id).foldl (addConsumption priceOf) {}) := by
  rw [consumptionReport, foldl_visitSale, tally_eq, List.map_map]
  rfl

/-- What the report says of one ingredient. -/
def ConsumptionReport.amounts (report : ConsumptionReport) (id : String) : Option ℚ × Option ℚ :=
  match report.ingredients.find? (·.ingredientId = id) with
  | some row => (row.consumed, row.cost)
  | none => (none, none)

theorem amounts_eq (sold : List SoldProduct) (id : String) : (consumptionReport recipeOf priceOf sold).amounts id =
    (sumNull ((ownLines recipeOf sold id).map fun p => amountOf priceOf p.1 p.2),
      sumNull ((ownLines recipeOf sold id).map (costOf priceOf))) := by
  have hfind : ∀ (ids : List String) (f : String → ConsumptionAcc), (ids.map fun k => reportRow (k, f k)).find?
      (·.ingredientId = id) = if id ∈ ids then some (reportRow (id, f id)) else none := by
    intro ids f
    induction ids with
    | nil => rfl
    | cons k ids ih =>
      rw [List.map_cons, List.find?_cons, ih]
      by_cases hk : k = id
      · subst hk; simp [reportRow]
      · simp [reportRow, hk, Ne.symm hk]
  rw [ConsumptionReport.amounts, ingredients_eq, hfind]
  split_ifs with hmem
  · have hrow := ownRow_foldl priceOf (ownLines recipeOf sold id)
    exact Prod.ext hrow.consumed hrow.cost
  · have hnil : ownLines recipeOf sold id = [] := List.filter_eq_nil_iff.mpr fun p hp hid =>
      hmem (mem_keySet.mpr (List.mem_map.mpr ⟨p, hp, of_decide_eq_true hid⟩))
    rw [hnil]
    rfl

theorem totalCost_eq (sold : List SoldProduct) : (consumptionReport recipeOf priceOf sold).totalCost =
    ((saleLines recipeOf sold).map fun p => (costOf priceOf p).getD 0).sum := by
  have hrow : ∀ id, (if ((ownLines recipeOf sold id).foldl (addConsumption priceOf) {}).hasCost then
      ((ownLines recipeOf sold id).foldl (addConsumption priceOf) {}).cost else 0) =
        ((ownLines recipeOf sold id).map fun p => (costOf priceOf p).getD 0).sum := by
    intro id
    have h := (ownRow_foldl priceOf (ownLines recipeOf sold id)).cost
    rw [← Function.comp_def (Option.getD · 0), ← List.map_map, ← getD_sumNull, ← h]
    split_ifs <;> rfl
  rw [consumptionReport, foldl_visitSale, tally_eq]
  dsimp only
  rw [List.map_map]
  exact (congrArg List.sum (List.map_congr_left fun id _ => hrow id)).trans
    (sum_by_key _ (nodup_keySet _) fun p hp => mem_keySet.mpr (List.mem_map.mpr ⟨p, hp, rfl⟩))

/-! The cost of a recipe. -/

theorem convertQty_mul (n qty : ℚ) (u v : QtyUnit) : convertQty (n * qty) u v = (convertQty qty u v).map (n * ·) := by
  unfold convertQty
  split_ifs <;> simp [mul_assoc, mul_div_assoc]

/-- A line costs a sale its quantity times what it costs the recipe. -/
theorem costOf_eq (s : SoldProduct) (line : RecipeLine) :
    costOf priceOf (s, line) = (lineCost priceOf line).cost.map (s.qty * ·) := by
  unfold costOf amountOf lineCost
  rcases (priceOf line.ingredientId).price with _ | price <;> rcases (priceOf line.ingredientId).unit with _ | unit
  · rfl
  · simp
  · rfl
  · simp only [Option.bind_some, convertQty_mul]
    rcases convertQty line.quantity line.unit unit with _ | q
    · rfl
    · simp [mul_left_comm]

theorem recipeCost_total (lines : List RecipeLine) :
    (recipeCost lines priceOf).total = (lines.map fun line => (lineCost priceOf line).cost.getD 0).sum := by
  have hfold : ∀ acc, (lines.foldl (fun acc line => addLineCost acc (lineCost priceOf line)) acc).total =
      acc.total + (lines.map fun line => (lineCost priceOf line).cost.getD 0).sum := by
    induction lines with
    | nil => exact fun acc => (add_zero _).symm
    | cons line lines ih =>
      intro acc
      rw [List.foldl_cons, ih, List.map_cons, List.sum_cons, ← add_assoc, addLineCost]
      rcases (lineCost priceOf line).cost with _ | cost <;> simp
  rw [recipeCost, hfold, zero_add]

/-- The two reports agree, and the first is additive in the sales, each ingredient in one unit. -/
structure ConsumptionExact (recipeOf : String → List RecipeLine) (priceOf : String → IngredientPrice) : Prop where
  unresolved : ∀ sold, (consumptionReport recipeOf priceOf sold).unresolved =
    (saleLines recipeOf sold).countP fun p => (costOf priceOf p).isNone
  total : ∀ sold, (consumptionReport recipeOf priceOf sold).totalCost =
    ((saleLines recipeOf sold).map fun p => (costOf priceOf p).getD 0).sum
  recipes : ∀ sold, (consumptionReport recipeOf priceOf sold).totalCost =
    ((sold.filter (0 < ·.qty)).map fun s => s.qty * (recipeCost (recipeOf s.productId) priceOf).total).sum
  resolved : ∀ sold, (∀ s ∈ sold, 0 < s.qty → ∀ line ∈ recipeOf s.productId, (lineCost priceOf line).cost.isSome) →
    (consumptionReport recipeOf priceOf sold).unresolved = 0
  append : ∀ sold sold' id, (consumptionReport recipeOf priceOf (sold ++ sold')).amounts id =
    (addNull ((consumptionReport recipeOf priceOf sold).amounts id).1
        ((consumptionReport recipeOf priceOf sold').amounts id).1,
      addNull ((consumptionReport recipeOf priceOf sold).amounts id).2
        ((consumptionReport recipeOf priceOf sold').amounts id).2)
  oneUnit : ∀ sold, ∀ row ∈ (consumptionReport recipeOf priceOf sold).ingredients,
    (row.unit = none → row.consumed = none) ∧ ∀ unit, row.unit = some unit → row.consumed =
      sumNull ((ownLines recipeOf sold row.ingredientId).map fun p => convertQty (p.1.qty * p.2.quantity) p.2.unit unit)

theorem consumption_exact (recipeOf : String → List RecipeLine) (priceOf : String → IngredientPrice) :
    ConsumptionExact recipeOf priceOf := by
  have hunresolved : ∀ sold, (consumptionReport recipeOf priceOf sold).unresolved =
      (saleLines recipeOf sold).countP fun p => (costOf priceOf p).isNone := fun sold => by
    rw [consumptionReport, foldl_visitSale]
  refine ⟨hunresolved, totalCost_eq, fun sold => ?_, fun sold hpriced => ?_, fun sold sold' id => ?_,
    fun sold row hrow => ?_⟩
  · rw [totalCost_eq, saleLines, List.flatMap_def, List.map_flatten, List.sum_flatten, List.map_map, List.map_map]
    refine congrArg List.sum (List.map_congr_left fun s _ => ?_)
    have hlines : ∀ line, (costOf priceOf (s, line)).getD 0 = s.qty * (lineCost priceOf line).cost.getD 0 := by
      intro line
      rw [costOf_eq]
      rcases (lineCost priceOf line).cost with _ | cost <;> simp
    simp only [Function.comp_apply, List.map_map]
    rw [recipeCost_total, ← List.sum_map_mul_left]
    exact congrArg List.sum (List.map_congr_left fun line _ => hlines line)
  · rw [hunresolved, List.countP_eq_zero]
    intro p hp
    obtain ⟨s, hs, hline⟩ := List.mem_flatMap.mp hp
    obtain ⟨line, hmem, rfl⟩ := List.mem_map.mp hline
    obtain ⟨hs, hqty⟩ := List.mem_filter.mp hs
    rw [costOf_eq]
    simpa [Option.isSome_iff_ne_none] using hpriced s hs (of_decide_eq_true hqty) line hmem
  · simp only [amounts_eq, ownLines, saleLines, List.filter_append, List.flatMap_append, List.map_append,
      sumNull_append]
  · rw [ingredients_eq] at hrow
    obtain ⟨id, -, rfl⟩ := List.mem_map.mp hrow
    have hown := ownRow_foldl priceOf (ownLines recipeOf sold id)
    refine ⟨fun hnone => ?_, fun unit hunit => hown.consumed.trans ?_⟩
    · simp only [reportRow, hown.unit.1 hnone, Bool.false_eq_true, if_false]
    · obtain ⟨q, hq, hprice⟩ := hown.unit.2 unit hunit
      refine congrArg sumNull (List.map_congr_left fun p hp => ?_)
      have hid : ∀ p ∈ ownLines recipeOf sold id, p.2.ingredientId = id := fun p hp =>
        of_decide_eq_true (List.mem_filter.mp hp).2
      rw [amountOf, hid p hp, ← hid q hq, hprice]
      rfl

end

end Mydon.Stock
