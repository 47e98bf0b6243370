import Mydon.Stock.Returns

/-! Refills of the coffee bunkers and what they take from the stock. A refill is written first; its write-off follows in
steps of its own, under a key that the refill gives it. -/

namespace Mydon.Coffee

open Mydon.Lib Mydon.Js Mydon.Stock

structure CoffeeIngredient where
  id : String
  name : String
  entityId : Option String
  packageWeight : Option ℤ
  deriving DecidableEq

/-- A set of containers has one for each position. -/
structure HopperUnit where
  id : String
  setNumber : ℤ
  hopperPosition : ℤ
  retired : Bool
  deriving DecidableEq

/-- Row of `coffee_refill`. -/
structure CoffeeRefill where
  id : String
  locationId : String
  position : ℤ
  containerNumber : Option ℤ
  ingredientId : Option String
  filledWeight : ℤ
  measuredBefore : Option ℤ
  packageCount : Option ℤ
  weighedWithLid : Bool
  enteredDate : String
  createdBy : Option String
  partUnitId : Option String
  stockMovementId : Option String
  deriving DecidableEq

/-- What the service reads besides the refills and the stock. -/
structure RefillEnv where
  stock : StockEnv
  ingredients : List CoffeeIngredient
  /-- Positions and the ingredients that each may hold. -/
  config : List (ℤ × String)
  hoppers : List HopperUnit

def RefillEnv.ingredient (env : RefillEnv) (id : String) : Option CoffeeIngredient :=
  Table.lookup CoffeeIngredient.id env.ingredients id

/-! `bunkerConfig`. -/

structure BunkerIngredientRow where
  position : ℤ
  ingredientId : String
  ingredientName : String
  packageWeight : Option ℤ
  entityId : Option String
  deriving DecidableEq

/-- The weight of a package that the card of the ingredient names. -/
def cardWeight (env : RefillEnv) (ing : CoffeeIngredient) : Option ℚ :=
  (ing.entityId.bind (findCard env.stock.cards)).bind fun card =>
    strictNumber env.stock.host (OrderedMap.get card.attrs "вес упаковки, г")

def bunkerRow (env : RefillEnv) (position : ℤ) (ing : CoffeeIngredient) : BunkerIngredientRow :=
  { position
    ingredientId := ing.id
    ingredientName := ing.name
    packageWeight :=
      match cardWeight env ing with
      | some weight => if 0 < weight then some (roundInt weight) else ing.packageWeight
      | none => ing.packageWeight
    entityId := ing.entityId }

def bunkerConfig (env : RefillEnv) : List BunkerIngredientRow :=
  (env.config.filterMap fun c => (env.ingredient c.2).map (bunkerRow env c.1)).insertionSort
    fun a b => a.position ≤ b.position

/-! `submitRefill`. -/

structure SubmitRefillDto where
  locationId : String
  position : ℤ
  containerNumber : Option ℤ
  ingredientId : Option String
  filledWeight : ℤ
  measuredBefore : Option ℤ
  packageCount : Option ℤ
  weighedWithLid : Option Bool
  /-- The day of the event, which is not to come. -/
  enteredDate : String
  createdBy : Option String
  position_range : 1 ≤ position ∧ position ≤ 8
  container_range : ∀ n ∈ containerNumber, 1 ≤ n ∧ n ≤ 27
  filled_nonneg : 0 ≤ filledWeight
  measured_nonneg : ∀ w ∈ measuredBefore, 0 ≤ w
  packages_pos : ∀ n ∈ packageCount, 1 ≤ n

/-- The only ingredient that the position may hold. -/
def onlyIngredient (env : RefillEnv) (position : ℤ) : Option String :=
  match OrderedMap.keySet (((bunkerConfig env).filter fun c => c.position = position).map BunkerIngredientRow.ingredientId) with
  | [id] => some id
  | _ => none

def newRefill (env : RefillEnv) (id : String) (dto : SubmitRefillDto) : CoffeeRefill :=
  { id
    locationId := dto.locationId
    position := dto.position
    containerNumber := dto.containerNumber
    ingredientId := dto.ingredientId.or (onlyIngredient env dto.position)
    filledWeight := dto.filledWeight
    measuredBefore := dto.measuredBefore
    packageCount := dto.packageCount
    weighedWithLid := dto.weighedWithLid.getD true
    enteredDate := dto.enteredDate
    createdBy := dto.createdBy
    partUnitId := none
    stockMovementId := none }

/-! `consumeRefill`. -/

inductive How
  | packages
  | weights
  deriving DecidableEq

structure RefillConsumptionResult where
  refillId : String
  consumed : Bool
  qty : Option ℤ
  how : Option How
  stockMovementId : Option String
  reason : Option String
  deriving DecidableEq

/-- Nothing to do any more, or a movement to write. -/
inductive Consumption
  | done (result : RefillConsumptionResult)
  | move (qty : ℤ) (how : How) (input : CreateMovementInput)

def truthy (host : Host) : Option Json → Bool
  | some (.bool b) => b
  | some (.num n) => n ≠ 0
  | some (.str s) => host.toLowerCase (trim s) ∈ ["да", "true", "1", "yes", "+"]
  | _ => false

/-- The warehouse that is marked to receive, or the only one. -/
def defaultWarehouse (env : StockEnv) : Option Entity :=
  let warehouses := env.cards.filter fun c => c.type = "warehouse"
  (warehouses.find? fun w => truthy env.host (OrderedMap.get w.attrs "приём по умолчанию")).or
    (match warehouses with
      | [only] => some only
      | _ => none)

def hopperUnit (env : RefillEnv) (containerNumber position : ℤ) : Option HopperUnit :=
  env.hoppers.find? fun u => u.setNumber = containerNumber ∧ u.hopperPosition = position ∧ u.retired = false

/-- Packages of a known weight, or the weights before and after. -/
def refillQty (ing : CoffeeIngredient) (r : CoffeeRefill) : Option (ℤ × How) :=
  match r.packageCount.filter (0 < ·), ing.packageWeight.filter (0 < ·) with
  | some count, some weight => some (count * weight, .packages)
  | _, _ => (r.measuredBefore.filter (· < r.filledWeight)).map fun before => (r.filledWeight - before, .weights)

def refillKey (id : String) : String := "coffee-refill:" ++ id

def refillNote (ing : CoffeeIngredient) (r : CoffeeRefill) (how : How) : String :=
  let set := match r.containerNumber with
    | some n => if n = 0 then "" else s!" · набор {n}"
    | none => ""
  let grounds := match how with
    | .packages => s!"{r.packageCount.getD 0} уп. × {ing.packageWeight.getD 0} г"
    | .weights => s!"{r.filledWeight} − {r.measuredBefore.getD 0}"
  s!"заливка бункера {r.position}{set} ({grounds})"

def refillMovement (ing : CoffeeIngredient) (r : CoffeeRefill) (cardId warehouseId : String) (qty : ℤ) (how : How)
    (actor : String) : CreateMovementInput :=
  { kind := .consumption
    ingredientId := cardId
    warehouseId
    counterpartyId := none
    dt := some r.enteredDate
    qty := qty
    unit := "г"
    unitPrice := none
    supplier := none
    note := some (refillNote ing r how)
    createdBy := some actor
    clientKey := some (refillKey r.id)
    batchId := none }

/-- What `consumeRefill` makes of a refill that is not written off, up to its movement. -/
def consumption (env : RefillEnv) (consumes : String) (r : CoffeeRefill) (actor : String) : Consumption :=
  let result : RefillConsumptionResult := ⟨r.id, false, none, none, none, none⟩
  if trim consumes = "0" then
    .done { result with reason := some "списание заливкой выключено (COFFEE_REFILL_CONSUMES=0)" }
  else
    match r.ingredientId with
    | none => .done { result with reason := some "ингредиент не указан" }
    | some ingredientId =>
      match env.ingredient ingredientId with
      | none => .done { result with reason := some "ингредиент не найден" }
      | some ing =>
        match refillQty ing r with
        | none =>
          .done { result with reason := some "нет точных данных: ни числа пачек с весом пачки, ни весов «до/после»" }
        | some (qty, how) =>
          match ing.entityId with
          | none =>
            .done { result with
              qty := some qty, how := some how, reason := some "у ингредиента нет карточки склада" }
          | some cardId =>
            match defaultWarehouse env.stock with
            | none => .done { result with qty := some qty, how := some how, reason := some "склад приёма не выбран" }
            | some warehouse => .move qty how (refillMovement ing r cardId warehouse.id qty how actor)

/-- The container that the refill was in is noted in any case. -/
def notedUnit (env : RefillEnv) (r : CoffeeRefill) : Option String :=
  r.partUnitId.or (((r.containerNumber.filter (· ≠ 0)).bind fun n => hopperUnit env n r.position).map HopperUnit.id)

/-! What the form shows, and what follows from it. -/

/-- The weight of a package that the form has for the bunker of a refill. -/
def formWeight (env : RefillEnv) (r : CoffeeRefill) : Option ℤ :=
  ((bunkerConfig env).find? fun row => row.position = r.position ∧ some row.ingredientId = r.ingredientId).bind
    BunkerIngredientRow.packageWeight

/-- Packages of the weight that the form showed, or else the weights before and after. -/
def formQty (env : RefillEnv) (r : CoffeeRefill) : Option ℤ :=
  match r.packageCount, formWeight env r with
  | some count, some weight => some (count * weight)
  | _, _ => r.measuredBefore.map fun before => r.filledWeight - before

/-- The weight that the registry of ingredients has. -/
def registryWeight (env : RefillEnv) (r : CoffeeRefill) : Option ℤ :=
  ((r.ingredientId.bind env.ingredient).bind CoffeeIngredient.packageWeight).filter (0 < ·)

/-- The card of the goods that a refill takes. -/
def cardOf (env : RefillEnv) (r : CoffeeRefill) : Option String :=
  (r.ingredientId.bind env.ingredient).bind CoffeeIngredient.entityId

/-- Packages weigh the same in the form and in the registry. -/
def FormAgrees (env : RefillEnv) (r : CoffeeRefill) : Prop :=
  r.packageCount = none ∨ registryWeight env r = formWeight env r

instance (env : RefillEnv) (r : CoffeeRefill) : Decidable (FormAgrees env r) := by
  unfold FormAgrees
  infer_instance

variable {env : RefillEnv} {r : CoffeeRefill} {qty : ℤ} {how : How} {input : CreateMovementInput}

/-- The movement of a refill: of its goods, and of the quantity that the form gives where it agrees with the registry. -/
theorem consumption_eq_move {consumes actor : String} (h : consumption env consumes r actor = .move qty how input) :
    input.kind = .consumption ∧ input.unit = "г" ∧ input.clientKey = some (refillKey r.id) ∧ input.qty = qty ∧
      input.unitPrice = none ∧ input.batchId = none ∧ cardOf env r = some input.ingredientId ∧
      ((∀ n ∈ r.packageCount, 1 ≤ n) → FormAgrees env r → formQty env r = some qty) := by
  unfold consumption at h
  split at h
  · cases h
  rcases hing : r.ingredientId with _ | ingredientId
  · rw [hing] at h
    cases h
  rw [hing] at h
  dsimp only at h
  rcases hfound : env.ingredient ingredientId with _ | ing
  · rw [hfound] at h
    cases h
  rw [hfound] at h
  dsimp only at h
  rcases hqty : refillQty ing r with _ | ⟨qty', how'⟩
  · rw [hqty] at h
    cases h
  rw [hqty] at h
  rcases hcard : ing.entityId with _ | cardId
  · rw [hcard] at h
    cases h
  rw [hcard] at h
  rcases hwarehouse : defaultWarehouse env.stock with _ | warehouse
  · rw [hwarehouse] at h
    cases h
  rw [hwarehouse] at h
  obtain ⟨rfl, rfl, rfl⟩ := Consumption.move.inj h
  have hof : r.ingredientId.bind env.ingredient = some ing := by rw [hing, Option.bind_some, hfound]
  refine ⟨rfl, rfl, rfl, rfl, rfl, rfl, ?_, fun hpos hagrees => ?_⟩
  · unfold cardOf
    rw [hof, Option.bind_some, hcard]
    rfl
  · unfold FormAgrees registryWeight at hagrees
    rw [hof, Option.bind_some] at hagrees
    unfold refillQty at hqty
    unfold formQty
    have hweights : (r.measuredBefore.filter (· < r.filledWeight)).map (fun before => (r.filledWeight - before, How.weights)) =
        some (qty', how') → r.measuredBefore.map (fun before => r.filledWeight - before) = some qty' := by
      intro hw
      obtain ⟨before, hbefore, heq⟩ := Option.map_eq_some_iff.mp hw
      rw [(Option.filter_eq_some_iff.mp hbefore).1, Option.map_some, (Prod.mk.inj heq).1]
    rcases hcount : r.packageCount with _ | count
    · rw [hcount] at hqty
      exact hweights hqty
    · have hfilter : r.packageCount.filter (0 < ·) = some count := by
        have := hpos count hcount
        rw [hcount]
        simp only [Option.filter_some, decide_eq_true_eq]
        rw [if_pos (by omega)]
      rw [hfilter] at hqty
      rw [← hagrees.resolve_left (by simp [hcount])]
      rcases hweight : ing.packageWeight.filter (0 < ·) with _ | weight
      · rw [hweight] at hqty ⊢
        exact hweights hqty
      · rw [hweight] at hqty ⊢
        exact congrArg some (Prod.mk.inj (Option.some.inj hqty)).1

end Mydon.Coffee
