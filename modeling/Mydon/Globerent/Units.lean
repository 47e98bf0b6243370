import Mydon.Globerent.Tables

/-! The warehouse of machinery: every change of a unit's status goes through the matrix, a reserve
and its release, or the rollback of the VIN. Each operation is one transaction. -/

namespace Mydon.Globerent

open Mydon.Lib Mydon.Finance Mydon.Stock

/-! Reserves. -/

def Reserve.isActiveOf (unitId : ℕ) (r : Reserve) : Bool := r.unitId = unitId && r.status = .active

def expireReserve (today : ℤ) (r : Reserve) : Reserve :=
  if r.status = .active ∧ r.endDate < today then { r with status := .expired } else r

/-- A reserved unit without an active reserve is in stock. -/
def releaseUnit (reserves : List Reserve) (u : GloberentUnit) : GloberentUnit :=
  if u.status = .RESERVED ∧ ¬ reserves.any (Reserve.isActiveOf u.id) then { u with status := .IN_STOCK } else u

/-- `expireReserves`, before every list. -/
def expireReserves (env : Env) (db : Db) : Db :=
  let reserves := db.reserves.map (expireReserve env.today)
  { db with reserves, units := db.units.map (releaseUnit reserves) }

/-- The rows of the list, each with its active reserve. -/
def list (env : Env) (group : Option UnitGroup) (db : Db) : Db × List (GloberentUnit × Option Reserve) :=
  let db := expireReserves env db
  let rows := db.units.filter fun u => group.all fun g => u.status ∈ g.statuses
  (db, rows.map fun u => (u, db.reserves.find? (Reserve.isActiveOf u.id)))

/-! `create`. -/

structure CreateUnitInput where
  name : String
  modelId : Option ℕ
  year : Option ℤ
  vin : Option String
  inStock : Bool
  salesPrice : Option ℚ
  notes : Option String
  deriving DecidableEq

/-- The index `ux_globerent_unit_vin`. -/
def vinFree (db : Db) (id : ℕ) (vin : Option String) : Bool :=
  vin.all fun v => db.units.all fun u => u.id = id ∨ u.vin ≠ some v

def create (env : Env) (input : CreateUnitInput) (db : Db) : Except Js.HttpError Db := do
  Js.require (2 ≤ Js.length (Js.trim input.name)) (.badRequest "Впиши название единицы (модель, год)")
  Js.require (input.salesPrice.all (0 < ·)) (.badRequest "Цена продажи — число больше нуля")
  let vin := (input.vin.map Js.trim).filter (· ≠ "")
  Js.require (vinFree db db.units.length vin) (.internal "ux_globerent_unit_vin")
  Js.require (input.modelId.all env.finance.hasEntity) (.internal "globerent_unit_model_id_entity_id_fk")
  let salesPrice ← numericOption 18 2 input.salesPrice
  let unit : GloberentUnit := {
    id := db.units.length
    code := db.lastCode + 1
    modelId := input.modelId
    name := Js.trim input.name
    year := input.year
    vin
    status := if input.inStock then .IN_STOCK else .NEW_REQUEST
    salesStage := none
    lostReason := none
    salesPrice
    clientId := none
    contractId := none
    importContractId := none
    arrivalDate := if input.inStock then some env.today else none
    declarationType := none
    declarationNumber := none
    declarationDate := none
    transportCompany := none
    notes := input.notes }
  return { db with units := db.units ++ [unit] }

/-! `applyAction`. -/

/-- The texts of an action; a date is read, or is not one. -/
structure ActionExtra where
  transportCompany : Option String
  declarationNumber : Option String
  declarationDate : Option ℤ
  arrivalDate : Option ℤ
  deriving DecidableEq

def isBlank (s : Option String) : Bool := Js.trim (s.getD "") = ""

/-- What an action fills in besides the status. -/
def actedUnit (action : UnitAction) (extra : ActionExtra) (today : ℤ) (u : GloberentUnit) : GloberentUnit :=
  match action with
  | .markInTransit => { u with transportCompany := extra.transportCompany.map Js.trim }
  | .markCustomsIm74 =>
    { u with
      declarationType := some "IM74"
      declarationNumber := extra.declarationNumber.map Js.trim
      declarationDate := extra.declarationDate }
  | .markCustomsIm40 =>
    { u with
      declarationType := some "IM40"
      declarationNumber := extra.declarationNumber.map Js.trim
      declarationDate := extra.declarationDate }
  | .markDelivered => { u with arrivalDate := some (extra.arrivalDate.getD today) }
  | _ => u

def checkAction (action : UnitAction) (extra : ActionExtra) : Except Js.HttpError Unit := do
  Js.require (action = .markInTransit → ¬ isBlank extra.transportCompany)
    (.badRequest "Укажи перевозчика — без него «в пути» не отмечается")
  let customs := action = .markCustomsIm74 ∨ action = .markCustomsIm40
  Js.require (customs → ¬ isBlank extra.declarationNumber) (.badRequest "Укажи номер ГТД")
  Js.require (customs → extra.declarationDate.isSome) (.badRequest "Дата ГТД — в формате ГГГГ-ММ-ДД")

def applyAction (env : Env) (id : ℕ) (action : UnitAction) (extra : ActionExtra) (db : Db) :
    Except Js.HttpError Db := do
  checkAction action extra
  let before ← Js.orThrow (db.findUnit id) (.notFound "Единица не найдена")
  match unitTransitionError action before.status with
  | some err => .error (.conflict err)
  | none =>
    return db.writeUnit { actedUnit action extra env.today before with status := (UNIT_TRANSITIONS action).target }

/-! The VIN. -/

def setVin (id : ℕ) (vin : String) (db : Db) : Except Js.HttpError Db := do
  Js.require (5 ≤ Js.length (Js.trim vin)) (.badRequest "VIN слишком короткий")
  let before ← Js.orThrow (db.findUnit id) (.notFound "Единица не найдена")
  Js.require (vinFree db id (some (Js.trim vin))) (.internal "ux_globerent_unit_vin")
  return db.writeUnit { before with vin := some (Js.trim vin) }

def unbindVin (id : ℕ) (db : Db) : Except Js.HttpError Db := do
  let before ← Js.orThrow (db.findUnit id) (.notFound "Единица не найдена")
  Js.require (before.status ∈ VIN_UNBIND_ALLOWED)
    (.conflict "С этой машиной логист уже работал физически — VIN не откатывается (правило донора)")
  return db.writeUnit { before with vin := none, status := .CONTRACT_SIGNED }

/-! Reserving. -/

structure ReserveInput where
  endDate : Option ℤ
  clientId : Option ℕ
  note : Option String
  deriving DecidableEq

def reserve (env : Env) (id : ℕ) (input : ReserveInput) (db : Db) : Except Js.HttpError Db := do
  let endDate ← Js.orThrow input.endDate (.badRequest "«Держим до» — дата в формате ГГГГ-ММ-ДД")
  Js.require (env.today ≤ endDate) (.badRequest "Дата резерва уже прошла")
  let unit ← Js.orThrow (db.findUnit id) (.notFound "Единица не найдена")
  Js.require (unit.status ∈ RESERVE_ALLOWED) (.conflict "Резерв ставится только на технику на складе")
  Js.require (¬ db.reserves.any (Reserve.isActiveOf id)) (.conflict "На эту единицу уже есть активный резерв")
  Js.require (input.clientId.all env.finance.hasEntity) (.internal "unit_reserve_client_id_entity_id_fk")
  let created : Reserve := ⟨db.reserves.length, id, input.clientId, endDate, .active, input.note, env.actor⟩
  return { db.writeUnit { unit with status := .RESERVED } with reserves := db.reserves ++ [created] }

def cancelReserve (id : ℕ) (db : Db) : Except Js.HttpError Db := do
  let unit ← Js.orThrow (db.findUnit id) (.notFound "Единица не найдена")
  let reserves := db.reserves.map fun r => if r.isActiveOf id then { r with status := .cancelled } else r
  let updated := if unit.status = .RESERVED then { unit with status := .IN_STOCK } else unit
  return { db.writeUnit updated with reserves }

/-! `setSalesStage`: the transaction. -/

structure StageExtra where
  lostReason : Option String
  salesPrice : Option ℚ
  clientId : Option ℕ
  deriving DecidableEq

/-- The unit after the transaction. -/
def stagedUnit (env : Env) (id : ℕ) (stage : SalesStage) (extra : StageExtra) (db : Db) :
    Except Js.HttpError GloberentUnit := do
  Js.require (stage = .LOST → ¬ isBlank extra.lostReason)
    (.badRequest "Для «потеряна» обязательна причина — иначе уроки не выучатся")
  Js.require (extra.salesPrice.all (0 < ·)) (.badRequest "Цена продажи — число больше нуля")
  let unit ← Js.orThrow (db.findUnit id) (.notFound "Единица не найдена")
  Js.require (unit.salesStage = none → unit.status ∈ SALE_START_ALLOWED)
    (.conflict "Продажа начинается только по технике на складе или в резерве")
  let price := extra.salesPrice.or unit.salesPrice
  Js.require (stage ∈ STAGES_REQUIRE_PRICE → price.any (0 < ·))
    (.conflict "Для этой стадии нужна цена продажи — заполни её")
  Js.require (extra.clientId.all env.finance.hasEntity) (.internal "globerent_unit_client_id_entity_id_fk")
  let salesPrice ← numericOption 18 2 extra.salesPrice
  return { unit with
    salesStage := some stage
    lostReason := if stage = .LOST then some (Js.trim (extra.lostReason.getD "")) else unit.lostReason
    salesPrice := salesPrice.or unit.salesPrice
    clientId := extra.clientId.or unit.clientId }

def setSalesStage (env : Env) (id : ℕ) (stage : SalesStage) (extra : StageExtra) (db : Db) : Except Js.HttpError Db :=
  (stagedUnit env id stage extra db).map db.writeUnit

end Mydon.Globerent
