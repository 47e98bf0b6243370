import Mydon.Machines.Tables
import Mydon.Recon.Reconcile

/-! Where machines stand. A placement is a period of days at a place; only the last one of a machine may be open. -/

namespace Mydon.Machines

open Mydon.Lib Mydon.Js

/-! The kinds of places, and what they say of a status. -/

def isPlaceType (type : String) : Bool := type = "location" || type = "warehouse" || type = "workshop"

def placeTypeLabel (type : String) : String :=
  if type = "" then "Место"
  else if type = "location" then "Точка продаж"
  else if type = "warehouse" then "Склад"
  else if type = "workshop" then "Мастерская"
  else type

def machineIsOperational (status : Option MachineStatus) : Bool := status.getD .in_service = .in_service

/-- A machine without a card has no status, and stands anywhere. -/
def placeStatusConflict (host : Host) (status : Option MachineStatus) (placeType placeName : String) : Option String :=
  let label := host.toLowerCase (placeTypeLabel placeType)
  if status = some .in_service ∧ placeType ≠ "location" then
    some s!"В эксплуатации автомат стоит на точке продаж, а «{placeName}» — это {label}"
  else if status = some .warehouse ∧ placeType ≠ "warehouse" then
    some s!"Состояние «на складе» требует склада, а «{placeName}» — это {label}"
  else none

def Db.statusOf (db : Db) (id : String) : Option MachineStatus := (db.machineCard id).map MachineCard.status

/-! The table of placements. -/

def Placement.isOpenOf (id : String) (p : Placement) : Bool := p.entityId = id && p.endDate = none

def Placement.endOn (id : String) (today : ℤ) (p : Placement) : Placement :=
  if p.isOpenOf id then { p with endDate := some today } else p

/-- The open placement of a machine ends; constraint `coffee_machine_placement_dates`. -/
def Db.closeOpen (db : Db) (id : String) (today : ℤ) : Except HttpError Db := do
  require (∀ p ∈ db.placements, p.isOpenOf id = true → ∀ start ∈ p.startDate, start ≤ today)
    (.internal "coffee_machine_placement_dates")
  return { db with placements := db.placements.map (Placement.endOn id today) }

/-- A new placement; index `machine_placement_entity_open_key`. -/
def Db.place (db : Db) (locationId id : String) (today : ℤ) : Except HttpError Db := do
  require (∀ p ∈ db.placements, p.isOpenOf id = false) (.internal "machine_placement_entity_open_key")
  return { db with placements := db.placements ++ [⟨locationId, id, some today, none⟩] }

def Db.moveTo (db : Db) (locationId id : String) (today : ℤ) : Except HttpError Db := do
  let closed ← db.closeOpen id today
  closed.place locationId id today

/-! `EntitiesService.setMachineStatus`: what it reads, and what it then writes. -/

def statusReads (db : Db) (entityId : String) : Except HttpError (Option MachineStatus) := do
  let card ← orThrow (db.entity entityId) (.notFound "Карточки нет")
  require (card.type = "machine") (.badRequest s!"Состояние задаётся только автоматам, а это «{card.type}»")
  return db.statusOf entityId

def Db.saveStatus (db : Db) (entityId : String) (status : MachineStatus) : Db :=
  { db with
    machineCards := Table.upsert MachineCard.entityId db.machineCards
      (match db.machineCard entityId with
      | some card => { card with status }
      | none => ⟨entityId, .other, status, none, false⟩) }

/-- The machine leaves the place where it works. -/
def leaves (before : Option MachineStatus) (status : MachineStatus) : Bool :=
  before ≠ some status && !machineIsOperational (some status)

def setMachineStatusTx (host : Host) (db : Db) (entityId : String) (before : Option MachineStatus)
    (status : MachineStatus) (placeId : Option String) (today : ℤ) : Except HttpError Db := do
  let left ← (if leaves before status then (db.saveStatus entityId status).closeOpen entityId today
    else .ok (db.saveStatus entityId status))
  match placeId with
  | none => .ok left
  | some placeId => do
    let place ← orThrow (left.entity placeId) (.notFound s!"Место {placeId} не найдено")
    require (isPlaceType place.type = true)
      (.badRequest s!"Поставить автомат можно только на место, а это «{place.type}»")
    match placeStatusConflict host (some status) place.type place.name with
    | some conflict => .error (.badRequest conflict)
    | none => left.moveTo placeId entityId today

/-! `CoffeeService`. -/

/-- What `linkLocation` checks before its transaction. -/
def linkReads (host : Host) (db : Db) (locationId : String) (entityId : Option String) : Except HttpError String := do
  let id ← orThrow entityId (.badRequest
    "На месте может стоять несколько аппаратов — укажите, какой снять (unlinkMachine)")
  let loc ← orThrow (db.entity locationId) (.notFound s!"Место {locationId} не найдено")
  require (isPlaceType loc.type = true) (.badRequest s!"Поставить аппарат можно только на место, а это «{loc.type}»")
  let card ← orThrow (db.entity id) (.notFound s!"Карточка {id} не найдена")
  require (card.type = "machine") (.badRequest "Привязать можно только карточку автомата (type=machine)")
  match placeStatusConflict host (db.statusOf id) loc.type loc.name with
  | some conflict => .error (.badRequest conflict)
  | none => return id

def standsAt (db : Db) (locationId id : String) : Bool :=
  db.placements.any fun p => p.locationId = locationId && p.isOpenOf id

def linkTx (db : Db) (locationId id : String) (today : ℤ) : Except HttpError Db :=
  if standsAt db locationId id then .ok db else db.moveTo locationId id today

def unlinkMachine (db : Db) (id : String) (today : ℤ) : Except HttpError (Db × ℕ) := do
  let closed ← db.closeOpen id today
  return (closed, db.placements.countP fun p => p.isOpenOf id)

/-- `/\s·\s([^·]{1,16})$/`: the text before the match. -/
def withoutQualifier (full : List Char) : Option (List Char) :=
  let tail := (full.reverse.takeWhile (· ≠ '·')).reverse
  match tail, (full.reverse.dropWhile (· ≠ '·')) with
  | c :: qualifier, _ :: d :: base =>
    let width := Js.length (String.ofList qualifier)
    if isSpace c && isSpace d && 1 ≤ width && width ≤ 16 then some base.reverse else none
  | _, _ => none

/-- The whole name, and the name without what tells two machines of one place apart. -/
def placeNameKeys (host : Host) (name : Option String) : List String :=
  let full := Recon.normalizeSourceKey host (name.getD "")
  if full = "" then []
  else
    match withoutQualifier full.toList with
    | none => [full]
    | some base =>
      let base := trim (String.ofList base)
      if 3 ≤ Js.length base then [full, base] else [full]

structure LocationRow where
  id : String
  name : String
  machines : List String
  deriving DecidableEq

structure MachineCandidate where
  entityId : String
  name : String
  point : Option String
  deriving DecidableEq

def locations (db : Db) : List LocationRow :=
  (db.entities.filter fun e => e.type = "location").map fun e =>
    ⟨e.id, e.name, (db.placements.filter fun p => p.locationId = e.id && p.endDate = none).map Placement.entityId⟩

def machineCandidates (host : Host) (db : Db) : List MachineCandidate :=
  ((db.entities.filter fun e => e.type = "machine").map fun e =>
    ⟨e.id, e.name, (e.point.map trim).filter (· ≠ "")⟩).insertionSort fun a b => host.localeCompare a.name b.name ≤ 0

def placesByKey (host : Host) (places : List LocationRow) : List (String × List String) :=
  places.foldl (fun byKey p =>
    (placeNameKeys host (some p.name)).foldl (fun byKey key =>
      OrderedMap.alter (fun ids => OrderedMap.addKey (ids.getD []) p.id) key byKey) byKey) []

/-- The places that the first key with any place has. -/
def placesOf (host : Host) (byKey : List (String × List String)) (m : MachineCandidate) : List String :=
  let keys := placeNameKeys host m.point ++ placeNameKeys host (some m.name)
  (keys.findSome? fun key => (OrderedMap.get byKey key).filter (· ≠ [])).getD []

/-- The links that `autoLinkLocations` makes one after another, the ambiguous names and the unmatched ones. -/
def autoLinks (host : Host) (places : List LocationRow) (machines : List MachineCandidate)
    (statuses : List (String × MachineStatus)) : List (String × String) × List String × List String :=
  let byKey := placesByKey host places
  let placed := places.flatMap LocationRow.machines
  machines.foldl (fun (links, ambiguous, unmatched) m =>
    if m.entityId ∈ placed ∨ machineIsOperational (OrderedMap.get statuses m.entityId) = false then
      (links, ambiguous, unmatched)
    else
      match placesOf host byKey m with
      | [place] => (links ++ [(place, m.entityId)], ambiguous, unmatched)
      | [] => (links, ambiguous, unmatched ++ [m.name])
      | _ => (links, ambiguous ++ [m.name], unmatched)) ([], [], [])

end Mydon.Machines
