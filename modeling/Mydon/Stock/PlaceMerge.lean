import Mathlib.Data.List.Infix
import Mydon.Clock
import Mydon.Stock.Ledger

/-! Merging two cards of one place: every reference to the source card is
rewritten to the target, one column after another. -/

namespace Mydon.Stock.PlaceMerge

open Mydon.Lib

inductive MergeBasis
  | serial
  | fieldCheck
  | ownerWord
  deriving DecidableEq

def MergeBasis.label : MergeBasis → String
  | .serial => "один и тот же автомат (серийник)"
  | .fieldCheck => "полевая проверка"
  | .ownerWord => "слово владельца"

def MERGE_REASON_MIN : ℕ := 10

def PLACE_TYPES : List String := ["location", "warehouse", "workshop"]

def isMergedPlace (attrs : Attrs) : Bool :=
  match (OrderedMap.get attrs "слита в").bind Js.Json.asString with
  | some v => Js.length v > 0
  | none => false

/-- A row of a table that holds references, its columns as text. -/
abbrev SqlRow := List (String × Option String)

def SqlRow.column (row : SqlRow) (name : String) : Option String := (OrderedMap.get row name).join

structure PlaceCard where
  entityId : String
  contractorId : Option String
  updatedBy : String
  deriving DecidableEq

structure MergePreview where
  source : String × String × String
  target : String × String × String
  moves : List (String × ℕ)
  blockers : List String
  geo : String
  deriving DecidableEq

structure MergeAudit where
  actorRef : String
  target : String
  source : Entity
  targetBefore : Entity
  moves : List (String × ℕ)
  geo : String
  basis : MergeBasis
  reason : String
  mergedOn : String

/-- `tables` holds the tables that refer to a place, but for `stock_movement`. -/
structure Database where
  entity : List Entity
  stockMovement : List StockMovementRow
  tables : String → List SqlRow
  geoPoint : List String
  placeCard : List PlaceCard
  auditLog : List MergeAudit

structure Reference where
  table : String
  column : String
  extra : Option (String × String)
  deriving DecidableEq

def REFERENCES : List Reference :=
  [⟨"machine_placement", "location_id", none⟩,
   ⟨"coffee_refill", "location_id", none⟩,
   ⟨"coffee_consumable", "location_id", none⟩,
   ⟨"coffee_consumable_log", "location_id", none⟩,
   ⟨"coffee_wash_log", "location_id", none⟩,
   ⟨"coffee_wash_schedule", "location_id", none⟩,
   ⟨"coffee_sale", "location_id", none⟩,
   ⟨"stock_movement", "warehouse_id", none⟩,
   ⟨"stock_movement", "counterparty_id", none⟩,
   ⟨"stock_batch", "warehouse_id", none⟩,
   ⟨"part_count_session", "warehouse_id", none⟩,
   ⟨"task", "entity_id", none⟩,
   ⟨"maintenance_log", "entity_id", none⟩,
   ⟨"maintenance_plan", "entity_id", none⟩,
   ⟨"entity_draft", "entity_id", none⟩,
   ⟨"raw_link", "entity_id", none⟩,
   ⟨"note", "entity_id", none⟩,
   ⟨"document", "entity_id", none⟩,
   ⟨"money_flow", "entity_id", none⟩,
   ⟨"attachment", "owner_id", some ("owner_type", "entity")⟩]

/-- `column = value and extra`. -/
def Reference.selects (ref : Reference) (value : String) (row : SqlRow) : Bool :=
  row.column ref.column = some value &&
    match ref.extra with
    | none => true
    | some (column, expected) => row.column column = some expected

def updateColumn (ref : Reference) (sourceId targetId : String) (row : SqlRow) : SqlRow :=
  if ref.selects sourceId row then OrderedMap.alter (fun _ => some targetId) ref.column row else row

def updateMovement (column sourceId targetId : String) (r : StockMovementRow) : StockMovementRow :=
  if column = "warehouse_id" then
    if r.warehouseId = sourceId then { r with warehouseId := targetId } else r
  else if column = "counterparty_id" then
    if r.counterpartyId = some sourceId then { r with counterpartyId := some targetId } else r
  else r

/-- `update table set column = target where column = source`. -/
def updateReference (sourceId targetId : String) (db : Database) (ref : Reference) : Database :=
  if ref.table = "stock_movement" then
    { db with stockMovement := db.stockMovement.map (updateMovement ref.column sourceId targetId) }
  else
    { db with
      tables := fun table =>
        if table = ref.table then (db.tables table).map (updateColumn ref sourceId targetId)
        else db.tables table }

def countReference (db : Database) (sourceId : String) (ref : Reference) : ℕ :=
  if ref.table = "stock_movement" then
    db.stockMovement.countP fun r =>
      if ref.column = "warehouse_id" then r.warehouseId = sourceId else r.counterpartyId = some sourceId
  else (db.tables ref.table).countP (ref.selects sourceId)

/-- Pairs of rows, one of each card, that the join condition brings together. -/
def joinCount (rows : List SqlRow) (place sourceId targetId : String) (on : SqlRow → SqlRow → Bool) : ℕ :=
  ((rows.filter fun a => a.column place = some sourceId).map fun a =>
    (rows.filter fun b => b.column place = some targetId).countP (on a)).sum

/-- `a.column = b.column` is true. -/
def sameColumn (column : String) (a b : SqlRow) : Bool :=
  (a.column column).isSome && a.column column = b.column column

def COLLISIONS : List (String × (Database → String → String → ℕ)) :=
  [("расходники кофе за один и тот же день (coffee_consumable)", fun db s t =>
      joinCount (db.tables "coffee_consumable") "location_id" s t (sameColumn "logged_date")),
   ("продажи кофе одного товара за один день (coffee_sale)", fun db s t =>
      joinCount (db.tables "coffee_sale") "location_id" s t fun a b =>
        sameColumn "logged_date" a b && sameColumn "product_id" a b),
   ("график мойки одной и той же позиции (coffee_wash_schedule)", fun db s t =>
      joinCount (db.tables "coffee_wash_schedule") "location_id" s t fun a b =>
        a.column "position" = b.column "position"),
   ("действующий норматив ТО того же вида (maintenance_plan)", fun db s t =>
      joinCount (db.tables "maintenance_plan") "entity_id" s t fun a b =>
        sameColumn "kind" a b && a.column "part_kind" = b.column "part_kind" &&
          a.column "is_active" = some "true" && b.column "is_active" = some "true"),
   ("предложенная правка того же поля (entity_draft)", fun db s t =>
      joinCount (db.tables "entity_draft") "entity_id" s t (sameColumn "field")),
   ("запрос на согласование, который держит исходную карточку", fun db s _ =>
      (db.tables "approval").countP fun a =>
        a.column "decision" = some "pending" &&
          (a.column "payload").any fun payload => decide (s.toList <:+: payload.toList)),
   ("задача по исходной карточке, уже взятая агентом", fun db s _ =>
      (db.tables "task").countP fun a =>
        a.column "entity_id" = some s && a.column "owner_kind" = some "agent" &&
          (a.column "agent_run_id").isSome &&
          (a.column "status").any fun status => status ≠ "done" && status ≠ "cancelled")]

def mergeRequestProblem (sourceId targetId : String) (basis : Option MergeBasis) (reason : String) :
    Option String :=
  if sourceId = targetId then some "Карточку нельзя слить саму с собой"
  else if basis = none then
    some "Нужно основание: один автомат, полевая проверка или слово владельца. Совпадение адреса основанием не является (М-10)"
  else if Js.length (Js.trim reason) < MERGE_REASON_MIN then
    some s!"Опишите основание словами — не короче {MERGE_REASON_MIN} знаков"
  else none

def placeBlockers (source target : Entity) : List String :=
  (if source.type ∈ PLACE_TYPES ∧ target.type ∈ PLACE_TYPES then [] else ["сливаются только карточки мест"]) ++
  (if source.type ≠ target.type then
    [s!"виды мест разные ({source.type} и {target.type}) — это разные места"] else []) ++
  (if isMergedPlace source.attrs then ["исходная карточка уже слита"] else []) ++
  (if isMergedPlace target.attrs then ["целевая карточка сама слита в другую"] else [])

def collisionBlockers (db : Database) (sourceId targetId : String) : List String :=
  COLLISIONS.filterMap fun c =>
    let n := c.2 db sourceId targetId
    if 0 < n then some s!"{c.1}: {n}" else none

def movesOf (db : Database) (sourceId : String) : List (String × ℕ) :=
  REFERENCES.filterMap fun ref =>
    let n := countReference db sourceId ref
    if 0 < n then some (s!"{ref.table}.{ref.column}", n) else none

def geoOf (db : Database) (sourceId targetId : String) : String :=
  if targetId ∈ db.geoPoint then "target_keeps"
  else if sourceId ∈ db.geoPoint then "moved_from_source"
  else "none"

def findEntity (db : Database) (id : String) : Option Entity := db.entity.find? (·.id = id)

/-- The checks and counts that the preview and the merge share. -/
def plan (db : Database) (sourceId targetId : String) :
    Except Js.HttpError (Entity × Entity × MergePreview) :=
  if sourceId = targetId then .error (.badRequest "Карточку нельзя слить саму с собой")
  else
    match findEntity db sourceId, findEntity db targetId with
    | none, _ => .error (.notFound s!"Карточка {sourceId} не найдена")
    | some _, none => .error (.notFound s!"Карточка {targetId} не найдена")
    | some source, some target =>
      .ok (source, target,
        { source := (source.id, source.name, source.type)
          target := (target.id, target.name, target.type)
          moves := movesOf db sourceId
          blockers := placeBlockers source target ++ collisionBlockers db sourceId targetId
          geo := geoOf db sourceId targetId })

def mergeGeo (geo sourceId targetId : String) (points : List String) : List String :=
  if geo = "moved_from_source" then points.map fun p => if p = sourceId then targetId else p
  else points.filter (· ≠ sourceId)

/-- The contractor of the source goes to the target where the target has none. -/
def mergePlaceCard (sourceId targetId actorRef : String) (cards : List PlaceCard) : List PlaceCard :=
  let inserted : List PlaceCard :=
    match cards.find? (·.entityId = sourceId) with
    | none => cards
    | some source =>
      if cards.any (·.entityId = targetId) then
        cards.map fun c =>
          if c.entityId = targetId then { c with contractorId := c.contractorId.or source.contractorId } else c
      else cards ++ [⟨targetId, source.contractorId, actorRef⟩]
  inserted.filter (·.entityId ≠ sourceId)

def mergedAttrs (attrs : Attrs) (targetId mergedOn : String) : Attrs :=
  OrderedMap.alter (fun _ => .bool true) "выключена"
    (OrderedMap.alter (fun _ => .str mergedOn) "слита"
      (OrderedMap.alter (fun _ => .str targetId) "слита в" attrs))

structure MergeInput where
  basis : Option MergeBasis
  reason : String
  deriving DecidableEq

/-- The transaction of `merge`; `now` is the clock it reads. -/
def merge (db : Database) (sourceId targetId : String) (input : MergeInput) (actorRef : String) (now : ℤ) :
    Except Js.HttpError (Database × MergePreview) :=
  match mergeRequestProblem sourceId targetId input.basis input.reason with
  | some problem => .error (.badRequest problem)
  | none =>
    match plan db sourceId targetId with
    | .error e => .error e
    | .ok (before, targetBefore, preview) =>
      if preview.blockers ≠ [] then
        .error (.conflict ("Слить нельзя: " ++ "; ".intercalate preview.blockers))
      else
        let moved := REFERENCES.foldl (updateReference sourceId targetId) db
        let mergedOn := Clock.dayText (Clock.tashkentDay now)
        .ok ({ moved with
          geoPoint := mergeGeo preview.geo sourceId targetId db.geoPoint
          placeCard := mergePlaceCard sourceId targetId actorRef db.placeCard
          entity := db.entity.map fun e =>
            if e.id = sourceId then { e with attrs := mergedAttrs before.attrs targetId mergedOn } else e
          auditLog := db.auditLog ++
            [⟨actorRef, targetId, before, targetBefore, preview.moves, preview.geo,
              input.basis.getD .ownerWord, Js.trim input.reason, mergedOn⟩] }, preview)

end Mydon.Stock.PlaceMerge
