import Mydon.Clock
import Mydon.Entities.Geo
import Mydon.Lib.Table
import Mydon.Stock.StockService

/-! Cards of the registry, the values proposed for their fields, and the point of a card on the map. A card is written
by an edit, by the approval of the card with all that is proposed for it, and by the approval of one value. -/

namespace Mydon.Entities

open Mydon.Lib Mydon.Js

/-! The tables. -/

/-- A row of `entity`. -/
structure Card where
  id : ℕ
  type : String
  name : String
  externalRef : Option String
  attrs : Attrs
  /-- `approvedAt` is set. -/
  approved : Bool

/-- A row of `entity_draft`: the value proposed for a field. -/
structure Draft where
  id : ℕ
  entityId : ℕ
  field : String
  value : String
  deriving DecidableEq

/-- A row of `geo_point`. -/
structure GeoPoint where
  entityId : ℕ
  lat : ℚ
  lng : ℚ
  address : Option String
  deriving DecidableEq

inductive Decision
  | pending
  | approved
  | rejected
  deriving DecidableEq

def Decision.text : Decision → String
  | pending => "pending"
  | approved => "approved"
  | rejected => "rejected"

/-- A row of `approval`, with the card named in its payload. -/
structure Approval where
  id : ℕ
  entityApprove : Option ℕ
  decision : Decision
  deriving DecidableEq

/-- A row of `product_name_alias`. -/
structure ProductNameAlias where
  id : ℕ
  entityId : ℕ
  name : String
  deriving DecidableEq

structure Db where
  cards : List Card
  drafts : List Draft
  points : List GeoPoint
  approvals : List Approval
  aliases : List ProductNameAlias
  nextId : ℕ

def Db.card (db : Db) (id : ℕ) : Option Card := Table.lookup Card.id db.cards id

def Db.draftsOf (db : Db) (entityId : ℕ) : List Draft := db.drafts.filter fun d => d.entityId = entityId

def Db.draft (db : Db) (entityId : ℕ) (field : String) : Option Draft :=
  Table.lookup (fun d => (d.entityId, d.field)) db.drafts (entityId, field)

def Db.point (db : Db) (entityId : ℕ) : Option GeoPoint := Table.lookup GeoPoint.entityId db.points entityId

structure Env where
  host : Host
  /-- `n.toLocaleString("ru-RU")`. -/
  ruText : ℚ → String

/-! Helpers. -/

mutual

/-- `String(v)`. -/
def textOf (host : Host) : Json → String
  | .null => "null"
  | .bool b => if b then "true" else "false"
  | .num n => host.numberText n
  | .str s => s
  | .arr items => String.intercalate "," (textsOf host items)
  | .obj _ => "[object Object]"

/-- The items of a list that is joined; null is joined as an empty text. -/
def textsOf (host : Host) : List Json → List String
  | [] => []
  | .null :: items => "" :: textsOf host items
  | v :: items => textOf host v :: textsOf host items

end

inductive ActorKind
  | human
  | agent
  | system
  deriving DecidableEq

def actorKindOf (host : Host) (actorRef : String) : ActorKind :=
  let ref := host.toLowerCase (trim actorRef)
  if ref = "" then .system
  else if "tool:".toList.isPrefixOf ref.toList then .system
  else if "agent:".toList.isPrefixOf ref.toList then .agent
  else if ref = "system" then .system
  else .human

def isHex (c : Char) : Bool := isDigit c || ('a' ≤ c && c ≤ 'f')

/-- `/^staff:([0-9a-f]{8}-[0-9a-f]{4}-[0-9a-f]{4}-[0-9a-f]{4}-[0-9a-f]{12})$/`. -/
def isStaff (source : String) : Bool :=
  let uuid := source.toList.drop 6
  "staff:".toList.isPrefixOf source.toList && uuid.length = 36 &&
    uuid.zipIdx.all fun (c, i) => if i = 8 ∨ i = 13 ∨ i = 18 ∨ i = 23 then c = '-' else isHex c

/-- The point of a card as its attributes have it. An edit refuses a broken pair, an approval leaves the point as it
was. -/
def syncGeoPoint (host : Host) (points : List GeoPoint) (entityId : ℕ) (attrs : Attrs) (strict : Bool) :
    Except HttpError (List GeoPoint) :=
  match Geo.coordFromAttrs host attrs with
  | .broken =>
    if strict then .error (.badRequest "Координаты вне диапазона: широта −90..90, долгота −180..180")
    else .ok points
  | .absent => .ok (points.filter fun p => p.entityId ≠ entityId)
  | .point coord => do
    let lat ← Stock.numeric 9 6 coord.lat
    let lng ← Stock.numeric 9 6 coord.lng
    return Table.upsert GeoPoint.entityId points ⟨entityId, lat, lng, Geo.addressFromAttrs attrs⟩

/-- The number that a price is, written as a number or as a text. -/
def priceNum (host : Host) : Option Json → Option ℚ
  | some (.num n) => some n
  | some (.str v) =>
    if trim v = "" then none
    else host.number (String.ofList (replaceFirst ',' '.' (v.toList.filter fun c => !isSpace c)))
  | _ => none

def priceEntry (env : Env) (oldPrice : ℚ) (today : ℤ) : String :=
  let (year, month, day) := Clock.civil today
  let stamp := s!"{Clock.padStart 2 day}.{Clock.padStart 2 month}.{year}"
  s!"{env.ruText oldPrice} сум (до {stamp})"

/-- A history begins with a text that is there already, and is cut from it by a semicolon. -/
def historySoFar : Option Json → String
  | some (.str cur) => if cur = "" then "" else cur ++ "; "
  | _ => ""

def appendPriceHistory (env : Env) (today : ℤ) (oldAttrs newAttrs : Attrs) (priceKey historyKey : String) : Attrs :=
  match priceNum env.host (OrderedMap.get oldAttrs priceKey), priceNum env.host (OrderedMap.get newAttrs priceKey) with
  | some oldPrice, some newPrice =>
    if oldPrice = newPrice then newAttrs
    else
      OrderedMap.set historyKey
        (.str (historySoFar (OrderedMap.get oldAttrs historyKey) ++ priceEntry env oldPrice today)) newAttrs
  | _, _ => newAttrs

/-- The partial index `ux_entity_contractor_inn`. -/
def sameInn (c c' : Card) : Bool :=
  c.type = "contractor" && c'.type = "contractor" && c.externalRef = c'.externalRef &&
    c.externalRef.any fun inn => inn ≠ ""

def rejectDuplicateInn (db : Db) (type : String) (externalRef : Option String) (excludeId : Option ℕ) :
    Except HttpError Unit :=
  let inn := trim (externalRef.getD "")
  if type ≠ "contractor" ∨ inn = "" then .ok ()
  else
    match db.cards.find? fun c => c.type = "contractor" ∧ c.externalRef = some inn with
    | some existing =>
      require (some existing.id = excludeId) (.conflict s!"Контрагент с ИНН {inn} уже заведён: {existing.name}")
    | none => .ok ()

/-! `EntitiesService`. -/

structure CreateEntityDto where
  type : String
  name : String
  externalRef : Option String
  attrs : Option Attrs
  createdFrom : Option String

/-- A card that the owner did not make waits for approval; one made by an employee is put before the owner. -/
def create (env : Env) (db : Db) (dto : CreateEntityDto) (actorRef : String) : Except HttpError (Card × Db) := do
  rejectDuplicateInn db dto.type dto.externalRef none
  let createdFrom := trim (dto.createdFrom.getD "")
  let byAgent := actorKindOf env.host actorRef = .agent
  let fromSource := if createdFrom ≠ "" then createdFrom else if byAgent then actorRef else ""
  let created : Card := {
    id := db.nextId
    type := dto.type
    name := dto.name
    externalRef := dto.externalRef
    attrs := dto.attrs.getD []
    approved := fromSource = "" }
  require (∀ c ∈ db.cards, sameInn c created = false) (.internal "ux_entity_contractor_inn")
  let points ← syncGeoPoint env.host db.points created.id created.attrs true
  let asked := if isStaff fromSource then [⟨db.nextId + 1, some created.id, .pending⟩] else []
  return (created,
    { db with
      cards := db.cards ++ [created]
      points
      approvals := db.approvals ++ asked
      nextId := db.nextId + 2 })

structure UpdateEntityDto where
  name : Option String
  externalRef : Option String
  attrs : Option Attrs

/-- The attributes that an edit writes: those it was given, with the prices that they replace. -/
def editedAttrs (env : Env) (today : ℤ) (oldAttrs newAttrs : Attrs) : Attrs :=
  appendPriceHistory env today oldAttrs
    (appendPriceHistory env today oldAttrs newAttrs "цена" "история цен") "цена покупки" "история цены покупки"

def edited (env : Env) (today : ℤ) (c : Card) (dto : UpdateEntityDto) : Card :=
  { c with
    name := dto.name.getD c.name
    externalRef := dto.externalRef <|> c.externalRef
    attrs := (dto.attrs.map (editedAttrs env today c.attrs)).getD c.attrs }

def update (env : Env) (today : ℤ) (db : Db) (id : ℕ) (dto : UpdateEntityDto) : Except HttpError (Card × Db) := do
  let before ← orThrow (db.card id) (.notFound s!"Сущность {id} не найдена")
  (if dto.externalRef.isSome then rejectDuplicateInn db before.type dto.externalRef (some id) else .ok ())
  let updated := edited env today before dto
  require (∀ c ∈ db.cards, c.id ≠ id → sameInn c updated = false) (.internal "ux_entity_contractor_inn")
  let points ← (if dto.attrs.isSome then syncGeoPoint env.host db.points id updated.attrs true else .ok db.points)
  return (updated, { db with cards := Table.write Card.id db.cards updated, points })

/-- A value lands on the card: the name has a column of its own. -/
def applyDraft (c : String × Attrs) (d : Draft) : String × Attrs :=
  if d.field = "название" then (d.value, c.2) else (c.1, OrderedMap.set d.field (.str d.value) c.2)

def applyDrafts (name : String) (attrs : Attrs) (drafts : List Draft) : String × Attrs :=
  drafts.foldl applyDraft (name, attrs)

def Card.overwrite (c : Card) (fields : String × Attrs) : Card :=
  { c with name := fields.1, attrs := fields.2, approved := true }

/-- The panel's decision answers the question that is open elsewhere. -/
def closeApprovals (approvals : List Approval) (entityId : ℕ) : List Approval :=
  approvals.map fun a =>
    if a.decision = .pending ∧ a.entityApprove = some entityId then { a with decision := .approved } else a

/-- The transaction of `approve`, on the card that was read before it and the drafts that it has read. -/
def approveTx (host : Host) (db : Db) (card : Card) (drafts : Option (List Draft)) : Except HttpError Db := do
  let fields := applyDrafts card.name card.attrs (drafts.getD [])
  let points ← syncGeoPoint host db.points card.id fields.2 false
  return { db with
    cards := Table.update Card.id db.cards card.id fun c => c.overwrite fields
    drafts := if drafts.isSome then db.drafts.filter fun d => d.entityId ≠ card.id else db.drafts
    points
    approvals := closeApprovals db.approvals card.id }

def approve (host : Host) (db : Db) (id : ℕ) (withDrafts : Bool) : Except HttpError (Option Card × Db) := do
  let card ← orThrow (db.card id) (.notFound "Карточки нет")
  let db ← approveTx host db card (if withDrafts then some (db.draftsOf id) else none)
  return (db.card id, db)

structure Proposal where
  entityId : ℕ
  field : String
  value : String
  deriving DecidableEq

/-- What the card has in a field, as a text. -/
def currentText (host : Host) (card : Card) (field : String) : String :=
  if field = "название" then card.name
  else
    match OrderedMap.get card.attrs field with
    | none | some .null => ""
    | some v => textOf host v

/-- One row for a field: a newer value takes the place of the older one. -/
def proposeTx (db : Db) (p : Proposal) : Db :=
  match db.draft p.entityId p.field with
  | some d => { db with drafts := Table.write Draft.id db.drafts { d with value := p.value } }
  | none =>
    { db with drafts := db.drafts ++ [⟨db.nextId, p.entityId, p.field, p.value⟩], nextId := db.nextId + 1 }

/-- What stands on the card already is not proposed. -/
def propose (host : Host) (db : Db) (p : Proposal) : Except HttpError Db := do
  let card ← orThrow (db.card p.entityId) (.notFound "Карточки нет")
  return if currentText host card p.field = p.value then db else proposeTx db p

def deleteDraft (db : Db) (d : Draft) : Db := { db with drafts := db.drafts.filter fun d' => d'.id ≠ d.id }

/-- What `approveField` writes of the card that was read: the name, or all its attributes. -/
def Card.patch (c : Card) (card : Card) (d : Draft) : Card :=
  if d.field = "название" then { c with name := d.value }
  else { c with attrs := OrderedMap.set d.field (.str d.value) card.attrs }

def approveFieldTx (db : Db) (card : Card) (d : Draft) : Db :=
  deleteDraft { db with cards := Table.update Card.id db.cards card.id fun c => c.patch card d } d

def approveField (db : Db) (entityId : ℕ) (field : String) : Except HttpError (Option Card × Db) := do
  let d ← orThrow (db.draft entityId field) (.notFound "Такого предложения нет")
  let card ← orThrow (db.card entityId) (.notFound "Карточки нет")
  let db := approveFieldTx db card d
  return (db.card entityId, db)

def rejectField (db : Db) (entityId : ℕ) (field : String) : Db :=
  match db.draft entityId field with
  | some d => deleteDraft db d
  | none => db

/-! `ApprovalsService.decide`, of an approval that carries `entityApprove`. -/

/-- A card that is gone, or approved already, is left as it is. -/
def executeEntityApprove (db : Db) (row : Approval) : Db :=
  match row.entityApprove.bind db.card with
  | some card =>
    if card.approved then db
    else
      { db with
        cards := Table.update Card.id db.cards card.id fun c =>
          c.overwrite (applyDrafts card.name card.attrs (db.draftsOf card.id))
        drafts := db.drafts.filter fun d => d.entityId ≠ card.id }
  | none => db

def decideApproval (db : Db) (id : ℕ) (decision : Decision) : Except HttpError (Approval × Db) := do
  let row ← orThrow (Table.lookup Approval.id db.approvals id) (.notFound s!"Запрос на согласование {id} не найден")
  require (row.decision = .pending)
    (.badRequest s!"Запрос {id} уже закрыт решением \"{row.decision.text}\" — повторное решение не принимается.")
  let updated := { row with decision }
  let decided := { db with approvals := Table.write Approval.id db.approvals updated }
  return (updated, if decision = .approved then executeEntityApprove decided updated else decided)

/-! What the operations do. -/

variable {host : Host} {env : Env} {db db' : Db} {today : ℤ} {points : List GeoPoint} {attrs : Attrs} {id : ℕ}
  {card : Card}

theorem numeric_of_coord {x : ℚ} (h : |x| ≤ 180) : ∃ q, Stock.numeric 9 6 x = .ok q := by
  unfold Stock.numeric
  refine ⟨_, if_pos ?_⟩
  have hfloor : (⌊|x| * 10 ^ 6 + 1 / 2⌋ : ℚ) ≤ |x| * 10 ^ 6 + 1 / 2 := Int.floor_le _
  have hlt : (⌊|x| * 10 ^ 6 + 1 / 2⌋ : ℚ) < ((10 ^ 9 : ℤ) : ℚ) := by
    push_cast
    linarith
  exact_mod_cast hlt

/-- An approval never fails on the point. -/
theorem syncGeoPoint_lax : ∃ points', syncGeoPoint host points id attrs false = .ok points' := by
  unfold syncGeoPoint
  rcases hdeclared : Geo.coordFromAttrs host attrs with _ | _ | coord
  · exact ⟨_, rfl⟩
  · exact ⟨_, rfl⟩
  · obtain ⟨hs, hn, hw, he⟩ := Geo.coordFromAttrs_range hdeclared
    obtain ⟨lat, hlat⟩ := @numeric_of_coord coord.lat (abs_le.mpr ⟨by linarith, by linarith⟩)
    obtain ⟨lng, hlng⟩ := @numeric_of_coord coord.lng (abs_le.mpr ⟨by linarith, by linarith⟩)
    exact ⟨Table.upsert GeoPoint.entityId points ⟨id, lat, lng, Geo.addressFromAttrs attrs⟩, by
      simp only [hlat, hlng]; rfl⟩

/-- What `approve` leaves of the tables. -/
structure Approved (host : Host) (db : Db) (card : Card) (drafts : Option (List Draft)) (db' : Db) : Prop where
  points : syncGeoPoint host db.points card.id (applyDrafts card.name card.attrs (drafts.getD [])).2 false =
    .ok db'.points
  cards : db'.cards =
    Table.update Card.id db.cards card.id fun c => c.overwrite (applyDrafts card.name card.attrs (drafts.getD []))
  drafts : db'.drafts = if drafts.isSome then db.drafts.filter fun d => d.entityId ≠ card.id else db.drafts
  approvals : db'.approvals = closeApprovals db.approvals card.id
  aliases : db'.aliases = db.aliases
  nextId : db'.nextId = db.nextId

theorem approved_of_tx {drafts : Option (List Draft)} (h : approveTx host db card drafts = .ok db') :
    Approved host db card drafts db' := by
  obtain ⟨points, hpoints, h⟩ := bind_eq_ok.mp h
  obtain rfl := Except.ok.inj h
  exact ⟨hpoints, rfl, rfl, rfl, rfl, rfl⟩

theorem approveTx_total (drafts : Option (List Draft)) :
    ∃ db', approveTx host db card drafts = .ok db' ∧ Approved host db card drafts db' := by
  obtain ⟨points, hpoints⟩ :=
    @syncGeoPoint_lax host db.points (applyDrafts card.name card.attrs (drafts.getD [])).2 card.id
  have htx : ∃ db', approveTx host db card drafts = .ok db' := by
    unfold approveTx
    simp only [hpoints]
    exact ⟨_, rfl⟩
  exact htx.imp fun db' h => ⟨h, approved_of_tx h⟩

/-- What an edit leaves of the tables. -/
structure Updated (env : Env) (today : ℤ) (db : Db) (id : ℕ) (dto : UpdateEntityDto) (before updated : Card)
    (db' : Db) : Prop where
  accepted : update env today db id dto = .ok (updated, db')
  found : db.card id = some before
  eq : updated = edited env today before dto
  cards : db'.cards = Table.write Card.id db.cards updated
  points : (if dto.attrs.isSome then syncGeoPoint env.host db.points id updated.attrs true else .ok db.points) =
    .ok db'.points
  drafts : db'.drafts = db.drafts
  approvals : db'.approvals = db.approvals
  aliases : db'.aliases = db.aliases
  nextId : db'.nextId = db.nextId

theorem update_eq_ok {dto : UpdateEntityDto} {updated : Card} (h : update env today db id dto = .ok (updated, db')) :
    ∃ before, Updated env today db id dto before updated db' := by
  have haccepted := h
  obtain ⟨before, hbefore, h⟩ := bind_eq_ok.mp h
  obtain ⟨-, -, h⟩ := bind_eq_ok.mp h
  obtain ⟨-, -, h⟩ := bind_eq_ok.mp h
  obtain ⟨points, hpoints, h⟩ := bind_eq_ok.mp h
  obtain ⟨rfl, rfl⟩ := Prod.ext_iff.mp (Except.ok.inj h)
  exact ⟨before, haccepted, orThrow_eq_ok.mp hbefore, rfl, rfl, hpoints, rfl, rfl, rfl, rfl⟩

@[simp] theorem proposeTx_cards (p : Proposal) : (proposeTx db p).cards = db.cards := by
  unfold proposeTx
  split <;> rfl

theorem card_id (h : db.card id = some card) : card.id = id := Table.key_of_lookup h

@[simp] theorem overwrite_id (c : Card) (fields : String × Attrs) : (c.overwrite fields).id = c.id := rfl

@[simp] theorem patch_id (c card : Card) (d : Draft) : (c.patch card d).id = c.id := by
  unfold Card.patch
  split_ifs <;> rfl

@[simp] theorem edited_id (c : Card) (dto : UpdateEntityDto) : (edited env today c dto).id = c.id := rfl

end Mydon.Entities
