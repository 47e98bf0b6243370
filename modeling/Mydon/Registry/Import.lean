import Mydon.Registry.Tables

/-! The import of the owner's registry: contractors, money flows and sale contracts, in stages of their own.
What was imported before is found by its INN, by its document and purpose, by its number. -/

namespace Mydon.Registry

open Mydon.Lib Mydon.Finance Mydon.Stock

structure ImportContractor where
  name : String
  inn : String
  deriving DecidableEq

structure ImportFlow where
  direction : String
  amount : ℚ
  category : String
  date : String
  purpose : String
  docNo : String
  method : Option String
  isOfficial : Option Bool
  counterpartyInn : Option String
  counterpartyName : Option String
  unitVin : Option String
  deriving DecidableEq

structure DidoxRow where
  doc : String
  date : Option String
  totalWithVat : ℚ
  deriving DecidableEq

structure ImportContract where
  contractNo : String
  contractDate : String
  buyerName : String
  buyerInn : Option String
  totalWithVat : ℚ
  totalVat : Option ℚ
  status : Option String
  subject : Option String
  didoxRows : Option (List DidoxRow)
  didoxDuplicatesDropped : Option ℚ
  extraDates : Option (List String)
  invoicedTotal : Option ℚ
  flowDocNos : List String
  deriving DecidableEq

structure ImportPayload where
  source : Option String
  contractors : List ImportContractor
  flows : List ImportFlow
  contracts : List ImportContract
  contractsFinal : Bool
  contractsKeep : Option (List String)
  deriving DecidableEq

structure ImportCount where
  created : ℕ
  skipped : ℕ
  errors : List String
  deriving DecidableEq

structure ContractsCount extends ImportCount where
  flowsLinked : ℕ
  updated : ℕ
  deleted : ℕ
  deriving DecidableEq

structure ImportSummary where
  contractors : ImportCount
  flows : ImportCount
  contracts : ContractsCount
  deriving DecidableEq

/-! What is checked before the database. -/

/-- The year, the month and the day of `/^\d{4}-\d{2}-\d{2}$/`. -/
def ISO_DAY (s : String) : Option (ℤ × ℤ × ℤ) :=
  match s.toList with
  | [y₁, y₂, y₃, y₄, '-', m₁, m₂, '-', d₁, d₂] =>
    if [y₁, y₂, y₃, y₄, m₁, m₂, d₁, d₂].all Js.isDigit then
      let value := fun (digits : List Char) => digits.foldl (fun n c => 10 * n + (c.toNat - 48 : ℤ)) 0
      some (value [y₁, y₂, y₃, y₄], value [m₁, m₂], value [d₁, d₂])
    else none
  | _ => none

/-- `/^\d{9}$|^\d{14}$/`. -/
def INN_RE (s : String) : Bool := (s.length = 9 || s.length = 14) && s.toList.all Js.isDigit

def MAX_ENTITY_NAME : ℕ := 512

def entityNameProblem (name : String) : Option String :=
  let s := Js.trim name
  if Js.length s < 2 then some "имя короче двух знаков"
  else if MAX_ENTITY_NAME < Js.length s then
    some s!"имя длиной {Js.length s} знаков — это не имя, а строка документа (предел {MAX_ENTITY_NAME})"
  else none

def contractorProblem (c : ImportContractor) : Option String :=
  (entityNameProblem c.name).or (if INN_RE (Js.trim c.inn) then none else some "кривой ИНН")

def MONEY_CATEGORIES : List String :=
  ["sale", "service", "supplier", "logistics", "customs", "certification", "tax", "rent", "commission", "other"]

def directionOf (s : String) : Option Direction :=
  if s = "in" then some .incoming else if s = "out" then some .outgoing else none

def flowImportError (f : ImportFlow) : Option String :=
  let tag := "«" ++ f.docNo ++ "»"
  if directionOf f.direction = none then some (tag ++ ": направление in или out")
  else if f.amount ≤ 0 then some (tag ++ ": сумма — число больше нуля")
  else if f.category ∉ MONEY_CATEGORIES then
    some (tag ++ ": категория «" ++ f.category ++ "» не из словаря MONEY_CATEGORIES")
  else if ISO_DAY f.date = none then some (tag ++ ": дата не ГГГГ-ММ-ДД: «" ++ f.date ++ "»")
  else if Js.trim f.docNo = "" then some "запись без docNo — идемпотентности не будет"
  else if Js.trim f.purpose = "" then some (tag ++ ": пустое назначение")
  else none

def contractImportError (c : ImportContract) : Option String :=
  let tag := "«" ++ c.contractNo ++ "»"
  if Js.trim c.contractNo = "" then some "договор без номера — идемпотентности не будет"
  else if ISO_DAY c.contractDate = none then some (tag ++ ": дата не ГГГГ-ММ-ДД: «" ++ c.contractDate ++ "»")
  else if Js.length (Js.trim c.buyerName) < 2 then some (tag ++ ": нет покупателя")
  else if c.totalWithVat ≤ 0 then some (tag ++ ": сумма — число больше нуля")
  else if c.status.any fun s => s ≠ "active" ∧ s ≠ "closed" then
    some (tag ++ ": статус импорта только active или closed, а не «" ++ c.status.getD "" ++ "»")
  else none

/-! `importContractors`. -/

def contractorsRefused (bad : List (ImportContractor × String)) : Js.HttpError :=
  let examples := (bad.take 3).map fun x => "«" ++ Js.take 40 (Js.trim x.1.name) ++ "…» — " ++ x.2
  .badRequest (s!"Контрагенты не прошли проверку: {bad.length} строк — почини сид. " ++
    String.intercalate "; " examples)

/-- The rows whose INN is new, the first of each INN. -/
def freshContractors (db : Db) (rows : List ImportContractor) : List (String × ImportContractor) :=
  let seen := (db.entities.filter fun e => e.type = "contractor").filterMap Entity.externalRef
  (rows.filter fun c => Js.trim c.inn ∉ seen).foldl
    (fun batch c => OrderedMap.alter (fun first => first.getD c) (Js.trim c.inn) batch) []

def contractorRow (id : ℕ) (c : ImportContractor) : Entity :=
  ⟨id, "contractor", Js.trim c.name, some (Js.trim c.inn)⟩

def importContractors (db : Db) (rows : List ImportContractor) : Except Js.HttpError (Db × ImportCount) := do
  let bad := rows.filterMap fun c => (contractorProblem c).map fun problem => (c, problem)
  Js.require (bad = []) (contractorsRefused bad)
  let batch := freshContractors db rows
  let cards := batch.zipIdx.map fun (c, i) => contractorRow (db.nextId + i) c.2
  return ({ db with entities := db.entities ++ cards, nextId := db.nextId + batch.length },
    ⟨batch.length, rows.length - batch.length, []⟩)

/-! `importFlows`. -/

def textOrNull (o : Option String) : String := o.getD "null"

/-- `new Date(date + "T00:00:00+05:00")`; a day beyond the end of its month runs over. -/
def tashkentMidnight (date : String) : Except Js.HttpError ℤ :=
  match ISO_DAY date with
  | some (y, m, d) =>
    if 1 ≤ m ∧ m ≤ 12 ∧ 1 ≤ d ∧ d ≤ 31 then .ok (Clock.tashkentDayStart (Clock.ofCivil y m d))
    else .error (.internal "Invalid time value")
  | none => .error (.internal "Invalid time value")

structure FlowsRun where
  db : Db
  seen : List String
  created : ℕ
  skipped : ℕ

def flowRow (db : Db) (f : ImportFlow) : Except Js.HttpError MoneyFlow := do
  let date ← tashkentMidnight f.date
  let amount ← numeric 18 2 f.amount
  return {
    id := db.nextId
    direction := (directionOf f.direction).getD .incoming
    amount
    currency := "UZS"
    purpose := some f.purpose
    date
    status := .actual
    category := some f.category
    rate := none
    amountUzs := none
    counterpartyId := f.counterpartyInn.bind db.contractorByInn
    docNo := some f.docNo
    dueDate := none
    paidAt := some date
    contractId := none
    importContractId := none
    unitId := f.unitVin.bind db.unitByVin
    method := f.method
    isOfficial := f.isOfficial.getD true
    counterparty := f.counterpartyName }

def importFlow (s : FlowsRun) (f : ImportFlow) : Except Js.HttpError FlowsRun :=
  let key := f.docNo ++ "|" ++ f.purpose
  if key ∈ s.seen then .ok { s with skipped := s.skipped + 1 }
  else do
    let row ← flowRow s.db f
    return {
      s with
      db := { s.db with flows := s.db.flows ++ [row], nextId := s.db.nextId + 1 }
      seen := s.seen ++ [key]
      created := s.created + 1 }

def importFlows (db : Db) (rows : List ImportFlow) : Except Js.HttpError (Db × ImportCount) := do
  let valid := rows.filter fun f => flowImportError f = none
  let existing := db.flows.filter fun e => e.docNo.any (· ∈ valid.map ImportFlow.docNo)
  let seen := existing.map fun e => textOrNull e.docNo ++ "|" ++ textOrNull e.purpose
  let s ← valid.foldlM importFlow ⟨db, seen, 0, 0⟩
  return (s.db, ⟨s.created, s.skipped, rows.filterMap flowImportError⟩)

/-! `importContracts`. -/

/-- `LIKE`: `%` stands for any text, `_` for any character, and a backslash takes the next one as it is. -/
def like : List Char → List Char → Bool
  | [], s => s.isEmpty
  | c :: p, s =>
    if c = '%' then s.tails.any (like p)
    else
      match s with
      | [] => false
      | d :: s =>
        if c = '_' then like p s
        else if c = '\\' then
          match p with
          | e :: p => d = e && like p s
          | [] => false
        else d = c && like p s

/-- `ownPrefix`: the name of the source, up to a colon. -/
def ownPattern (source : String) : List Char := Js.trimChars (source.toList.takeWhile (· ≠ ':')) ++ ['%']

def isOwn (source : String) (c : Contract) : Bool :=
  c.createdFrom.any fun text => like (ownPattern source) text.toList

def Db.mine (db : Db) (source : String) : List Contract := db.contracts.filter (isOwn source)

/-- What the import writes of a card. -/
structure Fields where
  contractDate : ℤ
  clientId : Option ℕ
  buyer : Js.Json
  totalWithVat : ℚ
  totalVat : ℚ
  status : Contracts.ContractStatus
  docParams : Js.Json

/-- A `date` column. -/
def dateColumn (s : String) : Except Js.HttpError ℤ :=
  match ISO_DAY s with
  | some (y, m, d) =>
    if 1 ≤ y ∧ Clock.civil (Clock.ofCivil y m d) = (y, m, d) then .ok (Clock.ofCivil y m d)
    else .error (.internal "date/time field value out of range")
  | none => .error (.internal "invalid input syntax for type date")

def didoxJson (r : DidoxRow) : Js.Json :=
  .obj [("doc", .str r.doc), ("date", (r.date.map Js.Json.str).getD .null), ("totalWithVat", .num r.totalWithVat)]

def buyerJson (c : ImportContract) : Js.Json :=
  .obj (("name", .str (Js.trim c.buyerName)) :: (c.buyerInn.map fun inn => ("inn", Js.Json.str inn)).toList)

def docParamsJson (c : ImportContract) : Js.Json :=
  .obj [("didox", .obj
    ((c.subject.map fun s => ("subject", Js.Json.str s)).toList ++
      (c.didoxRows.map fun rows => ("rows", Js.Json.arr (rows.map didoxJson))).toList ++
      (c.didoxDuplicatesDropped.map fun n => ("duplicatesDropped", Js.Json.num n)).toList ++
      (c.extraDates.map fun dates => ("extraDates", Js.Json.arr (dates.map .str))).toList ++
      (c.invoicedTotal.map fun n => ("invoicedTotal", Js.Json.num n)).toList))]

/-- The card of the buyer, where it is known. -/
def clientOf (db : Db) (c : ImportContract) : Option ℕ := c.buyerInn.bind db.contractorByInn

def fieldsOf (db : Db) (c : ImportContract) : Except Js.HttpError Fields := do
  let contractDate ← dateColumn c.contractDate
  let totalWithVat ← numeric 18 2 c.totalWithVat
  let totalVat ← numeric 18 2 (c.totalVat.getD 0)
  return {
    contractDate
    clientId := clientOf db c
    buyer := buyerJson c
    totalWithVat
    totalVat
    status := if c.status = some "closed" then .closed else .active
    docParams := docParamsJson c }

def newCard (db : Db) (source : String) (no : String) (x : Fields) : Contract where
  id := db.nextId
  contractNo := no
  contractDate := x.contractDate
  clientId := x.clientId
  totalWithVat := x.totalWithVat
  totalVat := x.totalVat
  status := x.status
  buyer := x.buyer
  sellerCompanyId := db.seller
  docParams := x.docParams
  createdFrom := some source

def Contract.overwrite (card : Contract) (source : String) (x : Fields) : Contract :=
  { card with
    contractDate := x.contractDate
    clientId := x.clientId
    totalWithVat := x.totalWithVat
    totalVat := x.totalVat
    status := x.status
    buyer := x.buyer
    docParams := x.docParams
    createdFrom := some source }

/-- The state of the transaction. -/
structure ContractsRun where
  db : Db
  idByNo : List (String × ℕ)
  count : ContractsCount

/-! The cleanup: what the source made earlier and is no longer in the export. -/

def Db.stale (db : Db) (source : String) (keep : List String) : List Contract :=
  (db.mine source).filter fun m => m.contractNo ∉ keep

/-- The set is smaller than half of what is there, and most of that would go: the export is cut short. -/
def lostSet (keep mine stale : ℕ) : Bool := 2 * keep < mine && mine < 2 * stale

def cancelled (keep mine stale : ℕ) : String :=
  s!"уборка отменена: набор из {keep} договоров оставил бы {stale} из {mine} карточек лишними — " ++
    "так выглядит неполная выгрузка, а не уточнение"

def Db.calledOff (db : Db) (source : String) (keep : List String) : Bool :=
  lostSet keep.length (db.mine source).length (db.stale source keep).length &&
    10 < (db.stale source keep).length

def Db.worked (db : Db) (id : ℕ) : Bool := id ∈ db.acts || db.units.any fun u => u.contractId = some id

def MoneyFlow.freed (f : MoneyFlow) (id : ℕ) : MoneyFlow :=
  if f.contractId = some id then { f with contractId := none } else f

def Db.deleteContract (db : Db) (id : ℕ) : Db :=
  { db with flows := db.flows.map fun f => f.freed id, contracts := db.contracts.filter fun c => c.id ≠ id }

def removeStale (s : ContractsRun) (card : Contract) : Except Js.HttpError ContractsRun :=
  if s.db.worked card.id then
    .ok { s with count.errors := s.count.errors ++
      ["«" ++ card.contractNo ++ "»: карточка устарела, но с ней работали — оставлена"] }
  else do
    Js.require (some card.id ∉ s.db.imports) (.internal "violates foreign key constraint on gr_import_contract")
    return { s with db := s.db.deleteContract card.id, count.deleted := s.count.deleted + 1 }

def cleanUp (source : String) (keep : List String) (s : ContractsRun) : Except Js.HttpError ContractsRun :=
  let mine := s.db.mine source
  let stale := s.db.stale source keep
  if s.db.calledOff source keep then
    .ok { s with count.errors := s.count.errors ++ [cancelled keep.length mine.length stale.length] }
  else stale.foldlM removeStale s

/-! The rows, one after another. -/

/-- The flow is named by the row, and is not known to be of another company than the row's buyer. -/
def names (db : Db) (c : ImportContract) (f : MoneyFlow) : Bool :=
  f.docNo.any (· ∈ c.flowDocNos) &&
    match clientOf db c with
    | some client => f.counterpartyId = none || f.counterpartyId = some client
    | none => true

def linkable (db : Db) (c : ImportContract) (f : MoneyFlow) : Bool := f.contractId = none && names db c f

def MoneyFlow.linkedTo (f : MoneyFlow) (id : ℕ) : MoneyFlow := { f with contractId := some id }

def Db.link (db : Db) (c : ImportContract) (id : ℕ) : Db :=
  { db with flows := db.flows.map fun f => if linkable db c f then f.linkedTo id else f }

def linkFlows (s : ContractsRun) (c : ImportContract) (id : ℕ) : Except Js.HttpError ContractsRun := do
  let linked := (s.db.flows.filter (linkable s.db c)).length
  Js.require (linked = 0 ∨ (s.db.findContract id).isSome)
    (.internal "violates foreign key constraint on money_flow")
  return { s with db := s.db.link c id, count.flowsLinked := s.count.flowsLinked + linked }

def Db.insertCard (db : Db) (card : Contract) : Db :=
  { db with contracts := db.contracts ++ [card], nextId := db.nextId + 1 }

def Db.overwriteCard (db : Db) (id : ℕ) (source : String) (x : Fields) : Db :=
  { db with contracts := Table.update (fun c => c.id) db.contracts id fun card => card.overwrite source x }

/-- The id of the row's card after it was inserted, overwritten or passed by. -/
def placeCard (source : String) (mineIds : List ℕ) (s : ContractsRun) (c : ImportContract) :
    Except Js.HttpError (ContractsRun × ℕ) :=
  let no := Js.trim c.contractNo
  match OrderedMap.get s.idByNo no with
  | none => do
    let x ← fieldsOf s.db c
    let id := s.db.nextId
    return ({ s with
      db := s.db.insertCard (newCard s.db source no x)
      idByNo := OrderedMap.set no id s.idByNo
      count.created := s.count.created + 1 }, id)
  | some id =>
    if id ∈ mineIds then do
      let x ← fieldsOf s.db c
      return ({ s with db := s.db.overwriteCard id source x, count.updated := s.count.updated + 1 }, id)
    else .ok ({ s with count.skipped := s.count.skipped + 1 }, id)

def importRow (source : String) (mineIds : List ℕ) (s : ContractsRun) (c : ImportContract) :
    Except Js.HttpError ContractsRun := do
  let (s, id) ← placeCard source mineIds s c
  linkFlows s c id

/-- The flows that stand on a contract of another company, each with the contract's number. -/
def Db.foreignLinks (db : Db) : List (MoneyFlow × Contract) :=
  db.flows.flatMap fun f => (db.contracts.filter (isForeign f)).map fun c => (f, c)

def foreignError (l : MoneyFlow × Contract) : String :=
  "приход «" ++ textOrNull l.1.docNo ++ "» стоит на договоре «" ++ l.2.contractNo ++ "» другой компании — проверьте"

/-- `keep`: the numbers of the whole export, or of this batch where they are not told. -/
def keepOf (keepNos : Option (List String)) (valid : List ImportContract) : List String :=
  OrderedMap.keySet (((keepNos.getD (valid.map ImportContract.contractNo)).map Js.trim).filter (· ≠ ""))

/-- The transaction before its first row; the ids of the existing numbers were read before it. -/
def startContracts (db : Db) (rows : List ImportContract) : ContractsRun :=
  let nos := (rows.filter fun c => contractImportError c = none).map fun c => Js.trim c.contractNo
  let existing := db.contracts.filter fun e => e.contractNo ∈ nos
  ⟨db, existing.map fun e => (e.contractNo, e.id), ⟨⟨0, 0, rows.filterMap contractImportError⟩, 0, 0, 0⟩⟩

def prepareContracts (db : Db) (rows : List ImportContract) (source : String) (final : Bool)
    (keepNos : Option (List String)) : Except Js.HttpError ContractsRun :=
  let valid := rows.filter fun c => contractImportError c = none
  if final then cleanUp source (keepOf keepNos valid) (startContracts db rows) else .ok (startContracts db rows)

def Db.mineIds (db : Db) (source : String) : List ℕ := (db.mine source).map fun m => m.id

def importContracts (db : Db) (rows : List ImportContract) (source : String) (final : Bool)
    (keepNos : Option (List String)) : Except Js.HttpError (Db × ContractsCount) := do
  let s ← prepareContracts db rows source final keepNos
  let valid := rows.filter fun c => contractImportError c = none
  let s ← valid.foldlM (importRow source (db.mineIds source)) s
  let foreign := if final then s.db.foreignLinks.map foreignError else []
  return (s.db, { s.count with errors := s.count.errors ++ foreign })

/-! `importGloberent`. Each stage is a transaction: one that fails leaves what the earlier ones have written. -/

def ImportCount.zero : ImportCount := ⟨0, 0, []⟩

def ContractsCount.zero : ContractsCount := ⟨.zero, 0, 0, 0⟩

def ImportPayload.sourceName (p : ImportPayload) : String :=
  let source := Js.trim (p.source.getD "")
  if source = "" then "импорт книги владельца" else source

/-- The stages before the contracts. -/
def importMoney (db : Db) (p : ImportPayload) : Db × Except Js.HttpError (ImportCount × ImportCount) :=
  match if p.contractors = [] then .ok (db, .zero) else importContractors db p.contractors with
  | .error e => (db, .error e)
  | .ok (db, contractors) =>
    match if p.flows = [] then .ok (db, .zero) else importFlows db p.flows with
    | .error e => (db, .error e)
    | .ok (db, flows) => (db, .ok (contractors, flows))

def importGloberent (db : Db) (p : ImportPayload) : Db × Except Js.HttpError ImportSummary :=
  match importMoney db p with
  | (db, .error e) => (db, .error e)
  | (db, .ok (contractors, flows)) =>
    match if p.contracts = [] then .ok (db, .zero)
      else importContracts db p.contracts p.sourceName p.contractsFinal p.contractsKeep with
    | .error e => (db, .error e)
    | .ok (db, contracts) => (db, .ok ⟨contractors, flows, contracts⟩)

/-! `unlinkForeignContractLinks`. -/

structure UnlinkForeignResult where
  unlinked : List (Option String × String)
  skipped : ℕ
  deriving DecidableEq

def Db.hasForeign (db : Db) (f : MoneyFlow) : Bool := db.contracts.any (isForeign f)

/-- `uuid` reads the text of an id. -/
def unlinkForeignContractLinks (uuid : String → Option ℕ) (db : Db) (flowIds : List String) :
    Except Js.HttpError (Db × UnlinkForeignResult) := do
  let ids := (OrderedMap.keySet (flowIds.map Js.trim)).filter (· ≠ "")
  let bad := ids.filter fun s => uuid s = none
  Js.require (bad = []) (.badRequest ("Не идентификаторы приходов: " ++ String.intercalate ", " (bad.take 3)))
  let asked := ids.filterMap uuid
  let before := db.foreignLinks.filter fun l =>
    (db.entities.any fun e => l.1.counterpartyId = some e.id) && db.entities.any fun e => l.2.clientId = some e.id
  let rows := db.flows.filter fun f => f.id ∈ asked && db.hasForeign f
  let flows := db.flows.map fun f => if f.id ∈ asked && db.hasForeign f then { f with contractId := none } else f
  let contractNo := fun (f : MoneyFlow) =>
    ((before.reverse.find? fun l => l.1.id = f.id).map fun l => l.2.contractNo).getD ""
  return ({ db with flows }, ⟨rows.map fun f => (f.docNo, contractNo f), ids.length - rows.length⟩)

end Mydon.Registry
