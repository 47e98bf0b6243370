import Mydon.Stock.Import

/-! The calls on the two tables besides the batches that come in: movements written by
hand, stocktakes, the returns from the machines, and the deletions. -/

namespace Mydon.Stock

open Mydon.Lib

def StockEnv.written (env : StockEnv) (id : String) : Written := ⟨id, Clock.dayText env.today, env.actor⟩

/-- The row of `createMovement`, as its columns store it. -/
def movementValues (env : StockEnv) (input : CreateMovementInput) (id : String) :
    Except Js.HttpError StockMovementRow := do
  let row ← movementRow env.cards input (env.written id)
  let dt ← dateColumn env row.dt
  return { row with dt }

def createMovement (env : StockEnv) (t : Tables) (input : CreateMovementInput) (id : String) :
    Except Js.HttpError StockMovementRow × Tables :=
  match movementValues env input id with
  | .error e => (.error e, t)
  | .ok row =>
    match insertJournal t row with
    | .error e => (.error e, t)
    | .ok (some row, t) => (.ok row, t)
    | .ok (none, t) =>
      (Js.orThrow (findKey t.journal row.clientKey)
        (.badRequest "Повтор движения ещё записывается — попробуй ещё раз через минуту"), t)

/-- A stocktake that nothing comes between. -/
def stocktake (env : StockEnv) (t : Tables) (input : StocktakeInput) (id : String) :
    Except Js.HttpError StocktakeResult × Tables :=
  match stocktakeRead env.cards t.journal input with
  | .error e => (.error e, t)
  | .ok call =>
    if call.delta = 0 then (.ok call.unchanged, t)
    else
      match call.row (env.written id) with
      | .error e => (.error e, t)
      | .ok row =>
        match insertJournal t row with
        | .error e => (.error e, t)
        | .ok (_, t') => (.ok (call.written t.journal row), t')

structure ReturnInput where
  ingredientId : String
  warehouseId : String
  qty : ℚ
  unit : String
  dt : String
  batchCode : String
  note : Option String
  clientKey : String
  createdBy : Option String
  deriving DecidableEq

structure ReturnResult where
  movement : StockMovementRow
  batchId : String
  replay : Bool
  deriving DecidableEq

/-- The checks of a return, and the base unit of its card. -/
def checkReturn (cards : List Entity) (input : ReturnInput) : Except Js.HttpError (Option QtyUnit) := do
  Js.require (0 < input.qty) (.badRequest "Количество возврата должно быть больше нуля")
  let unit ← Js.orThrow (QtyUnit.ofText input.unit) (.badRequest s!"Единица «{input.unit}» неизвестна")
  let ing ← stockCard cards input.ingredientId
  let _ ← cardOfType cards input.warehouseId "warehouse"
  let base := baseUnitOfCard ing
  Js.require (base.all fun base => unit = base ∨ convertQty input.qty unit base ≠ none)
    (.badRequest (let text := (base.map QtyUnit.text).getD ""
      s!"«{input.unit}» не перевести в базовую единицу ингредиента «{text}»"))
  return base

def isHexDigit (c : Char) : Bool := ('0' ≤ c && c ≤ '9') || ('a' ≤ c && c ≤ 'f')

/-- `/^person:([0-9a-f-]{36})$/`. -/
def personOf (actor : String) : Option String :=
  let id := actor.toList.drop 7
  if actor.toList.take 7 = "person:".toList ∧ id.length = 36 ∧ id.all (fun c => isHexDigit c || c == '-') then
    some (String.ofList id)
  else none

/-- The batch of a return: opened as it comes, so that it leaves first. -/
def returnBatch (env : StockEnv) (input : ReturnInput) (base : Option QtyUnit) (id : String) :
    Except Js.HttpError StockBatch := do
  let dt ← dateColumn env input.dt
  let qtyReceived ← numeric 14 3 input.qty
  let openedBy := (input.createdBy.getD "" |> personOf)
  Js.require (openedBy.all (· ∈ env.persons)) (.internal "violates foreign key constraint: stock_batch_opened_by_person_id_fk")
  return {
    id
    ingredientId := input.ingredientId
    warehouseId := input.warehouseId
    batchCode := some input.batchCode
    expiryDate := none
    manufactureDate := none
    receivedOn := dt
    qtyReceived
    unit := input.unit
    openedOn := some dt
    openedBy
    personId := none
    supplierId := none
    invoiceNo := none
    invoiceDate := none
    ikpu := none
    unitPriceNet := none
    vatRate := none
    unitPriceGross := none
    baseUnitSnapshot := base
    packageWeightSnapshot := none
    source := "coffee-return"
    extId := none
    note := input.note }

def returnValues (env : StockEnv) (input : ReturnInput) (batchId id : String) :
    Except Js.HttpError StockMovementRow := do
  let dt ← dateColumn env input.dt
  let qty ← numeric 14 3 input.qty
  return {
    id
    kind := .return
    ingredientId := input.ingredientId
    warehouseId := input.warehouseId
    counterpartyId := none
    batchId := some batchId
    dt
    qty
    unit := input.unit
    unitPrice := none
    total := none
    supplier := none
    source := "coffee-return"
    note := input.note
    clientKey := some input.clientKey
    createdBy := input.createdBy.getD env.actor }

def returnToStockTx (env : StockEnv) (t : Tables) (input : ReturnInput) (base : Option QtyUnit) (batchId id : String) :
    Except Js.HttpError (ReturnResult × Tables) := do
  let batch ← returnBatch env input base batchId
  let t ← insertBatch t batch
  let row ← returnValues env input batchId id
  let (movement, t) ← insertJournal t row
  let movement ← Js.orThrow movement (.badRequest "Повтор возврата ещё записывается — попробуй ещё раз через минуту")
  return (⟨movement, batchId, false⟩, t)

def returnToStock (env : StockEnv) (t : Tables) (input : ReturnInput) (batchId id : String) :
    Except Js.HttpError ReturnResult × Tables :=
  match checkReturn env.cards input with
  | .error e => (.error e, t)
  | .ok base =>
    match findKey t.journal (some input.clientKey) with
    | some dup => (.ok ⟨dup, dup.batchId.getD "", true⟩, t)
    | none =>
      match returnToStockTx env t input base batchId id with
      | .error e => (.error e, t)
      | .ok (result, t) => (.ok result, t)

/-! Deletions. `held` are the movements that rows of other tables refer to. -/

/-- `delete from stock_movement where id = ... and p returning *`. -/
def deleteMovement (held : List String) (t : Tables) (id : String) (p : StockMovementRow → Bool) :
    Except Js.HttpError (Option StockMovementRow × Tables) :=
  match t.journal.find? fun m => m.id = id && p m with
  | none => .ok (none, t)
  | some row => do
    Js.require (id ∉ held) (.internal "violates foreign key constraint: stock_movement_id_stock_movement_id_fk")
    return (some row, { t with journal := t.journal.filter fun m => !(m.id = id && p m) })

def removeReturn (held : List String) (t : Tables) (id : String) : Except Js.HttpError Unit × Tables :=
  match deleteMovement held t id (·.kind = .return) with
  | .error e => (.error e, t)
  | .ok (none, t) => (.ok (), t)
  | .ok (some row, t) =>
    match row.batchId with
    | none => (.ok (), t)
    | some batchId =>
      if t.journal.any (·.batchId = some batchId) then (.ok (), t)
      else (.ok (), { t with batches := t.batches.filter (·.id ≠ batchId) })

def removeMovement (held : List String) (t : Tables) (id : String) : Except Js.HttpError Unit × Tables :=
  match deleteMovement held t id (fun _ => true) with
  | .error e => (.error e, t)
  | .ok (none, t) => (.error (.notFound "Движения нет"), t)
  | .ok (some _, t) => (.ok (), t)

/-! What the calls write. -/

section
variable {env : StockEnv} {held : List String} {t t' : Tables}

theorem movementValues_eq_ok {input : CreateMovementInput} {id : String} {m : StockMovementRow}
    (h : movementValues env input id = .ok m) :
    m.kind = input.kind.toKind ∧ m.batchId = input.batchId := by
  unfold movementValues at h
  obtain ⟨row, hrow, h⟩ := Js.bind_eq_ok.mp h
  obtain ⟨dt, _, h⟩ := Js.bind_eq_ok.mp h
  cases h
  unfold movementRow at hrow
  simp only [Js.bind_eq_ok] at hrow
  obtain ⟨_, _, _, _, _, _, _, _, hrow⟩ := hrow
  cases hrow
  exact ⟨rfl, rfl⟩

/-- A movement is added, or its key or a check leaves the tables as they are. -/
theorem createMovement_cases (input : CreateMovementInput) (id : String) :
    (∃ m, movementValues env input id = .ok m ∧ FreshMovement t m ∧
        (createMovement env t input id).2 = { t with journal := t.journal ++ [m] }) ∨
      ((∀ m, movementValues env input id = .ok m → ¬ FreshMovement t m) ∧
        (createMovement env t input id).2 = t) := by
  unfold createMovement
  rcases hm : movementValues env input id with e | m
  · exact .inr ⟨fun _ h => (nomatch h), rfl⟩
  · dsimp only
    rcases hi : insertJournal t m with e | ⟨_ | row, s⟩
    · right
      refine ⟨fun m' hm' hf => ?_, rfl⟩
      cases hm'
      rw [insertJournal_eq_some.mpr ⟨hf, rfl, rfl⟩] at hi
      cases hi
    · right
      obtain ⟨_, rfl⟩ := insertJournal_eq_none.mp hi
      refine ⟨fun m' hm' hf => ?_, rfl⟩
      cases hm'
      rw [insertJournal_eq_some.mpr ⟨hf, rfl, rfl⟩] at hi
      cases hi
    · left
      obtain ⟨hf, _, rfl⟩ := insertJournal_eq_some.mp hi
      exact ⟨m, rfl, hf, rfl⟩

theorem stocktake_cases (input : StocktakeInput) (id : String) :
    (stocktake env t input id).2 = t ∨ ∃ m, m.kind = .adjustment ∧ m.batchId = none ∧ FreshMovement t m ∧
      (stocktake env t input id).2 = { t with journal := t.journal ++ [m] } := by
  unfold stocktake
  rcases stocktakeRead env.cards t.journal input with e | call
  · exact .inl rfl
  · dsimp only
    split_ifs with hd
    · exact .inl rfl
    · rcases hrow : call.row (env.written id) with e | m
      · exact .inl rfl
      · have hm : m.kind = .adjustment ∧ m.batchId = none := by
          obtain ⟨qty, _, rfl⟩ := Js.map_eq_ok.mp hrow
          exact ⟨rfl, rfl⟩
        dsimp only
        rcases hi : insertJournal t m with e | ⟨_ | row, s⟩
        · exact .inl rfl
        · left
          obtain ⟨_, rfl⟩ := insertJournal_eq_none.mp hi
          rfl
        · right
          obtain ⟨hf, _, rfl⟩ := insertJournal_eq_some.mp hi
          exact ⟨m, hm.1, hm.2, hf, rfl⟩

/-- A batch and the movement that takes it in agree. -/
structure TakenIn (m : StockMovementRow) (b : StockBatch) : Prop where
  ingredientId : m.ingredientId = b.ingredientId
  warehouseId : m.warehouseId = b.warehouseId
  unit : m.unit = b.unit
  qty : m.qty = b.qtyReceived

theorem returnToStock_cases (input : ReturnInput) (batchId id : String) :
    (returnToStock env t input batchId id).2 = t ∨ ∃ b m, TakenIn m b ∧ m.kind = .return ∧ m.batchId = some b.id ∧
      FreshBatch t b ∧ (∀ r ∈ t.journal, r.id ≠ m.id) ∧
      (returnToStock env t input batchId id).2 = ⟨t.batches ++ [b], t.journal ++ [m]⟩ := by
  unfold returnToStock
  rcases checkReturn env.cards input with e | base
  · exact .inl rfl
  · rcases findKey t.journal (some input.clientKey) with _ | dup
    · dsimp only
      rcases htx : returnToStockTx env t input base batchId id with e | ⟨result, s⟩
      · exact .inl rfl
      · right
        unfold returnToStockTx at htx
        simp only [Js.bind_eq_ok, Prod.exists, Js.orThrow_eq_ok] at htx
        obtain ⟨b, hb, s, hs, m, hm, row, s', hj, movement, rfl, h⟩ := htx
        cases h
        obtain ⟨hfb, rfl⟩ := insertBatch_eq_ok.mp hs
        obtain ⟨hfm, rfl, rfl⟩ := insertJournal_eq_some.mp hj
        unfold returnBatch at hb
        unfold returnValues at hm
        simp only [Js.bind_eq_ok] at hb hm
        obtain ⟨_, _, qty, hqty, _, _, hb⟩ := hb
        obtain ⟨_, _, qty', hqty', hm⟩ := hm
        rw [hqty] at hqty'
        cases hqty'
        cases hb
        cases hm
        exact ⟨_, _, ⟨rfl, rfl, rfl, rfl⟩, rfl, rfl, hfb, hfm.id, rfl⟩
    · exact .inl rfl

/-- The transaction of a new batch adds it with its intake, and with what closes it. -/
theorem writeBatchTx_takenIn {input : CreateBatchInput} {prep : NewBatch} {ids : BatchIds}
    (h : writeBatchTx env t input prep ids = .ok t') :
    ∃ b m closing, TakenIn m b ∧ m.kind = .intake ∧ m.batchId = some b.id ∧ FreshBatch t b ∧
      (∀ r ∈ t.journal, r.id ≠ m.id) ∧ closing.length ≤ 1 ∧
      (∀ c ∈ closing, c.kind = .consumption ∧ c.batchId = some b.id ∧ ∀ r ∈ t.journal ++ [m], r.id ≠ c.id) ∧
      t' = ⟨t.batches ++ [b], t.journal ++ m :: closing⟩ := by
  obtain ⟨b, m, closing, hb, hfresh, hm, _, hid, hc, hcf, rfl⟩ := writeBatchTx_eq_ok.mp h
  obtain ⟨hbid, hbing, hbwh, hbunit, hbqty, _⟩ := batchValues_id hb
  obtain ⟨hmid, hkind, hming, hmwh, hmbatch, hmunit, hmqty, _⟩ := intakeValues_eq_ok hm
  obtain ⟨hlen, hrows⟩ := closingRows_eq_ok hc
  rw [hbqty, Except.ok.injEq] at hmqty
  refine ⟨b, m, closing, ⟨hming.trans hbing.symm, hmwh.trans hbwh.symm, hmunit.trans hbunit.symm, hmqty.symm⟩, hkind,
    hbid ▸ hmbatch, hfresh, hmid ▸ hid, hlen, fun c hcm => ?_, rfl⟩
  obtain ⟨_, hckind, hcbatch, _⟩ := hrows c hcm
  exact ⟨hckind, hbid ▸ hcbatch, hcf c hcm⟩

theorem writeBatch_snd (input : CreateBatchInput) (prep : NewBatch) (ids : BatchIds) :
    (writeBatch env t input prep ids).2 = t ∨
      writeBatchTx env t input prep ids = .ok (writeBatch env t input prep ids).2 := by
  rcases writeBatch_cases env t input prep ids with ⟨e, _, hw⟩ | ⟨s, result, htx, hw, _⟩
  · exact .inl (by rw [hw])
  · exact .inr (by rw [htx, hw])

theorem deleteMovement_eq_ok {id : String} {p : StockMovementRow → Bool} {row : Option StockMovementRow} :
    deleteMovement held t id p = .ok (row, t') ↔
      row = t.journal.find? (fun m => m.id = id && p m) ∧ (row.isSome → id ∉ held) ∧
        t' = { t with journal := t.journal.filter fun m => !(m.id = id && p m) } := by
  unfold deleteMovement
  rcases hf : t.journal.find? (fun m => m.id = id && p m) with _ | r
  · have hkeep : t.journal.filter (fun m => !(m.id = id && p m)) = t.journal := by
      rw [List.filter_eq_self]
      intro m hm
      rw [Bool.not_eq_true', ← Bool.not_eq_true]
      exact List.find?_eq_none.mp hf m hm
    simp only [hf, hkeep]
    constructor
    · intro h
      cases h
      exact ⟨rfl, fun h => (nomatch h), rfl⟩
    · rintro ⟨rfl, _, rfl⟩
      rfl
  · simp only [hf, Js.bind_eq_ok, Js.require_eq_ok, exists_and_left, exists_const, pure, Except.pure, Except.ok.injEq,
      Prod.mk.injEq]
    constructor
    · rintro ⟨hheld, rfl, rfl⟩
      exact ⟨rfl, fun _ => hheld, rfl⟩
    · rintro ⟨rfl, hheld, rfl⟩
      exact ⟨hheld rfl, rfl, rfl⟩

end

end Mydon.Stock
