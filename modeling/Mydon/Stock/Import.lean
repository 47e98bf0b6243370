import Mydon.Stock.Batch
import Mathlib.Data.List.Infix

/-! The bulk import of batches, and its dry run. The dry run classifies every item against
the tables as they are; the real run does so against what its earlier items left. -/

namespace Mydon.Stock

open Mydon.Lib

structure ImportBatchItem where
  fileRow : ℚ
  ingredientId : Option String
  warehouseId : String
  qtyReceived : ℚ
  unit : String
  receivedOn : Option String
  supplier : Option String
  invoiceNo : Option String
  invoiceDate : Option String
  unitPriceGross : Option ℚ
  note : Option String
  name : Option String
  extId : Option String
  deriving DecidableEq

structure ImportBatchIssue where
  fileRow : ℚ
  name : Option String
  deriving DecidableEq

structure ImportBatchRejection where
  fileRow : ℚ
  name : Option String
  reason : String
  deriving DecidableEq

structure ImportBatchesReport where
  dryRun : Bool
  created : ℕ
  closed : ℕ
  closeOn : Option String
  skippedRepeat : ℕ
  noDate : List ImportBatchIssue
  unmatched : List ImportBatchIssue
  rejected : List ImportBatchRejection
  deriving DecidableEq

/-- What becomes of one item. -/
inductive ItemOutcome
  | unmatched
  | noDate
  | repeated
  | created
  | rejected (reason : String)
  deriving DecidableEq

def errorMessage : Js.HttpError → String
  | .badRequest message => message
  | .notFound message => message
  | .conflict message => message
  | .forbidden message => message
  | .internal message => message

/-- An empty close date closes nothing. -/
def closeDate (closeOn : Option String) : Option String := (closeOn.filter (Js.trim · ≠ "")).map Js.trim

variable (env : StockEnv) (source : String) (closeOn : Option String)

/-- The key of an item among those of its source. -/
def itemKey (item : ImportBatchItem) : String := item.extId.getD (env.host.numberText item.fileRow)

def batchInput (item : ImportBatchItem) : CreateBatchInput where
  ingredientId := item.ingredientId.getD ""
  warehouseId := item.warehouseId
  qtyReceived := item.qtyReceived
  unit := item.unit
  receivedOn := item.receivedOn
  batchCode := none
  expiryDate := none
  manufactureDate := none
  personId := none
  supplier := item.supplier
  invoiceNo := item.invoiceNo
  invoiceDate := item.invoiceDate
  ikpu := none
  unitPriceNet := none
  vatRate := none
  unitPriceGross := item.unitPriceGross
  note := item.note
  source := some source
  extId := some (itemKey env item)
  createdBy := some "import"
  clientKey := none
  closeOn

/-- The item says which card it is, and when it came. -/
def isMatched (item : ImportBatchItem) : Bool := isPresent item.ingredientId && isPresent item.receivedOn

def importItem (dryRun : Bool) (t : Tables) (item : ImportBatchItem) (ids : BatchIds) : ItemOutcome × Tables :=
  if !isPresent item.ingredientId then (.unmatched, t)
  else if !isPresent item.receivedOn then (.noDate, t)
  else
    let input := batchInput env source closeOn item
    match prepareBatch env t input with
    | .error e => (.rejected (errorMessage e), t)
    | .ok (.existing _) => (.repeated, t)
    | .ok (.new prep) =>
      if dryRun then (.created, t)
      else
        match writeBatch env t input prep ids with
        | (.error e, t) => (.rejected (errorMessage e), t)
        | (.ok _, t) => (.created, t)

/-- The loop over the items; the rows of the n-th get the n-th ids. -/
def importItems (dryRun : Bool) (ids : ℕ → BatchIds) : ℕ → Tables → List ImportBatchItem → List ItemOutcome × Tables
  | _, t, [] => ([], t)
  | n, t, item :: items =>
    let first := importItem env source closeOn dryRun t item (ids n)
    let rest := importItems dryRun ids (n + 1) first.2 items
    (first.1 :: rest.1, rest.2)

def addOutcome (report : ImportBatchesReport) (entry : ImportBatchItem × ItemOutcome) : ImportBatchesReport :=
  let (item, outcome) := entry
  match outcome with
  | .unmatched => { report with unmatched := report.unmatched ++ [⟨item.fileRow, item.name⟩] }
  | .noDate => { report with noDate := report.noDate ++ [⟨item.fileRow, item.name⟩] }
  | .repeated => { report with skippedRepeat := report.skippedRepeat + 1 }
  | .created =>
    { report with
      created := report.created + 1
      closed := if report.closeOn.isSome then report.closed + 1 else report.closed }
  | .rejected reason => { report with rejected := report.rejected ++ [⟨item.fileRow, item.name, reason⟩] }

def reportOf (dryRun : Bool) (items : List ImportBatchItem) (outcomes : List ItemOutcome) : ImportBatchesReport :=
  (items.zip outcomes).foldl addOutcome ⟨dryRun, 0, 0, closeOn, 0, [], [], []⟩

def importBatches (dryRun : Bool) (t : Tables) (items : List ImportBatchItem) (ids : ℕ → BatchIds) :
    Except Js.HttpError ImportBatchesReport × Tables :=
  if 500 < items.length then (.error (.badRequest "Пачка не может быть больше 500 строк за раз"), t)
  else
    let closeOn := closeDate closeOn
    let run := importItems env source closeOn dryRun ids 0 t items
    (.ok (reportOf closeOn dryRun items run.1), run.2)

/-! What the preparation of an item depends on. -/

section
variable {env : StockEnv} {source : String} {closeOn : Option String} {t t' : Tables} {item : ImportBatchItem}

/-- The batch can be read back: its expiry, if it has one, is a date. -/
def Readable (env : StockEnv) (b : StockBatch) : Prop := batchExpiry env b ≠ some none

def ReadableId (env : StockEnv) (t : Tables) (id : String) : Prop := ∀ b ∈ t.batches, b.id = id → Readable env b

theorem batchRow_of_readable {b : StockBatch} (h : Readable env b) : ∃ row, batchRow env t b = .ok row := by
  unfold batchRow
  rcases he : batchExpiry env b with _ | _ | at_
  · exact ⟨_, rfl⟩
  · exact absurd he h
  · exact ⟨_, rfl⟩

theorem batchRow_of_not_readable {b : StockBatch} (h : ¬ Readable env b) :
    batchRow env t b = .error (.internal "Invalid time value") := by
  unfold batchRow
  rw [not_not.mp h]
  rfl

theorem mapM_batchRow_of_readable {l : List StockBatch} (h : ∀ b ∈ l, Readable env b) :
    ∃ rows, l.mapM (batchRow env t) = .ok rows ∧ rows.length = l.length := by
  induction l with
  | nil => exact ⟨[], rfl, rfl⟩
  | cons b l ih =>
    obtain ⟨row, hrow⟩ := batchRow_of_readable (t := t) (h b List.mem_cons_self)
    obtain ⟨rows, hrows, hlength⟩ := ih fun b hb => h b (List.mem_cons_of_mem _ hb)
    refine ⟨row :: rows, ?_, by rw [List.length_cons, List.length_cons, hlength]⟩
    rw [List.mapM_cons, hrow, hrows]
    rfl

theorem mapM_batchRow_of_not_readable {l : List StockBatch} (h : ¬ ∀ b ∈ l, Readable env b) :
    l.mapM (batchRow env t) = .error (.internal "Invalid time value") := by
  induction l with
  | nil => exact absurd (List.forall_mem_nil _) h
  | cons b l ih =>
    rw [List.mapM_cons]
    by_cases hb : Readable env b
    · obtain ⟨row, hrow⟩ := batchRow_of_readable (t := t) hb
      rw [hrow, ih fun hl => h (List.forall_mem_cons.mpr ⟨hb, hl⟩)]
      rfl
    · rw [batchRow_of_not_readable hb]
      rfl

theorem filter_ids (id : String) :
    t.batches.filter (batchMatches ⟨none, none, some [id]⟩) = t.batches.filter (·.id = id) := by
  refine List.filter_congr fun b _ => ?_
  simp [batchMatches, isPresent]

theorem batchRowOf_of_readable {b : StockBatch} {id : String} (hb : b ∈ t.batches) (hid : b.id = id)
    (h : ReadableId env t id) : ∃ row, batchRowOf env t id = .ok (some row) := by
  subst hid
  unfold batchRowOf computeBatchRows
  rw [filter_ids]
  have hreadable : ∀ c ∈ t.batches.filter (·.id = b.id), Readable env c := by
    intro c hc
    rw [List.mem_filter, decide_eq_true_eq] at hc
    exact h c hc.1 hc.2
  obtain ⟨rows, hrows, hlength⟩ := mapM_batchRow_of_readable (t := t) hreadable
  rw [hrows]
  rcases rows with _ | ⟨row, rows⟩
  · have hmem : b ∈ t.batches.filter (·.id = b.id) := List.mem_filter.mpr ⟨hb, decide_eq_true rfl⟩
    rw [List.length_nil, eq_comm, List.length_eq_zero_iff] at hlength
    rw [hlength] at hmem
    cases hmem
  · exact ⟨row, rfl⟩

theorem batchRowOf_of_not_readable {id : String} (h : ¬ ReadableId env t id) :
    batchRowOf env t id = .error (.internal "Invalid time value") := by
  unfold batchRowOf computeBatchRows
  rw [filter_ids, mapM_batchRow_of_not_readable]
  · rfl
  · intro hall
    refine h fun b hb hid => hall b (List.mem_filter.mpr ⟨hb, decide_eq_true hid⟩)

/-- The row that an item would repeat. -/
def repeatedBatch (source : String) (t : Tables) (key : String) : Option StockBatch :=
  if key = "" then none else findExt t source key

theorem repeatedBatch_mem {key : String} {b : StockBatch} (h : repeatedBatch source t key = some b) :
    b ∈ t.batches ∧ b.source = source ∧ b.extId = some key ∧ key ≠ "" := by
  unfold repeatedBatch findExt at h
  split_ifs at h with hk
  have hb := List.find?_some h
  simp only [Bool.and_eq_true, decide_eq_true_eq] at hb
  exact ⟨List.mem_of_find?_eq_some h, hb.1, hb.2, hk⟩

theorem repeatedBatch_eq_none {key : String} :
    repeatedBatch source t key = none ↔ key = "" ∨ ∀ b ∈ t.batches, ¬ (b.source = source ∧ b.extId = some key) := by
  unfold repeatedBatch findExt
  split_ifs with hk
  · simp [hk]
  · simp [hk, List.find?_eq_none]

theorem repeatOfExtId_item :
    repeatOfExtId env t (batchInput env source closeOn item) =
      match repeatedBatch source t (itemKey env item) with
      | some b => batchRowOf env t b.id
      | none => .ok none := by
  have hkey : (batchInput env source closeOn item).extId = some (itemKey env item) := rfl
  have hsource : sourceOf (batchInput env source closeOn item) = source := rfl
  unfold repeatOfExtId repeatedBatch
  rw [hkey, hsource]
  by_cases hk : itemKey env item = ""
  · rw [Option.filter_some, if_neg (by simp [hk]), if_pos hk]
    rfl
  · rw [Option.filter_some, if_pos (by simp [hk]), if_neg hk, Option.bind_some]
    rcases findExt t source (itemKey env item) with _ | b <;> rfl

/-- An item is checked, then looked up by its key. -/
theorem prepareBatch_item :
    prepareBatch env t (batchInput env source closeOn item) =
      (do
        let c ← checkBatch env (batchInput env source closeOn item)
        let row ← match repeatedBatch source t (itemKey env item) with
          | some b => batchRowOf env t b.id
          | none => .ok none
        match row with
        | some row => .ok (.existing row)
        | none => .ok (.new (newBatch env (batchInput env source closeOn item) c.1 c.2.1 c.2.2))) := by
  have hclient : repeatOfClientKey env t (batchInput env source closeOn item) = .ok none := rfl
  unfold prepareBatch
  rw [hclient, repeatOfExtId_item]
  rcases checkBatch env (batchInput env source closeOn item) with e | ⟨packed, base, weight⟩
  · rfl
  · rcases repeatedBatch source t (itemKey env item) with _ | b
    · rfl
    · simp only [bind, Except.bind]
      rcases batchRowOf env t b.id with _ | _ | row <;> rfl

/-- An item that is prepared as new: it passes the checks, and no row has its key. -/
theorem prepareBatch_new {prep : NewBatch} :
    prepareBatch env t (batchInput env source closeOn item) = .ok (.new prep) ↔
      (∃ c, checkBatch env (batchInput env source closeOn item) = .ok c ∧
        prep = newBatch env (batchInput env source closeOn item) c.1 c.2.1 c.2.2) ∧
      repeatedBatch source t (itemKey env item) = none := by
  rw [prepareBatch_item]
  rcases checkBatch env (batchInput env source closeOn item) with e | c
  · simp [bind, Except.bind]
  · rcases hr : repeatedBatch source t (itemKey env item) with _ | b
    · simp [bind, Except.bind, eq_comm]
    · have hb := (repeatedBatch_mem hr).1
      by_cases hread : ReadableId env t b.id
      · obtain ⟨row, hrow⟩ := batchRowOf_of_readable hb rfl hread
        simp [bind, Except.bind, hrow]
      · simp [bind, Except.bind, batchRowOf_of_not_readable hread]

theorem prepareBatch_error {e : Js.HttpError}
    (h : checkBatch env (batchInput env source closeOn item) = .error e) :
    prepareBatch env t (batchInput env source closeOn item) = .error e := by
  rw [prepareBatch_item, h]
  rfl

theorem prepareBatch_existing {c : Packed × Option QtyUnit × Option ℚ} {b : StockBatch}
    (h : checkBatch env (batchInput env source closeOn item) = .ok c)
    (hr : repeatedBatch source t (itemKey env item) = some b) (hread : ReadableId env t b.id) :
    ∃ row, prepareBatch env t (batchInput env source closeOn item) = .ok (.existing row) := by
  obtain ⟨row, hrow⟩ := batchRowOf_of_readable (repeatedBatch_mem hr).1 rfl hread
  refine ⟨row, ?_⟩
  rw [prepareBatch_item, h, hr]
  simp [bind, Except.bind, hrow]

theorem prepareBatch_unreadable {c : Packed × Option QtyUnit × Option ℚ} {b : StockBatch}
    (h : checkBatch env (batchInput env source closeOn item) = .ok c)
    (hr : repeatedBatch source t (itemKey env item) = some b) (hread : ¬ ReadableId env t b.id) :
    prepareBatch env t (batchInput env source closeOn item) = .error (.internal "Invalid time value") := by
  rw [prepareBatch_item, h, hr]
  simp [bind, Except.bind, batchRowOf_of_not_readable hread]

/-! What a run makes of the tables. -/

/-- Batches are only ever added. -/
def Grows (t t' : Tables) : Prop := t.batches <+: t'.batches

theorem writeBatch_cases (env : StockEnv) (t : Tables) (input : CreateBatchInput) (prep : NewBatch) (ids : BatchIds) :
    (∃ e, writeBatchTx env t input prep ids = .error e ∧ writeBatch env t input prep ids = (.error e, t)) ∨
      ∃ t' result, writeBatchTx env t input prep ids = .ok t' ∧ writeBatch env t input prep ids = (result, t') ∧
        ((∃ row, result = .ok row) ↔ ReadableId env t' ids.batch) := by
  unfold writeBatch
  rcases hw : writeBatchTx env t input prep ids with e | t'
  · exact .inl ⟨e, rfl, rfl⟩
  · right
    obtain ⟨b, intake, closing, hb, _, _, _, _, _, _, rfl⟩ := writeBatchTx_eq_ok.mp hw
    have hid := (batchValues_id hb).1
    have hm : b ∈ (⟨t.batches ++ [b], t.journal ++ intake :: closing⟩ : Tables).batches :=
      List.mem_append_right _ (List.mem_singleton_self b)
    by_cases hread : ReadableId env ⟨t.batches ++ [b], t.journal ++ intake :: closing⟩ ids.batch
    · obtain ⟨row, hrow⟩ := batchRowOf_of_readable hm hid hread
      exact ⟨_, .ok row, rfl, by simp only [hrow], ⟨fun _ => hread, fun _ => ⟨row, rfl⟩⟩⟩
    · refine ⟨_, .error (.internal "Invalid time value"), rfl, by simp only [batchRowOf_of_not_readable hread], ?_⟩
      exact ⟨fun ⟨_, h⟩ => (nomatch h), fun h => absurd h hread⟩

/-! The cases of an item. -/

theorem importItem_unmatched {dryRun : Bool} {ids : BatchIds} (h : isMatched item = false) :
    importItem env source closeOn dryRun t item ids =
      (if !isPresent item.ingredientId then .unmatched else .noDate, t) := by
  unfold importItem
  unfold isMatched at h
  rcases hing : isPresent item.ingredientId with _ | _
  · rfl
  · rw [hing, Bool.true_and] at h
    rw [h]
    rfl

theorem importItem_matched {dryRun : Bool} {ids : BatchIds} (h : isMatched item = true) :
    importItem env source closeOn dryRun t item ids =
      match prepareBatch env t (batchInput env source closeOn item) with
      | .error e => (.rejected (errorMessage e), t)
      | .ok (.existing _) => (.repeated, t)
      | .ok (.new prep) =>
        if dryRun then (.created, t)
        else
          match writeBatch env t (batchInput env source closeOn item) prep ids with
          | (.error e, t) => (.rejected (errorMessage e), t)
          | (.ok _, t) => (.created, t) := by
  unfold isMatched at h
  rw [Bool.and_eq_true] at h
  unfold importItem
  rw [h.1, h.2]
  rfl

theorem importItem_dry {ids : BatchIds} : (importItem env source closeOn true t item ids).2 = t := by
  rcases hm : isMatched item with _ | _
  · rw [importItem_unmatched hm]
  · rw [importItem_matched hm]
    rcases prepareBatch env t (batchInput env source closeOn item) with e | row | prep <;> rfl

theorem importItem_grows {ids : BatchIds} : Grows t (importItem env source closeOn false t item ids).2 := by
  unfold Grows
  rcases hm : isMatched item with _ | _
  · rw [importItem_unmatched hm]
  · rw [importItem_matched hm]
    rcases prepareBatch env t (batchInput env source closeOn item) with e | row | prep
    · exact List.prefix_refl _
    · exact List.prefix_refl _
    · dsimp only
      rw [if_neg Bool.false_ne_true]
      rcases writeBatch_cases env t (batchInput env source closeOn item) prep ids with ⟨e, _, hw⟩ | ⟨t', result, htx, hw, _⟩
      · rw [hw]
      · obtain ⟨b, intake, closing, _, _, _, _, _, _, _, rfl⟩ := writeBatchTx_eq_ok.mp htx
        rw [hw]
        rcases result with e | row
        · exact List.prefix_append _ _
        · exact List.prefix_append _ _

/-- The item is matched, and prepared as a new batch. -/
def IsNew (env : StockEnv) (source : String) (closeOn : Option String) (t : Tables) (item : ImportBatchItem)
    (prep : NewBatch) : Prop :=
  isMatched item = true ∧ prepareBatch env t (batchInput env source closeOn item) = .ok (.new prep)

/-- Every column takes its value, and the row can be read back. -/
structure Storable (env : StockEnv) (input : CreateBatchInput) (prep : NewBatch) (ids : BatchIds) : Prop where
  batch : ∃ b, batchValues env input prep ids.batch = .ok b ∧ Readable env b
  intake : ∃ m, intakeValues env input prep ids = .ok m
  closing : ∃ rows, closingRows env input prep ids = .ok rows

/-- A row of the source has the key. -/
def HasKey (source : String) (t : Tables) (key : String) : Prop :=
  ∃ b ∈ t.batches, b.source = source ∧ b.extId = some key

theorem IsNew.of_grows {prep : NewBatch} (hg : Grows t t') (h : IsNew env source closeOn t' item prep) :
    IsNew env source closeOn t item prep := by
  obtain ⟨hc, hnone⟩ := prepareBatch_new.mp h.2
  refine ⟨h.1, prepareBatch_new.mpr ⟨hc, ?_⟩⟩
  rw [repeatedBatch_eq_none] at hnone ⊢
  rcases hnone with hk | hnone
  · exact .inl hk
  · exact .inr fun b hb => hnone b (hg.subset hb)

theorem IsNew.no_key {prep : NewBatch} (h : IsNew env source closeOn t item prep) (hk : itemKey env item ≠ "") :
    ¬ HasKey source t (itemKey env item) := by
  obtain ⟨_, hnone⟩ := prepareBatch_new.mp h.2
  rintro ⟨b, hb, hmatch⟩
  rcases repeatedBatch_eq_none.mp hnone with he | hnone
  · exact hk he
  · exact hnone b hb hmatch

/-- An item is created where it is new and stored. -/
theorem importItem_created {ids : BatchIds}
    (h : (importItem env source closeOn false t item ids).1 = .created) :
    (∃ prep, IsNew env source closeOn t item prep ∧
        Storable env (batchInput env source closeOn item) prep ids) ∧
      HasKey source (importItem env source closeOn false t item ids).2 (itemKey env item) := by
  rcases hm : isMatched item with _ | _
  · rw [importItem_unmatched hm] at h
    split_ifs at h
  rw [importItem_matched hm] at h ⊢
  rcases hp : prepareBatch env t (batchInput env source closeOn item) with e | row | prep
  · simp only [hp] at h
    cases h
  · simp only [hp] at h
    cases h
  · simp only [hp, Bool.false_eq_true, if_false] at h ⊢
    rcases writeBatch_cases env t (batchInput env source closeOn item) prep ids with ⟨e, _, hw⟩ | ⟨t', result, htx, hw, hread⟩
    · rw [hw] at h
      cases h
    · rw [hw] at h ⊢
      rcases result with e | row
      · cases h
      · obtain ⟨b, intake, closing, hb, _, hi, _, _, hc, _, rfl⟩ := writeBatchTx_eq_ok.mp htx
        obtain ⟨hid, _, _, _, _, hsource, hext, _⟩ := batchValues_id hb
        have hmem : b ∈ t.batches ++ [b] := List.mem_append_right _ (List.mem_singleton_self b)
        obtain ⟨⟨c, _, rfl⟩, _⟩ := prepareBatch_new.mp hp
        have hreadable : Readable env b := hread.mp ⟨row, rfl⟩ b hmem hid
        exact ⟨⟨_, ⟨hm, hp⟩, ⟨b, hb, hreadable⟩, ⟨intake, hi⟩, closing, hc⟩, b, hmem, hsource, hext⟩

end

end Mydon.Stock
