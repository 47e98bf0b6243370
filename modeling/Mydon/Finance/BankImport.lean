import Mydon.Finance.Flows
import Mydon.Lib.ItemByItem

/-! The import of a bank statement: row by row, with a rehearsal that writes nothing. -/

namespace Mydon.Finance

open Mydon.Lib Mydon.Stock

structure ImportBankStatementItem where
  date : String
  debit : Option ℚ
  credit : Option ℚ
  purpose : Option String
  cashSymbol : Option String
  docNo : Option String
  extId : String
  fileRow : Option ℕ
  deriving DecidableEq

/-- A row of `money_flow`, in the columns an import writes and reads. -/
structure BankFlow where
  source : String
  extId : Option String
  direction : Direction
  amount : ℚ
  date : ℤ
  purpose : Option String
  cashSymbol : Option String
  docNo : Option String
  deriving DecidableEq

structure ImportRejection where
  extId : String
  fileRow : Option ℕ
  reason : String
  deriving DecidableEq

structure ImportBankStatementReport where
  dryRun : Bool
  created : ℕ
  skippedRepeat : ℕ
  rejected : List ImportRejection
  deriving DecidableEq

structure BankEnv where
  /-- `new Date(s)`, when that is a date. -/
  parseDate : String → Option ℤ
  /-- The rows of an index are limited in size. -/
  indexFits : String → Bool

/-! One row. -/

/-- The credit is looked at first. -/
def turnover (item : ImportBankStatementItem) : Option (Direction × ℚ) :=
  match item.credit.filter (0 < ·) with
  | some credit => some (.incoming, credit)
  | none => (item.debit.filter (0 < ·)).map fun debit => (.outgoing, debit)

def withoutNul (s : String) : Bool := s.toList.all (· ≠ Char.ofNat 0)

/-- The database takes no text with `U+0000`. -/
def bindText (s : String) : Except Js.HttpError Unit :=
  Js.require (withoutNul s) (.internal "invalid byte sequence for encoding \"UTF8\": 0x00")

def isKnown (table : List BankFlow) (extId : String) : Bool :=
  table.any fun f => f.source = "bank" && f.extId = some extId

/-- Whether the row is there already; an empty `extId` is not looked up. The other checks of `prepareFlow` let
every payment in sums pass. -/
def prepareBank (table : List BankFlow) (extId : String) : Except Js.HttpError Bool := do
  if extId = "" then return false
  bindText extId
  return isKnown table extId

def writeBank (env : BankEnv) (table : List BankFlow) (item : ImportBankStatementItem) (direction : Direction) (amount : ℚ) :
    Except Js.HttpError BankFlow := do
  let date ← Js.orThrow (env.parseDate item.date) (.internal "Invalid time value")
  bindText item.extId
  bindText (item.purpose.getD "")
  bindText (item.cashSymbol.getD "")
  bindText (item.docNo.getD "")
  let amount ← numeric 18 2 amount
  Js.require (env.indexFits item.extId) (.internal "index row size exceeds btree version 4 maximum 2704")
  Js.require (isKnown table item.extId = false)
    (.internal "duplicate key value violates unique constraint \"money_flow_source_ext_key\"")
  return ⟨"bank", some item.extId, direction, amount, date, item.purpose, item.cashSymbol, item.docNo⟩

def errorMessage : Js.HttpError → String
  | .badRequest message => message
  | .notFound message => message
  | .conflict message => message
  | .forbidden message => message
  | .internal message => message

inductive ItemResult
  | created
  | repeated
  | rejected (reason : String)
  deriving DecidableEq

/-- The body of the loop: what becomes of the row, and the table after it. -/
def importBankItem (env : BankEnv) (dryRun : Bool) (table : List BankFlow) (item : ImportBankStatementItem) :
    ItemResult × List BankFlow :=
  match turnover item with
  | none => (.rejected "нет оборота ни по дебету, ни по кредиту — строку не с чем сопоставить", table)
  | some (direction, amount) =>
    match prepareBank table item.extId with
    | .error e => (.rejected (errorMessage e), table)
    | .ok true => (.repeated, table)
    | .ok false =>
      if dryRun then (.created, table)
      else
        match writeBank env table item direction amount with
        | .error e => (.rejected (errorMessage e), table)
        | .ok row => (.created, table ++ [row])

def importBankItems (env : BankEnv) (dryRun : Bool) (table : List BankFlow) :
    List ImportBankStatementItem → List ItemResult × List BankFlow
  | [] => ([], table)
  | item :: items =>
    let (result, table) := importBankItem env dryRun table item
    let (results, table) := importBankItems env dryRun table items
    (result :: results, table)

def rejection (item : ImportBankStatementItem) (result : ItemResult) : Option ImportRejection :=
  match result with
  | .rejected reason => some ⟨item.extId, item.fileRow, reason⟩
  | _ => none

def reportOf (dryRun : Bool) (items : List ImportBankStatementItem) (results : List ItemResult) :
    ImportBankStatementReport where
  dryRun := dryRun
  created := results.count .created
  skippedRepeat := results.count .repeated
  rejected := (items.zip results).filterMap fun (item, result) => rejection item result

def BANK_IMPORT_LIMIT : ℕ := 3000

def importBankStatement (env : BankEnv) (dryRun : Bool) (items : List ImportBankStatementItem) (table : List BankFlow) :
    Except Js.HttpError (ImportBankStatementReport × List BankFlow) := do
  Js.require (items.length ≤ BANK_IMPORT_LIMIT)
    (.badRequest s!"Пачка не может быть больше 3000 строк за раз (пришло {items.length})")
  let (results, table) := importBankItems env dryRun table items
  return (reportOf dryRun items results, table)

/-! What one row can do. -/

variable {env : BankEnv} {table table' rows : List BankFlow} {item : ImportBankStatementItem}
  {items : List ImportBankStatementItem} {results : List ItemResult} {direction : Direction} {amount : ℚ} {row : BankFlow}

/-- The database takes the row, were it not for its key. -/
structure Storable (env : BankEnv) (item : ImportBankStatementItem) (amount : ℚ) : Prop where
  date : (env.parseDate item.date).isSome = true
  extId : withoutNul item.extId = true
  purpose : withoutNul (item.purpose.getD "") = true
  cashSymbol : withoutNul (item.cashSymbol.getD "") = true
  docNo : withoutNul (item.docNo.getD "") = true
  amount : ∃ stored, numeric 18 2 amount = .ok stored
  index : env.indexFits item.extId = true

/-- The row that is written for an item. -/
structure WrittenFor (env : BankEnv) (item : ImportBankStatementItem) (row : BankFlow) : Prop where
  source : row.source = "bank"
  extId : row.extId = some item.extId
  turnover : ∃ amount, turnover item = some (row.direction, amount) ∧ Storable env item amount ∧
    numeric 18 2 amount = .ok row.amount

theorem writeBank_eq_ok (hturnover : turnover item = some (direction, amount))
    (h : writeBank env table item direction amount = .ok row) :
    WrittenFor env item row ∧ isKnown table item.extId = false := by
  obtain ⟨date, hdate, h⟩ := Js.bind_eq_ok.mp h
  obtain ⟨_, hextId, h⟩ := Js.bind_eq_ok.mp h
  obtain ⟨_, hpurpose, h⟩ := Js.bind_eq_ok.mp h
  obtain ⟨_, hsymbol, h⟩ := Js.bind_eq_ok.mp h
  obtain ⟨_, hdoc, h⟩ := Js.bind_eq_ok.mp h
  obtain ⟨stored, hnumeric, h⟩ := Js.bind_eq_ok.mp h
  obtain ⟨_, hindex, h⟩ := Js.bind_eq_ok.mp h
  obtain ⟨_, hkey, h⟩ := Js.bind_eq_ok.mp h
  obtain rfl := Except.ok.inj h
  refine ⟨⟨rfl, rfl, amount, hturnover, ⟨?_, Js.require_eq_ok.mp hextId, Js.require_eq_ok.mp hpurpose,
    Js.require_eq_ok.mp hsymbol, Js.require_eq_ok.mp hdoc, ⟨stored, hnumeric⟩, Js.require_eq_ok.mp hindex⟩, hnumeric⟩,
    Js.require_eq_ok.mp hkey⟩
  rw [Js.orThrow_eq_ok.mp hdate]
  rfl

theorem exists_writeBank (h : Storable env item amount) (hkey : isKnown table item.extId = false) :
    ∃ row, writeBank env table item direction amount = .ok row := by
  obtain ⟨date, hdate⟩ := Option.isSome_iff_exists.mp h.date
  obtain ⟨stored, hstored⟩ := h.amount
  refine ⟨⟨"bank", some item.extId, direction, stored, date, item.purpose, item.cashSymbol, item.docNo⟩, ?_⟩
  unfold writeBank bindText
  simp only [hdate, h.extId, h.purpose, h.cashSymbol, h.docNo, hstored, h.index, hkey, Js.orThrow, Js.require, if_true]
  rfl

/-- A row with money whose key is not found. -/
def isNew (table : List BankFlow) (item : ImportBankStatementItem) : Bool :=
  (turnover item).isSome && (prepareBank table item.extId).toOption = some false

/-- What the rehearsal says of the row. -/
def rehearsed (env : BankEnv) (table : List BankFlow) (item : ImportBankStatementItem) : ItemResult :=
  (importBankItem env true table item).1

theorem importBankItem_dry (item : ImportBankStatementItem) :
    importBankItem env true table item = (rehearsed env table item, table) := by
  unfold rehearsed importBankItem
  rcases turnover item with _ | ⟨direction, amount⟩
  · rfl
  · rcases prepareBank table item.extId with e | known
    · rfl
    · cases known <;> rfl

theorem rehearsed_eq_created_iff : rehearsed env table item = .created ↔ isNew table item = true := by
  unfold rehearsed isNew importBankItem
  rcases turnover item with _ | ⟨direction, amount⟩
  · simp
  · rcases prepareBank table item.extId with e | known
    · simp [Except.toOption]
    · cases known <;> simp [Except.toOption]

/-- A row that is not new is treated as in the rehearsal. -/
theorem importBankItem_of_not_new {dryRun : Bool} (h : isNew table item = false) :
    importBankItem env dryRun table item = (rehearsed env table item, table) := by
  unfold isNew at h
  unfold rehearsed importBankItem
  rcases hturnover : turnover item with _ | ⟨direction, amount⟩
  · rfl
  · rcases hprepare : prepareBank table item.extId with e | known
    · rfl
    · cases known
      · simp [hturnover, hprepare, Except.toOption] at h
      · rfl

/-- A new row is written, or the database refuses it. -/
theorem importBankItem_of_new (h : isNew table item = true) :
    (∃ row, WrittenFor env item row ∧ isKnown table item.extId = false ∧
        importBankItem env false table item = (.created, table ++ [row])) ∨
      ∃ reason, importBankItem env false table item = (.rejected reason, table) := by
  unfold isNew at h
  unfold importBankItem
  rcases hturnover : turnover item with _ | ⟨direction, amount⟩
  · rw [hturnover] at h
    cases h
  · rcases hprepare : prepareBank table item.extId with e | known
    · rw [hprepare] at h
      simp [Except.toOption] at h
    · cases known
      · rcases hwrite : writeBank env table item direction amount with e | row
        · refine .inr ⟨errorMessage e, ?_⟩
          simp [hwrite]
        · obtain ⟨hfor, hkey⟩ := writeBank_eq_ok hturnover hwrite
          refine .inl ⟨row, hfor, hkey, ?_⟩
          simp [hwrite]
      · rw [hprepare] at h
        simp [Except.toOption] at h

theorem importBankItem_of_storable (h : isNew table item = true) (hturnover : turnover item = some (direction, amount))
    (hstorable : Storable env item amount) (hkey : isKnown table item.extId = false) :
    ∃ row, WrittenFor env item row ∧ importBankItem env false table item = (.created, table ++ [row]) := by
  obtain ⟨row, hrow⟩ := @exists_writeBank _ _ _ direction _ hstorable hkey
  refine ⟨row, (writeBank_eq_ok hturnover hrow).1, ?_⟩
  unfold isNew at h
  unfold importBankItem
  rcases hprepare : prepareBank table item.extId with e | known
  · rw [hprepare, hturnover] at h
    simp [Except.toOption] at h
  · cases known
    · simp [hturnover, hrow]
    · rw [hprepare, hturnover] at h
      simp [Except.toOption] at h

/-! A whole list. -/

/-- Where no row changes the table the results are those of the single rows. -/
theorem importBankItems_of_still {dryRun : Bool} {f : ImportBankStatementItem → ItemResult}
    (h : ∀ item ∈ items, importBankItem env dryRun table item = (f item, table)) :
    importBankItems env dryRun table items = (items.map f, table) := by
  induction items with
  | nil => rfl
  | cons item items ih =>
    unfold importBankItems
    rw [h item List.mem_cons_self]
    dsimp only
    rw [ih fun item hitem => h item (List.mem_cons_of_mem _ hitem)]
    rfl

theorem importBankItems_dry (items : List ImportBankStatementItem) :
    importBankItems env true table items = (items.map (rehearsed env table), table) :=
  importBankItems_of_still fun item _ => importBankItem_dry item

/-- The items reported as created. -/
def createdOf (items : List ImportBankStatementItem) (results : List ItemResult) : List ImportBankStatementItem :=
  (items.zip results).filterMap fun (item, result) => if result = .created then some item else none

theorem createdOf_cons (item : ImportBankStatementItem) (result : ItemResult) :
    createdOf (item :: items) (result :: results) =
      if result = .created then item :: createdOf items results else createdOf items results := by
  unfold createdOf
  rw [List.zip_cons_cons, List.filterMap_cons]
  split_ifs with h <;> simp [h]

theorem isKnown_append (table rows : List BankFlow) (extId : String) :
    isKnown (table ++ rows) extId = (isKnown table extId || isKnown rows extId) := List.any_append

theorem prepareBank_eq (table : List BankFlow) (extId : String) : prepareBank table extId =
    if extId = "" then .ok false
    else if withoutNul extId then .ok (isKnown table extId)
    else .error (.internal "invalid byte sequence for encoding \"UTF8\": 0x00") := by
  unfold prepareBank bindText Js.require
  split_ifs <;> rfl

theorem isNew_iff : isNew table item = true ↔
    (turnover item).isSome = true ∧ (item.extId = "" ∨ withoutNul item.extId = true ∧ isKnown table item.extId = false) := by
  unfold isNew
  rw [prepareBank_eq, Bool.and_eq_true, decide_eq_true_eq]
  by_cases hempty : item.extId = ""
  · simp [hempty, Except.toOption]
  · by_cases hnul : withoutNul item.extId = true
    · simp [hempty, hnul, Except.toOption]
    · simp [hempty, hnul, Except.toOption]

/-- What is new beside more rows is new without them. -/
theorem isNew_of_append (h : isNew (table ++ rows) item = true) : isNew table item = true := by
  rw [isNew_iff, isKnown_append, Bool.or_eq_false_iff] at h
  rw [isNew_iff]
  exact ⟨h.1, h.2.imp_right fun hkey => ⟨hkey.1, hkey.2.1⟩⟩

/-- More rows do not change what becomes of an item that is not new. -/
theorem rehearsed_append (h : isNew table item = false) : rehearsed env (table ++ rows) item = rehearsed env table item := by
  have hnot := mt isNew_iff.mpr (Bool.eq_false_iff.mp h)
  unfold rehearsed importBankItem
  rcases hturnover : turnover item with _ | ⟨direction, amount⟩
  · rfl
  · rw [hturnover] at hnot
    rw [prepareBank_eq, prepareBank_eq, isKnown_append]
    by_cases hempty : item.extId = ""
    · exact absurd ⟨rfl, .inl hempty⟩ hnot
    · rw [if_neg hempty, if_neg hempty]
      by_cases hnul : withoutNul item.extId = true
      · have hknown : isKnown table item.extId = true := by
          rw [← Bool.not_eq_false]
          exact fun hunknown => hnot ⟨rfl, .inr ⟨hnul, hunknown⟩⟩
        rw [hknown, Bool.true_or, if_pos hnul]
      · rw [if_neg hnul, if_neg hnul]

/-- What a run has written: one row for each item it reports as created, all of keys that were not there. -/
structure Imported (env : BankEnv) (table : List BankFlow) (items : List ImportBankStatementItem)
    (results : List ItemResult) (rows : List BankFlow) : Prop where
  length : results.length = items.length
  written : List.Forall₂ (WrittenFor env) (createdOf items results) rows
  keys : (rows.map BankFlow.extId).Nodup
  fresh : ∀ item ∈ createdOf items results, isKnown table item.extId = false
  new : (createdOf items results).Sublist (items.filter (isNew table))

theorem isKnown_of_writtenFor {e : ImportBankStatementItem} (h : WrittenFor env e row) (hmem : row ∈ rows) :
    isKnown rows e.extId = true :=
  List.any_eq_true.mpr ⟨row, hmem, by simp [h.source, h.extId]⟩

theorem importBankItems_imported (table : List BankFlow) (items : List ImportBankStatementItem) :
    ∃ rows, (importBankItems env false table items).2 = table ++ rows ∧
      Imported env table items (importBankItems env false table items).1 rows := by
  induction items generalizing table with
  | nil => exact ⟨[], (List.append_nil table).symm, rfl, .nil, List.nodup_nil, List.forall_mem_nil _, List.Sublist.refl _⟩
  | cons item items ih =>
    have hstay : ∀ result, importBankItem env false table item = (result, table) → result ≠ .created →
        ∃ rows, (importBankItems env false table (item :: items)).2 = table ++ rows ∧
          Imported env table (item :: items) (importBankItems env false table (item :: items)).1 rows := by
      intro result heq hne
      obtain ⟨rows, htable, hin⟩ := ih table
      refine ⟨rows, ?_, ?_⟩
      · unfold importBankItems
        rw [heq]
        exact htable
      · unfold importBankItems
        rw [heq]
        have hcreated := @createdOf_cons items (importBankItems env false table items).1 item result
        rw [if_neg hne] at hcreated
        refine ⟨?_, ?_, hin.keys, ?_, ?_⟩
        · rw [List.length_cons, hin.length, List.length_cons]
        · rw [hcreated]
          exact hin.written
        · rw [hcreated]
          exact hin.fresh
        · rw [hcreated]
          exact hin.new.trans ((List.sublist_cons_self item items).filter _)
    by_cases hnew : isNew table item = true
    · rcases @importBankItem_of_new env _ _ hnew with ⟨row, hfor, hkey, heq⟩ | ⟨reason, heq⟩
      · obtain ⟨rows, htable, hin⟩ := ih (table ++ [row])
        have hcreated := @createdOf_cons items (importBankItems env false (table ++ [row]) items).1 item .created
        rw [if_pos rfl] at hcreated
        refine ⟨row :: rows, ?_, ?_⟩
        · unfold importBankItems
          rw [heq]
          rw [htable, List.append_assoc, List.singleton_append]
        · unfold importBankItems
          rw [heq]
          refine ⟨?_, ?_, ?_, ?_, ?_⟩
          · rw [List.length_cons, hin.length, List.length_cons]
          · rw [hcreated]
            exact .cons hfor hin.written
          · rw [List.map_cons, List.nodup_cons]
            refine ⟨fun hmem => ?_, hin.keys⟩
            obtain ⟨other, hother, hsame⟩ := List.mem_map.mp hmem
            obtain ⟨e, he, hwritten⟩ := Lib.exists_of_mem_right hin.written hother
            have hfresh := hin.fresh e he
            rw [isKnown_append, Bool.or_eq_false_iff] at hfresh
            have hknown : isKnown [row] e.extId = true :=
              List.any_eq_true.mpr ⟨row, List.mem_singleton_self row, by simp [hfor.source, ← hsame, hwritten.extId]⟩
            rw [hknown] at hfresh
            cases hfresh.2
          · rw [hcreated]
            intro e he
            rcases List.mem_cons.mp he with rfl | he
            · exact hkey
            · have hfresh := hin.fresh e he
              rw [isKnown_append, Bool.or_eq_false_iff] at hfresh
              exact hfresh.1
          · rw [hcreated, List.filter_cons_of_pos hnew]
            exact (hin.new.trans (List.monotone_filter_right _ fun _ => isNew_of_append)).cons_cons item
      · exact hstay _ heq (by intro h; cases h)
    · rw [Bool.not_eq_true] at hnew
      refine hstay _ (importBankItem_of_not_new hnew) fun hcreated => ?_
      rw [rehearsed_eq_created_iff.mp hcreated] at hnew
      cases hnew

/-! The rehearsal and the run. -/

/-- What an item moves, by its own figures. -/
def netOf (item : ImportBankStatementItem) : ℚ := item.credit.getD 0 - item.debit.getD 0

def BankFlow.signed (f : BankFlow) : ℚ :=
  match f.direction with
  | .incoming => f.amount
  | .outgoing => -f.amount

/-- The second run skips what was created before. -/
def again : ItemResult → ItemResult
  | .created => .repeated
  | result => result

/-- The rehearsal tells what the run does, the run moves what the items say, and a second run does nothing. -/
structure ImportRight (env : BankEnv) (table : List BankFlow) (items : List ImportBankStatementItem)
    (results : List ItemResult) (table' : List BankFlow) : Prop where
  /-- The rehearsal writes nothing and reports the same. -/
  rehearsal : ∃ dry real, importBankStatement env true items table = .ok (dry, table) ∧
    importBankStatement env false items table = .ok (real, table') ∧ real = reportOf false items results ∧
      dry.created = real.created ∧ dry.skippedRepeat = real.skippedRepeat ∧ dry.rejected = real.rejected
  /-- At most one flow for each `extId`. -/
  once : ((table'.drop table.length).map BankFlow.extId).Nodup
  money : ((table'.drop table.length).map BankFlow.signed).sum = ((createdOf items results).map netOf).sum
  second : importBankItems env false table' items = (results.map again, table')

/-- The turnover that the run leaves out of an item: its other side, and what the column rounds away. -/
def leftOut (item : ImportBankStatementItem) : ℚ :=
  match turnover item with
  | none => 0
  | some (.incoming, amount) => netOf item - (numeric 18 2 amount).toOption.getD 0
  | some (.outgoing, amount) => netOf item + (numeric 18 2 amount).toOption.getD 0

/-- The new items have keys of their own, the database takes them, and what is left out of them cancels. -/
structure Importable (env : BankEnv) (table : List BankFlow) (items : List ImportBankStatementItem) : Prop where
  distinct : ((items.filter (isNew table)).map ImportBankStatementItem.extId).Nodup
  named : ∀ item ∈ items, isNew table item = true → item.extId ≠ ""
  storable : ∀ item ∈ items, isNew table item = true → ∀ direction amount, turnover item = some (direction, amount) →
    Storable env item amount
  money : ((items.filter (isNew table)).map leftOut).sum = 0

theorem WrittenFor.signed_eq {e : ImportBankStatementItem} (h : WrittenFor env e row) : row.signed = netOf e - leftOut e := by
  obtain ⟨amount, hturnover, -, hnumeric⟩ := h.turnover
  unfold BankFlow.signed leftOut
  rw [hturnover]
  rcases row.direction with _ | _
  · dsimp only
    rw [hnumeric]
    exact (sub_sub_cancel _ _).symm
  · dsimp only
    rw [hnumeric]
    change -row.amount = netOf e - (netOf e + row.amount)
    ring

/-- The run moves what its items say but for what it leaves out. -/
theorem sum_signed {created : List ImportBankStatementItem} (h : List.Forall₂ (WrittenFor env) created rows) :
    (rows.map BankFlow.signed).sum = (created.map netOf).sum - (created.map leftOut).sum := by
  induction h with
  | nil => simp
  | cons hrow _ ih =>
    rw [List.map_cons, List.sum_cons, ih, hrow.signed_eq, List.map_cons, List.sum_cons, List.map_cons, List.sum_cons]
    ring

theorem extIds_eq {created : List ImportBankStatementItem} (h : List.Forall₂ (WrittenFor env) created rows) :
    rows.map BankFlow.extId = created.map fun e => some e.extId := by
  induction h with
  | nil => rfl
  | cons hrow _ ih => rw [List.map_cons, List.map_cons, ih, hrow.extId]

theorem count_rehearsed (items : List ImportBankStatementItem) :
    (items.map (rehearsed env table)).count .created = (items.filter (isNew table)).length := by
  rw [List.count_eq_countP, List.countP_map, List.countP_eq_length_filter]
  congr 1
  apply List.filter_congr
  intro item _
  rw [Bool.eq_iff_iff, Function.comp_apply, beq_iff_eq, rehearsed_eq_created_iff]

theorem count_created (hlength : results.length = items.length) : results.count .created = (createdOf items results).length := by
  induction items generalizing results with
  | nil =>
    rw [List.length_eq_zero_iff.mp hlength]
    rfl
  | cons item items ih =>
    obtain ⟨result, results, rfl⟩ := List.exists_cons_of_length_eq_add_one hlength
    rw [createdOf_cons, List.count_cons, ih (Nat.succ.inj hlength)]
    by_cases h : result = .created <;> simp [h]

theorem importBankStatement_eq (hlen : items.length ≤ BANK_IMPORT_LIMIT) (dryRun : Bool) :
    importBankStatement env dryRun items table = .ok (reportOf dryRun items (importBankItems env dryRun table items).1,
      (importBankItems env dryRun table items).2) := by
  unfold importBankStatement
  rw [Js.require, if_pos hlen]
  rfl

/-- Where the new items have distinct keys and can be stored, the run follows the rehearsal. -/
theorem importBankItems_of_storable {rows : List BankFlow}
    (hdistinct : ((items.filter (isNew table)).map ImportBankStatementItem.extId).Nodup)
    (hstorable : ∀ item ∈ items, isNew table item = true → ∀ direction amount,
      turnover item = some (direction, amount) → Storable env item amount)
    (hnamed : ∀ item ∈ items, isNew table item = true → item.extId ≠ "")
    (hfresh : ∀ item ∈ items, isNew table item = true → isKnown rows item.extId = false) :
    (importBankItems env false (table ++ rows) items).1 = items.map (rehearsed env table) := by
  induction items generalizing rows with
  | nil => rfl
  | cons item items ih =>
    have hstep : ∀ rows' result, importBankItem env false (table ++ rows) item = (result, table ++ rows') →
        rehearsed env table item = result →
        (∀ other ∈ items, isNew table other = true → isKnown rows' other.extId = false) →
        (importBankItems env false (table ++ rows) (item :: items)).1 = (item :: items).map (rehearsed env table) := by
      intro rows' result heq hresult hfresh'
      unfold importBankItems
      rw [heq]
      dsimp only
      rw [ih (hdistinct.sublist (((List.sublist_cons_self item items).filter _).map _))
        (fun other hother => hstorable other (List.mem_cons_of_mem _ hother))
        (fun other hother => hnamed other (List.mem_cons_of_mem _ hother)) hfresh', List.map_cons, hresult]
    have hfreshItems := fun other (hother : other ∈ items) => hfresh other (List.mem_cons_of_mem _ hother)
    by_cases hnew : isNew table item = true
    · obtain ⟨hsome, hkey⟩ := isNew_iff.mp hnew
      obtain ⟨⟨direction, amount⟩, hturnover⟩ := Option.isSome_iff_exists.mp hsome
      have hunknown := hfresh item List.mem_cons_self hnew
      have hstore := hstorable item List.mem_cons_self hnew direction amount hturnover
      have hnew' : isNew (table ++ rows) item = true := by
        rw [isNew_iff, isKnown_append, hunknown, Bool.or_false]
        exact ⟨hsome, hkey⟩
      have hunknown' : isKnown (table ++ rows) item.extId = false := by
        rw [isKnown_append, hunknown, Bool.or_false]
        exact (hkey.resolve_left (hnamed item List.mem_cons_self hnew)).2
      obtain ⟨row, hrow, heq⟩ := importBankItem_of_storable hnew' hturnover hstore hunknown'
      rw [List.append_assoc] at heq
      refine hstep _ _ heq (rehearsed_eq_created_iff.mpr hnew) fun other hother hotherNew => ?_
      rw [isKnown_append, hfreshItems other hother hotherNew, Bool.false_or]
      -- The keys of the new items are distinct, so the row is not the other item's.
      have hne : item.extId ≠ other.extId := by
        rw [List.filter_cons_of_pos hnew, List.map_cons, List.nodup_cons] at hdistinct
        intro hsame
        exact hdistinct.1 (hsame ▸ List.mem_map_of_mem (List.mem_filter.mpr ⟨hother, hotherNew⟩))
      simp [isKnown, hrow.extId, hne]
    · rw [Bool.not_eq_true] at hnew
      have hnew' : isNew (table ++ rows) item = false := by
        rw [Bool.eq_false_iff] at hnew ⊢
        exact mt isNew_of_append hnew
      refine hstep rows _ (importBankItem_of_not_new hnew') (rehearsed_append hnew).symm hfreshItems

/-- A row without a key is never found. -/
theorem ne_repeated_of_empty {dryRun : Bool} {result : ItemResult}
    (h : (item, result) ∈ items.zip (importBankItems env dryRun table items).1) (hempty : item.extId = "") :
    result ≠ .repeated := by
  induction items generalizing table with
  | nil => cases h
  | cons first items ih =>
    unfold importBankItems at h
    rw [List.zip_cons_cons, List.mem_cons] at h
    rcases h with h | h
    · obtain ⟨rfl, rfl⟩ := Prod.mk.inj h
      unfold importBankItem
      rw [prepareBank_eq, if_pos hempty]
      rcases turnover item with _ | ⟨direction, amount⟩
      · intro hrepeated
        cases hrepeated
      · dsimp only
        split_ifs
        · intro hrepeated
          cases hrepeated
        · rcases writeBank env table item direction amount <;>
          · intro hrepeated
            cases hrepeated
    · exact ih h

/-- A row that was written is found again. -/
theorem rehearsed_of_known (hturnover : (turnover item).isSome = true) (hempty : item.extId ≠ "")
    (hnul : withoutNul item.extId = true) (hknown : isKnown table item.extId = true) :
    rehearsed env table item = .repeated := by
  obtain ⟨⟨direction, amount⟩, hturnover⟩ := Option.isSome_iff_exists.mp hturnover
  unfold rehearsed importBankItem
  rw [prepareBank_eq, if_neg hempty, if_pos hnul, hturnover, hknown]

/-- The rehearsal is the run exactly when the new items can be imported. -/
theorem importRight_iff (hlen : items.length ≤ BANK_IMPORT_LIMIT) :
    ImportRight env table items (importBankItems env false table items).1 (importBankItems env false table items).2 ↔
      Importable env table items := by
  obtain ⟨rows, htable, hin⟩ := @importBankItems_imported env table items
  have hcount : (reportOf false items (importBankItems env false table items).1).created =
      (createdOf items (importBankItems env false table items).1).length := count_created hin.length
  rw [htable]
  constructor
  · rintro ⟨⟨dry, real, hdry, hreal, rfl, hcreated, -, -⟩, honce, hmoney, hsecond⟩
    rw [importBankStatement_eq hlen, importBankItems_dry] at hdry
    obtain ⟨rfl, -⟩ := Prod.mk.inj (Except.ok.inj hdry)
    have hnew : createdOf items (importBankItems env false table items).1 = items.filter (isNew table) := by
      apply hin.new.eq_of_length
      rw [← hcount, ← hcreated]
      exact count_rehearsed items
    have hwritten := hin.written
    rw [hnew] at hwritten
    rw [List.drop_left, sum_signed hin.written, hnew] at hmoney
    refine ⟨?_, fun item hitem hitemNew => ?_, fun item hitem hitemNew direction amount hturnover => ?_, by linarith⟩
    · have hkeys := hin.keys
      rw [extIds_eq hwritten] at hkeys
      exact List.Nodup.of_map some (by rw [List.map_map]; exact hkeys)
    · intro hempty
      have hmem : item ∈ createdOf items (importBankItems env false table items).1 :=
        hnew ▸ List.mem_filter.mpr ⟨hitem, hitemNew⟩
      obtain ⟨⟨own, result⟩, hpair, hresult⟩ := List.mem_filterMap.mp hmem
      dsimp only at hresult
      split_ifs at hresult with hcreatedItem
      obtain rfl := Option.some.inj hresult
      have hagain : (own, ItemResult.repeated) ∈ items.zip (importBankItems env false (table ++ rows) items).1 := by
        rw [hsecond, List.zip_map_right]
        exact List.mem_map.mpr ⟨(own, result), hpair, by rw [hcreatedItem]; rfl⟩
      exact ne_repeated_of_empty hagain hempty rfl
    · obtain ⟨row, -, hrow⟩ := Lib.exists_of_mem_left hwritten (List.mem_filter.mpr ⟨hitem, hitemNew⟩)
      obtain ⟨amount', hturnover', hstorable, -⟩ := hrow.turnover
      rw [hturnover] at hturnover'
      obtain ⟨-, rfl⟩ := Prod.mk.inj (Option.some.inj hturnover')
      exact hstorable
  · intro himport
    have hresults : (importBankItems env false table items).1 = items.map (rehearsed env table) := by
      have hrun := @importBankItems_of_storable env table items [] himport.distinct himport.storable himport.named
        fun _ _ _ => rfl
      rwa [List.append_nil] at hrun
    have hnew : createdOf items (importBankItems env false table items).1 = items.filter (isNew table) := by
      apply hin.new.eq_of_length
      rw [← hcount, hresults]
      exact count_rehearsed items
    have hwritten := hin.written
    rw [hnew] at hwritten
    refine ⟨⟨reportOf true items (items.map (rehearsed env table)), reportOf false items (items.map (rehearsed env table)),
      ?_, ?_, by rw [hresults], rfl, rfl, rfl⟩, ?_, ?_, ?_⟩
    · rw [importBankStatement_eq hlen, importBankItems_dry]
    · rw [importBankStatement_eq hlen, htable, hresults]
    · rw [List.drop_left]
      exact hin.keys
    · rw [List.drop_left, sum_signed hin.written, hnew, himport.money, sub_zero]
    · rw [hresults, List.map_map]
      apply importBankItems_of_still
      intro item hitem
      by_cases hitemNew : isNew table item = true
      · obtain ⟨hturnover, hkey⟩ := isNew_iff.mp hitemNew
        have hnamed := himport.named item hitem hitemNew
        have hnul := (hkey.resolve_left hnamed).1
        obtain ⟨row, hrowMem, hrow⟩ := Lib.exists_of_mem_left hwritten (List.mem_filter.mpr ⟨hitem, hitemNew⟩)
        have hknown : isKnown (table ++ rows) item.extId = true := by
          rw [isKnown_append, isKnown_of_writtenFor hrow hrowMem, Bool.or_true]
        have hstill : isNew (table ++ rows) item = false := by
          rw [Bool.eq_false_iff, Ne, isNew_iff, hknown]
          simp [hnamed]
        rw [importBankItem_of_not_new hstill, rehearsed_of_known hturnover hnamed hnul hknown, Function.comp_apply,
          rehearsed_eq_created_iff.mpr hitemNew]
        rfl
      · rw [Bool.not_eq_true] at hitemNew
        have hstill : isNew (table ++ rows) item = false := by
          rw [Bool.eq_false_iff] at hitemNew ⊢
          exact mt isNew_of_append hitemNew
        have hne : rehearsed env table item ≠ .created := by
          rw [Ne, rehearsed_eq_created_iff, hitemNew]
          exact Bool.false_ne_true
        rw [importBankItem_of_not_new hstill, rehearsed_append hitemNew, Function.comp_apply]
        congr 1
        rcases hresult : rehearsed env table item with _ | _ | reason
        · exact absurd hresult hne
        · rfl
        · rfl

def bankEnv : BankEnv := ⟨fun s => if s = "2026-02-01" then some 0 else none, fun _ => true⟩

def bankItem (extId : String) (debit credit : Option ℚ) : ImportBankStatementItem :=
  ⟨"2026-02-01", debit, credit, some "аренда", none, none, extId, none⟩

theorem importRight_twoRows :
    ([bankItem "a" (some 700) none, bankItem "b" none (some 300)].length ≤ BANK_IMPORT_LIMIT) ∧
      ImportRight bankEnv [] [bankItem "a" (some 700) none, bankItem "b" none (some 300)]
        (importBankItems bankEnv false [] [bankItem "a" (some 700) none, bankItem "b" none (some 300)]).1
        (importBankItems bankEnv false [] [bankItem "a" (some 700) none, bankItem "b" none (some 300)]).2 := by
  refine ⟨by decide, (importRight_iff (by decide)).mpr ⟨by decide +kernel, by decide +kernel, ?_, by decide +kernel⟩⟩
  intro item hitem _ direction amount hturnover
  have hamount : amount = 700 ∨ amount = 300 := by
    rcases List.mem_cons.mp hitem with rfl | hitem
    · have h700 : turnover (bankItem "a" (some 700) none) = some (.outgoing, 700) := by decide +kernel
      rw [h700] at hturnover
      exact .inl (Prod.mk.inj (Option.some.inj hturnover)).2.symm
    · obtain rfl := List.mem_singleton.mp hitem
      have h300 : turnover (bankItem "b" none (some 300)) = some (.incoming, 300) := by decide +kernel
      rw [h300] at hturnover
      exact .inr (Prod.mk.inj (Option.some.inj hturnover)).2.symm
  have hstored : ∃ stored, numeric 18 2 amount = .ok stored := by
    rcases hamount with rfl | rfl
    · exact ⟨700, by decide +kernel⟩
    · exact ⟨300, by decide +kernel⟩
  rcases List.mem_cons.mp hitem with rfl | hitem
  · exact ⟨by decide, by decide, by decide, by decide, by decide, hstored, rfl⟩
  · obtain rfl := List.mem_singleton.mp hitem
    exact ⟨by decide, by decide, by decide, by decide, by decide, hstored, rfl⟩

/-- Of a key that comes twice the rehearsal counts two, and the run creates one. -/
theorem importRight_keyTwice :
    ¬ImportRight bankEnv [] [bankItem "a" (some 700) none, bankItem "a" (some 700) none]
      (importBankItems bankEnv false [] [bankItem "a" (some 700) none, bankItem "a" (some 700) none]).1
      (importBankItems bankEnv false [] [bankItem "a" (some 700) none, bankItem "a" (some 700) none]).2 := by
  rintro ⟨⟨dry, real, hdry, -, rfl, hcreated, -, -⟩, -, -, -⟩
  rw [importBankStatement_eq (by decide), importBankItems_dry] at hdry
  obtain ⟨rfl, -⟩ := Prod.mk.inj (Except.ok.inj hdry)
  revert hcreated
  decide +kernel

end Mydon.Finance
