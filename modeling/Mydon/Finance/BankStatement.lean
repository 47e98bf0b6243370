import Mydon.Clock
import Mydon.Js.Json
import Mydon.Js.Words
import Mydon.Lib.OrderedMap
import Mydon.Lib.Repeats

/-! The statement of a bank: its operations, each under the key that tells it from the operations imported before. -/

namespace Mydon.Finance

open Mydon.Lib

inductive HeaderName
  | date | account | name | docNo | docType | branch | debit | credit | purpose | cashSymbol | inn
  deriving DecidableEq

def HeaderName.title : HeaderName → String
  | date => "Дата документа"
  | account => "Счёт"
  | name => "Наименование"
  | docNo => "Номер документа"
  | docType => "Тип документа"
  | branch => "Филиал"
  | debit => "Оборот Дебет"
  | credit => "Оборот кредит"
  | purpose => "Назначение платежа"
  | cashSymbol => "Кассовый символ"
  | inn => "ИНН"

def HEADER_NAMES : List HeaderName :=
  [.date, .account, .name, .docNo, .docType, .branch, .debit, .credit, .purpose, .cashSymbol, .inn]

def HEADER_ROW_INDEX : ℕ := 1

structure BankStatementRow where
  date : String
  account : String
  name : String
  docNo : String
  docType : String
  branch : String
  debit : Option ℚ
  credit : Option ℚ
  purpose : String
  cashSymbol : Option String
  inn : String
  fileRow : ℕ
  extId : String
  deriving DecidableEq

def twoDigits (c d : Char) : ℤ := (c.toNat - 48) * 10 + (d.toNat - 48)

/-- `дд.мм.гг` of this century; a day that the calendar does not have is no date. -/
def parseStatementDate (raw : String) : Option String :=
  match Js.trimChars raw.toList with
  | [d, d', '.', m, m', '.', y, y'] =>
    if [d, d', m, m', y, y'].all Js.isDigit then
      let year := 2000 + twoDigits y y'
      let month := twoDigits m m'
      let day := twoDigits d d'
      if Clock.civil (Clock.ofCivil year month day) = (year, month, day) then
        some (toString year ++ "-" ++ Clock.padStart 2 month ++ "-" ++ Clock.padStart 2 day)
      else none
    else none
  | _ => none

variable (host : Js.Host)

def parseStatementAmount (raw : String) : Option ℚ :=
  if Js.trim raw = "" then none else host.number (Js.trim raw)

def cellText (row : List String) (i : ℕ) : String := row.getD i ""

def resolveColumns (header : List String) : Except String (HeaderName → ℕ) := do
  HEADER_NAMES.forM fun column =>
    if header.any fun c => Js.trim c = column.title then pure ()
    else throw ("В выписке не найдена колонка «" ++ column.title ++ "» в строке шапки (rows[" ++
      toString HEADER_ROW_INDEX ++ "]) — формат отчёта, похоже, изменился.")
  return fun column => header.findIdx fun c => Js.trim c = column.title

def statementColumns (rows : List (List String)) : Except String (HeaderName → ℕ) :=
  match rows[HEADER_ROW_INDEX]? with
  | none => throw ("В выписке меньше " ++ toString (HEADER_ROW_INDEX + 1) ++
      " строк после заголовка справки — не похоже на банковскую выписку.")
  | some header => resolveColumns header

def orText (text other : String) : String := if text = "" then other else text

def amountText (amount : Option ℚ) : String := amount.elim "" host.numberText

/-- White space collapsed, letters in lower case. -/
def purposeKey (purpose : String) : String := host.toLowerCase (String.ofList (Js.collapseSpaces purpose.toList))

/-- What tells an operation. -/
structure Operation where
  account : String
  docNo : String
  date : String
  debit : Option ℚ
  credit : Option ℚ
  purpose : String
  deriving DecidableEq

def Operation.text (op : Operation) : String :=
  String.intercalate "::" [orText op.account "без-счёта", orText op.docNo "без-номера", op.date,
    amountText host op.debit, amountText host op.credit, op.purpose]

def BankStatementRow.operation (r : BankStatementRow) : Operation :=
  ⟨r.account, r.docNo, r.date, r.debit, r.credit, purposeKey host r.purpose⟩

/-- The row of an operation, under a key that is not numbered yet; a row without a date is none. -/
def readRow (col : HeaderName → ℕ) (row : List String) (fileRow : ℕ) : Option BankStatementRow :=
  (parseStatementDate (cellText row (col .date))).map fun date =>
    let account := Js.trim (cellText row (col .account))
    let docNo := Js.trim (cellText row (col .docNo))
    let debit := parseStatementAmount host (cellText row (col .debit))
    let credit := parseStatementAmount host (cellText row (col .credit))
    let purpose := Js.trim (cellText row (col .purpose))
    let cashSymbolRaw := Js.trim (cellText row (col .cashSymbol))
    { date
      account
      name := Js.trim (cellText row (col .name))
      docNo
      docType := Js.trim (cellText row (col .docType))
      branch := Js.trim (cellText row (col .branch))
      debit
      credit
      purpose
      cashSymbol := if cashSymbolRaw = "" then none else some cashSymbolRaw
      inn := Js.trim (cellText row (col .inn))
      fileRow
      extId := Operation.text host ⟨account, docNo, date, debit, credit, purposeKey host purpose⟩ }

def numbered (base : String) (n : ℕ) : String := if n = 1 then base else base ++ "::" ++ toString n

def statementStep (col : HeaderName → ℕ) (st : List (String × ℕ) × List BankStatementRow) (e : List String × ℕ) :
    List (String × ℕ) × List BankStatementRow :=
  match readRow host col e.1 e.2 with
  | none => st
  | some r =>
    let n := (OrderedMap.get st.1 r.extId).getD 0 + 1
    (OrderedMap.set r.extId n st.1, st.2 ++ [{ r with extId := numbered r.extId n }])

def parseBankStatement (rows : List (List String)) : Except String (List BankStatementRow) := do
  let col ← statementColumns rows
  return (rows.zipIdx.foldl (statementStep host col) ([], [])).2

/-! The keys of the rows are those of their contents, numbered. -/

variable {host} {col : HeaderName → ℕ} {rows : List (List String)}

theorem statementStep_of_none {st : List (String × ℕ) × List BankStatementRow} {e : List String × ℕ}
    (h : readRow host col e.1 e.2 = none) : statementStep host col st e = st := by
  unfold statementStep
  rw [h]

theorem statementStep_of_some {st : List (String × ℕ) × List BankStatementRow} {e : List String × ℕ} {r : BankStatementRow}
    (h : readRow host col e.1 e.2 = some r) : statementStep host col st e =
      (OrderedMap.set r.extId ((OrderedMap.get st.1 r.extId).getD 0 + 1) st.1,
        st.2 ++ [{ r with extId := numbered r.extId ((OrderedMap.get st.1 r.extId).getD 0 + 1) }]) := by
  unfold statementStep
  rw [h]

def numberRow (p : BankStatementRow × ℕ) : BankStatementRow := { p.1 with extId := numbered p.1.extId p.2 }

/-- The loop numbers the rows by their ranks. -/
theorem foldl_statementStep (l : List (List String × ℕ)) (st : List (String × ℕ) × List BankStatementRow) (seen : List String)
    (hseen : ∀ k, (OrderedMap.get st.1 k).getD 0 = seen.count k) : (l.foldl (statementStep host col) st).2 =
      st.2 ++ (ranksFrom BankStatementRow.extId seen (l.filterMap fun e => readRow host col e.1 e.2)).map numberRow := by
  induction l generalizing st seen with
  | nil => simp [ranksFrom]
  | cons e l ih =>
    rw [List.foldl_cons]
    rcases hread : readRow host col e.1 e.2 with _ | r
    · rw [statementStep_of_none hread, ih st seen hseen, List.filterMap_cons]
      simp only [hread]
    · rw [statementStep_of_some hread, hseen, ih _ (r.extId :: seen), List.filterMap_cons]
      · simp only [hread, ranksFrom, List.map_cons, List.append_assoc, List.singleton_append, numberRow]
      · intro k
        rw [OrderedMap.get_set, List.count_cons]
        by_cases hk : r.extId = k
        · simp [hk]
        · simp [hk, hseen]

/-- The rows that are read, before they are numbered. -/
def readRows (host : Js.Host) (col : HeaderName → ℕ) (rows : List (List String)) : List BankStatementRow :=
  rows.zipIdx.filterMap fun e => readRow host col e.1 e.2

theorem parseBankStatement_eq_ok {out : List BankStatementRow} : parseBankStatement host rows = .ok out ↔
    ∃ col, statementColumns rows = .ok col ∧ out = (ranks BankStatementRow.extId (readRows host col rows)).map numberRow := by
  have hrun : ∀ col, (rows.zipIdx.foldl (statementStep host col) ([], [])).2 =
      (ranks BankStatementRow.extId (readRows host col rows)).map numberRow := by
    intro col
    rw [foldl_statementStep _ _ [] (fun _ => rfl), List.nil_append]
    rfl
  unfold parseBankStatement
  rw [Js.bind_eq_ok]
  constructor
  · rintro ⟨col, hcol, hout⟩
    refine ⟨col, hcol, ?_⟩
    rw [← hrun]
    exact (Except.ok.inj hout).symm
  · rintro ⟨col, hcol, rfl⟩
    refine ⟨col, hcol, ?_⟩
    rw [hrun]
    rfl

/-- The operation of a row of the table, if it has a date. -/
def operationOf (host : Js.Host) (col : HeaderName → ℕ) (row : List String) : Option Operation :=
  (readRow host col row 0).map (·.operation host)

theorem readRow_operation {row : List String} {i : ℕ} {r : BankStatementRow} (h : readRow host col row i = some r) :
    operationOf host col row = some (r.operation host) ∧ r.extId = (r.operation host).text host := by
  unfold operationOf readRow at *
  rcases hdate : parseStatementDate (cellText row (col .date)) with _ | date
  · rw [hdate] at h
    cases h
  · rw [hdate] at h
    cases h
    exact ⟨rfl, rfl⟩

theorem readRows_operations (host : Js.Host) (col : HeaderName → ℕ) (rows : List (List String)) :
    (readRows host col rows).map (·.operation host) = rows.filterMap (operationOf host col) := by
  have hshift : ∀ n, (rows.zipIdx n).filterMap (fun e => (readRow host col e.1 e.2).map (·.operation host)) =
      rows.filterMap (operationOf host col) := by
    induction rows with
    | nil => exact fun _ => rfl
    | cons row rows ih =>
      intro n
      rw [List.zipIdx_cons, List.filterMap_cons, List.filterMap_cons, ih]
      rcases hread : readRow host col row n with _ | r
      · have hnone : operationOf host col row = none := by
          unfold operationOf readRow at *
          rw [Option.map_eq_none_iff] at hread ⊢
          rw [hread]
          rfl
        simp only [hnone, Option.map_none]
      · simp only [(readRow_operation hread).1, Option.map_some]
  rw [readRows, List.map_filterMap]
  exact hshift 0

/-! The columns are found by their titles. -/

theorem forM_eq_ok {α ε : Type} {f : α → Except ε Unit} {l : List α} {u : Unit} :
    l.forM f = .ok u ↔ ∀ a ∈ l, f a = .ok u := by
  induction l with
  | nil => simp [pure, Except.pure]
  | cons a l ih =>
    change (f a >>= fun _ => l.forM f) = .ok u ↔ _
    rw [Js.bind_eq_ok, List.forall_mem_cons, ← ih]
    constructor
    · rintro ⟨⟨⟩, ha, hl⟩
      exact ⟨ha, hl⟩
    · rintro ⟨ha, hl⟩
      exact ⟨u, ha, hl⟩

/-- Two titles are two columns. -/
theorem columns_inj (h : statementColumns rows = .ok col) : Function.Injective col := by
  unfold statementColumns at h
  rcases hheader : rows[HEADER_ROW_INDEX]? with _ | header
  · rw [hheader] at h
    cases h
  · rw [hheader] at h
    unfold resolveColumns at h
    rw [Js.bind_eq_ok] at h
    obtain ⟨u, hall, hcol⟩ := h
    obtain rfl := Except.ok.inj hcol
    have htitle : ∀ column : HeaderName, ∃ c, header[header.findIdx fun c => Js.trim c = column.title]? = some c ∧
        Js.trim c = column.title := by
      intro column
      have hany := forM_eq_ok.mp hall column (by cases column <;> decide)
      split_ifs at hany with hfound
      obtain ⟨c, hc, htrim⟩ := List.any_eq_true.mp hfound
      have hlt : (header.findIdx fun c => Js.trim c = column.title) < header.length :=
        List.findIdx_lt_length_of_exists ⟨c, hc, htrim⟩
      exact ⟨_, List.getElem?_eq_getElem hlt, of_decide_eq_true (List.findIdx_getElem (w := hlt))⟩
    intro x y hxy
    obtain ⟨c, hc, hx⟩ := htitle x
    obtain ⟨d, hd, hy⟩ := htitle y
    dsimp only at hxy
    rw [hxy, hd] at hc
    obtain rfl := Option.some.inj hc
    rw [hx] at hy
    revert hy
    cases x <;> cases y <;> decide

end Mydon.Finance
