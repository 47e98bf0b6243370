import Mydon.Clock
import Mydon.Finance.Flows
import Mydon.Lib.Latest

/-! Currency rates. The history only grows. A flow fixes the rate in force, the latest of its currency, and the
rates of the central bank are added where they changed. Both see the history through its newest rows. -/

namespace Mydon.Finance

open Mydon.Lib Mydon.Stock

structure FxRow where
  currency : String
  /-- `numeric(18, 4)`. -/
  rate : ℚ
  source : String
  note : Option String
  setBy : Option String
  createdAt : ℤ
  hrate : numeric 18 4 rate = .ok rate
  deriving DecidableEq

/-- What a column holds it keeps. -/
theorem numeric_idem {precision scale : ℕ} {x y : ℚ} (h : numeric precision scale x = .ok y) :
    numeric precision scale y = .ok y := by
  have hpos : (0 : ℚ) < 10 ^ scale := by positivity
  have hunits : (0 : ℤ) ≤ ⌊|x| * 10 ^ scale + 1 / 2⌋ := Int.floor_nonneg.mpr (by positivity)
  obtain ⟨k, habs, rfl⟩ : ∃ k : ℤ, |k| < 10 ^ precision ∧ y = k / 10 ^ scale := by
    unfold numeric at h
    dsimp only at h
    split_ifs at h with hfits hneg
    · exact ⟨_, by rwa [abs_neg, abs_of_nonneg hunits], by rw [Int.cast_neg]; exact (Except.ok.inj h).symm⟩
    · exact ⟨_, by rwa [abs_of_nonneg hunits], (Except.ok.inj h).symm⟩
  have hok : ∃ z, numeric precision scale ((k : ℚ) / 10 ^ scale) = .ok z := by
    unfold numeric
    rw [scaled_floor, if_pos habs]
    exact ⟨_, rfl⟩
  obtain ⟨z, hz⟩ := hok
  rw [hz, (numeric_eq_self_iff hz).mpr ⟨k, rfl⟩]

def FX_TAIL : ℕ := 200

def ofCurrency (currency : String) (r : FxRow) : Bool := r.currency = currency

/-- `if (!latest.has(r.currency)) latest.set(r.currency, r)`. -/
def setFirst (latest : List FxRow) (r : FxRow) : List FxRow :=
  if latest.any (ofCurrency r.currency) then latest else latest ++ [r]

/-- `order by created_at desc limit 200`, and the first row of each currency. -/
def fxCurrentFrom (rows : List FxRow) : List FxRow :=
  ((Latest.newestFirst FxRow.createdAt rows).take FX_TAIL).foldl setFirst []

/-- `prepareFlow` asks `fxCurrentFrom` for the currency of the flow. -/
def financeEnv (base : FinanceEnv) (rows : List FxRow) : FinanceEnv :=
  { base with fxRate := fun currency => ((fxCurrentFrom rows).find? (ofCurrency currency)).map FxRow.rate }

/-! The rates of the central bank. -/

def FX_AUTO_CURRENCIES : List String := ["USD", "CNY", "EUR", "RUB"]

structure CbuRateRow where
  ccy : String
  rate : String
  date : String
  deriving DecidableEq

structure FxRefreshInsert where
  currency : String
  rate : ℚ
  note : String
  deriving DecidableEq

structure FxRefreshSkip where
  currency : String
  reason : String
  deriving DecidableEq

structure FxRefreshPlan where
  inserts : List FxRefreshInsert
  skipped : List FxRefreshSkip
  deriving DecidableEq

variable (host : Js.Host) (cbuRates : List CbuRateRow) (today : ℤ)

/-- The body of the loop. -/
def planCurrency (latest : List FxRow) (currency : String) : FxRefreshInsert ⊕ FxRefreshSkip :=
  match cbuRates.find? (·.ccy = currency) with
  | none => .inr ⟨currency, "ЦБ не дал курс"⟩
  | some cbuRow =>
    match (host.number cbuRow.rate).filter (0 < ·) with
    | none => .inr ⟨currency, "ЦБ не дал курс"⟩
    | some rate =>
      match latest.find? (ofCurrency currency) with
      | none => .inl ⟨currency, rate, "ЦБ РУз на " ++ cbuRow.date⟩
      | some current =>
        if current.source = "manual" ∧ Clock.tashkentDay current.createdAt = today then
          .inr ⟨currency, "ручной курс за сегодня главнее"⟩
        else if current.rate = rate then .inr ⟨currency, "не изменился"⟩
        else .inl ⟨currency, rate, "ЦБ РУз на " ++ cbuRow.date⟩

def fxRefreshPlan (latest : List FxRow) (targets : List String) : FxRefreshPlan where
  inserts := targets.filterMap fun currency => (planCurrency host cbuRates today latest currency).getLeft?
  skipped := targets.filterMap fun currency => (planCurrency host cbuRates today latest currency).getRight?

/-- The row of one insert, written at the moment of the transaction. -/
def insertFx (actorRef : String) (at_ : ℤ) (ins : FxRefreshInsert) : Except Js.HttpError FxRow :=
  match h : numeric 18 4 ins.rate with
  | .error e => .error e
  | .ok rate => .ok ⟨ins.currency, rate, "cbu", some ins.note, some actorRef, at_, numeric_idem h⟩

/-- `refreshFxFromCbu`, when the bank has answered. -/
def refreshFx (actorRef : String) (at_ : ℤ) (rows : List FxRow) : Except Js.HttpError (List FxRow) := do
  let plan := fxRefreshPlan host cbuRates today (fxCurrentFrom rows) FX_AUTO_CURRENCIES
  let new ← plan.inserts.mapM (insertFx actorRef at_)
  return rows ++ new

/-! What is seen of the history. -/

variable {host : Js.Host} {cbuRates : List CbuRateRow} {today : ℤ} {rows : List FxRow} {currency : String} {r : FxRow}

/-- The rate in force: the latest row of the currency. -/
def inForce (rows : List FxRow) (currency : String) : Option FxRow :=
  Latest.latest FxRow.createdAt (ofCurrency currency) rows

/-- The rows of other currencies that stand before the rate in force. -/
def ahead (rows : List FxRow) (currency : String) : ℕ := Latest.ahead FxRow.createdAt (ofCurrency currency) rows

theorem find?_setFirst (l acc : List FxRow) (currency : String) :
    (l.foldl setFirst acc).find? (ofCurrency currency) =
      (acc.find? (ofCurrency currency)).or (l.find? (ofCurrency currency)) := by
  induction l generalizing acc with
  | nil => rw [List.foldl_nil, List.find?_nil, Option.or_none]
  | cons r l ih =>
    rw [List.foldl_cons, ih]
    unfold setFirst
    by_cases hseen : acc.any (ofCurrency r.currency) = true
    · rw [if_pos hseen]
      rcases hfind : acc.find? (ofCurrency currency) with _ | x
      · have hne : ofCurrency currency r = false := by
          obtain ⟨x, hx, hxr⟩ := List.any_eq_true.mp hseen
          have hxc := List.find?_eq_none.mp hfind x hx
          simp only [ofCurrency, decide_eq_true_eq] at hxr hxc ⊢
          rw [decide_eq_false_iff_not, ← hxr]
          exact hxc
        rw [Option.none_or, Option.none_or, List.find?_cons, hne]
      · rfl
    · rw [if_neg hseen, List.find?_append, Option.or_assoc]
      congr 1
      rcases h : ofCurrency currency r with _ | _ <;> simp [h]

/-- The rate in force is seen when fewer than 200 rows stand before it. -/
theorem find?_fxCurrentFrom (rows : List FxRow) (currency : String) :
    (fxCurrentFrom rows).find? (ofCurrency currency) = if ahead rows currency < FX_TAIL then inForce rows currency else none := by
  unfold fxCurrentFrom
  rw [find?_setFirst, List.find?_nil, Option.none_or, Latest.find?_window]
  rfl

theorem inForce_eq_none_iff : inForce rows currency = none ↔ ∀ r ∈ rows, r.currency ≠ currency := by
  unfold inForce
  rw [Latest.latest_eq_none_iff]
  simp only [ofCurrency, decide_eq_false_iff_not, ne_eq]

/-! What a flow fixes. -/

/-- The stored rate is that of the latest row of the currency; it is absent only when the currency has no row. -/
def RateFixed (rows : List FxRow) (row : Flow) : Prop :=
  (∃ r, Latest.IsLatest FxRow.createdAt (ofCurrency row.currency) rows r ∧ row.rate = some r.rate) ∨
    (∀ r ∈ rows, r.currency ≠ row.currency) ∧ row.rate = none

theorem rateFixed_eq (rows : List FxRow) (row : Flow) :
    RateFixed rows row ↔ row.rate = (inForce rows row.currency).map FxRow.rate := by
  unfold RateFixed
  rw [← inForce_eq_none_iff]
  simp only [← Latest.latest_eq_some_iff]
  change (∃ r, inForce rows row.currency = some r ∧ _) ∨ _ ↔ _
  rcases inForce rows row.currency with _ | r <;> simp

variable {base : FinanceEnv} {flowId : ℕ} {now : ℤ} {input : CreateFlowInput} {row : Flow}

theorem inForce_rate (rows : List FxRow) (currency : String) {rate : ℚ}
    (h : (inForce rows currency).map FxRow.rate = some rate) : numeric 18 4 rate = .ok rate := by
  obtain ⟨r, -, rfl⟩ := Option.map_eq_some_iff.mp h
  exact r.hrate

/-- Of the rates only that of the flow's currency is asked for. -/
theorem prepareFlow_congr {f g : String → Option ℚ}
    (h : f (Js.trim (base.toUpperCase (input.currency.getD "UZS"))) =
      g (Js.trim (base.toUpperCase (input.currency.getD "UZS")))) :
    prepareFlow { base with fxRate := f } input = prepareFlow { base with fxRate := g } input := by
  unfold prepareFlow
  dsimp only
  rw [h]

/-- A foreign flow without a rate stores what is seen of the rate in force. -/
theorem createFlow_rate (h : createFlow (financeEnv base rows) flowId now input = .ok row) (hrate : input.rate = none)
    (hforeign : row.currency ≠ "UZS") :
    row.rate = if ahead rows row.currency < FX_TAIL then (inForce rows row.currency).map FxRow.rate else none := by
  obtain ⟨prep, hprep, hwrite⟩ := Js.bind_eq_ok.mp h
  obtain ⟨_, -, hwrite⟩ := Js.bind_eq_ok.mp hwrite
  obtain ⟨rate, hnumeric, hwrite⟩ := Js.bind_eq_ok.mp hwrite
  obtain ⟨_, -, hwrite⟩ := Js.bind_eq_ok.mp hwrite
  obtain rfl := Except.ok.inj hwrite
  obtain ⟨_, -, hprep⟩ := Js.bind_eq_ok.mp hprep
  obtain ⟨_, -, hprep⟩ := Js.bind_eq_ok.mp hprep
  obtain ⟨_, -, hprep⟩ := Js.bind_eq_ok.mp hprep
  obtain ⟨_, -, hprep⟩ := Js.bind_eq_ok.mp hprep
  obtain ⟨_, -, hprep⟩ := Js.bind_eq_ok.mp hprep
  obtain rfl := Except.ok.inj hprep
  generalize Js.trim ((financeEnv base rows).toUpperCase (input.currency.getD "UZS")) = currency at hnumeric hforeign ⊢
  rw [hrate, Option.none_or, if_neg hforeign] at hnumeric
  dsimp only [financeEnv] at hnumeric
  rw [find?_fxCurrentFrom] at hnumeric
  by_cases hseen : ahead rows currency < FX_TAIL
  · rw [if_pos hseen] at hnumeric ⊢
    rcases hcurrent : (inForce rows currency).map FxRow.rate with _ | q
    · rw [hcurrent] at hnumeric
      exact (Except.ok.inj hnumeric).symm
    · rw [hcurrent, numericOption, inForce_rate rows _ hcurrent] at hnumeric
      exact (Except.ok.inj hnumeric).symm
  · rw [if_neg hseen] at hnumeric ⊢
    exact (Except.ok.inj hnumeric).symm

/-- A flow fixes the rate in force when the newest rows reach it. -/
theorem rateFixed_iff (h : createFlow (financeEnv base rows) flowId now input = .ok row) (hrate : input.rate = none)
    (hforeign : row.currency ≠ "UZS") :
    RateFixed rows row ↔ (∀ r ∈ rows, r.currency ≠ row.currency) ∨ ahead rows row.currency < FX_TAIL := by
  rw [rateFixed_eq, createFlow_rate h hrate hforeign, ← inForce_eq_none_iff]
  by_cases hseen : ahead rows row.currency < FX_TAIL
  · simp [hseen]
  · rcases inForce rows row.currency with _ | r <;> simp [hseen]

/-! What a refresh adds. -/

/-- The positive rate of the answer. -/
def answered (host : Js.Host) (cbuRates : List CbuRateRow) (currency : String) : Option ℚ :=
  (cbuRates.find? (·.ccy = currency)).bind fun cbuRow => (host.number cbuRow.rate).filter (0 < ·)

/-- The row stays in force: it is manual and of today, or its rate is the answered one. -/
def stays (today : ℤ) (rate : ℚ) (r : FxRow) : Bool :=
  (r.source = "manual" && Clock.tashkentDay r.createdAt = today) || r.rate = rate

/-- A positive rate is answered, and the latest row of the currency does not stay in force. -/
def due (host : Js.Host) (cbuRates : List CbuRateRow) (today : ℤ) (rows : List FxRow) (currency : String) : Bool :=
  (answered host cbuRates currency).any fun rate => !(inForce rows currency).any (stays today rate)

theorem isLeft_planCurrency (latest : List FxRow) (currency : String) :
    (planCurrency host cbuRates today latest currency).isLeft =
      (answered host cbuRates currency).any fun rate => !(latest.find? (ofCurrency currency)).any (stays today rate) := by
  unfold planCurrency answered
  rcases hrow : cbuRates.find? (·.ccy = currency) with _ | cbuRow
  · simp only [hrow]
    rfl
  · rcases hnumber : (host.number cbuRow.rate).filter (0 < ·) with _ | rate
    · simp only [hrow, Option.bind_some, hnumber]
      rfl
    · rcases hcurrent : latest.find? (ofCurrency currency) with _ | current
      · simp only [hrow, Option.bind_some, hnumber]
        rfl
      · simp only [hrow, Option.bind_some, hnumber, Option.any_some, stays]
        by_cases hmanual : current.source = "manual" ∧ Clock.tashkentDay current.createdAt = today
        · simp [hmanual]
        · by_cases hsame : current.rate = rate
          · simp [hsame, hmanual]
          · rw [if_neg hmanual, if_neg hsame]
            simpa [hsame, imp_iff_not_or] using hmanual

/-- What is planned carries the answered rate. -/
theorem getLeft?_planCurrency {latest : List FxRow} {ins : FxRefreshInsert}
    (h : (planCurrency host cbuRates today latest currency).getLeft? = some ins) :
    ins.currency = currency ∧ answered host cbuRates currency = some ins.rate := by
  unfold planCurrency at h
  unfold answered
  rcases hrow : cbuRates.find? (·.ccy = currency) with _ | cbuRow
  · simp only [hrow] at h
    cases h
  · rcases hnumber : (host.number cbuRow.rate).filter (0 < ·) with _ | rate
    · simp only [hrow, hnumber] at h
      cases h
    · simp only [hrow, Option.bind_some, hnumber]
      rcases hcurrent : latest.find? (ofCurrency currency) with _ | current
      · simp only [hrow, hnumber, hcurrent] at h
        obtain rfl := Option.some.inj h
        exact ⟨rfl, rfl⟩
      · simp only [hrow, hnumber, hcurrent] at h
        split_ifs at h
        · cases h
        · cases h
        · obtain rfl := Option.some.inj h
          exact ⟨rfl, rfl⟩

/-- What the plan adds a row for. -/
def planned (host : Js.Host) (cbuRates : List CbuRateRow) (today : ℤ) (rows : List FxRow) (currency : String) : Bool :=
  (planCurrency host cbuRates today (fxCurrentFrom rows) currency).isLeft

theorem planned_of_seen (h : ahead rows currency < FX_TAIL) :
    planned host cbuRates today rows currency = due host cbuRates today rows currency := by
  unfold planned due
  rw [isLeft_planCurrency, find?_fxCurrentFrom, if_pos h]

theorem planned_of_unseen (h : ¬ahead rows currency < FX_TAIL) :
    planned host cbuRates today rows currency = (answered host cbuRates currency).isSome := by
  unfold planned
  rw [isLeft_planCurrency, find?_fxCurrentFrom, if_neg h]
  rcases answered host cbuRates currency with _ | rate <;> rfl

/-- Nothing due is missed. -/
theorem planned_of_due (h : due host cbuRates today rows currency = true) :
    planned host cbuRates today rows currency = true := by
  by_cases hseen : ahead rows currency < FX_TAIL
  · rw [planned_of_seen hseen, h]
  · rw [planned_of_unseen hseen]
    unfold due at h
    rcases hrate : answered host cbuRates currency with _ | rate
    · rw [hrate] at h
      cases h
    · rfl

theorem insertFx_eq_ok {actorRef : String} {at_ : ℤ} {ins : FxRefreshInsert} (h : insertFx actorRef at_ ins = .ok r) :
    r.currency = ins.currency ∧ numeric 18 4 ins.rate = .ok r.rate ∧ r.source = "cbu" ∧ r.createdAt = at_ := by
  unfold insertFx at h
  split at h
  · cases h
  · next heq =>
    obtain rfl := Except.ok.inj h
    exact ⟨rfl, heq, rfl, rfl⟩

theorem exists_insertFx {actorRef : String} {at_ : ℤ} {ins : FxRefreshInsert} {rate : ℚ}
    (h : numeric 18 4 ins.rate = .ok rate) : ∃ r, insertFx actorRef at_ ins = .ok r := by
  unfold insertFx
  split
  · next heq =>
    rw [h] at heq
    cases heq
  · exact ⟨_, rfl⟩

/-- The rows a refresh adds: one for each planned currency, all of its moment. -/
structure Added (host : Js.Host) (cbuRates : List CbuRateRow) (today at_ : ℤ) (rows new : List FxRow) : Prop where
  length : new.length = FX_AUTO_CURRENCIES.countP (planned host cbuRates today rows)
  at_ : ∀ r ∈ new, r.createdAt = at_
  source : ∀ r ∈ new, r.source = "cbu"
  rate : ∀ r ∈ new, ∃ q, answered host cbuRates r.currency = some q ∧ numeric 18 4 q = .ok r.rate
  currency : ∀ c, (∃ r ∈ new, r.currency = c) ↔ c ∈ FX_AUTO_CURRENCIES ∧ planned host cbuRates today rows c = true

theorem length_mapM_ok {ε α β : Type} {f : α → Except ε β} {items : List α} {results : List β}
    (h : items.mapM f = .ok results) : results.length = items.length := by
  induction items generalizing results with
  | nil =>
    obtain rfl := Except.ok.inj h
    rfl
  | cons a items ih =>
    rw [List.mapM_cons] at h
    obtain ⟨b, -, h⟩ := Js.bind_eq_ok.mp h
    obtain ⟨bs, hbs, h⟩ := Js.bind_eq_ok.mp h
    obtain rfl := Except.ok.inj h
    rw [List.length_cons, List.length_cons, ih hbs]

theorem mem_inserts {latest : List FxRow} {targets : List String} {ins : FxRefreshInsert} :
    ins ∈ (fxRefreshPlan host cbuRates today latest targets).inserts ↔
      ∃ c ∈ targets, (planCurrency host cbuRates today latest c).getLeft? = some ins := by
  unfold fxRefreshPlan
  exact List.mem_filterMap

theorem length_inserts (latest : List FxRow) (targets : List String) :
    (fxRefreshPlan host cbuRates today latest targets).inserts.length =
      targets.countP fun c => (planCurrency host cbuRates today latest c).isLeft := by
  unfold fxRefreshPlan
  rw [List.length_filterMap_eq_countP]
  apply List.countP_congr
  intro c _
  rcases planCurrency host cbuRates today latest c <;> simp

variable {actorRef : String} {at_ : ℤ} {rows' new : List FxRow}

theorem refreshFx_eq_ok (h : refreshFx host cbuRates today actorRef at_ rows = .ok rows') :
    ∃ new, rows' = rows ++ new ∧ Added host cbuRates today at_ rows new := by
  obtain ⟨new, hnew, h⟩ := Js.bind_eq_ok.mp h
  obtain rfl := Except.ok.inj h
  refine ⟨new, rfl, ?_⟩
  obtain ⟨hof, hall⟩ := Js.mapM_eq_ok hnew
  have hins : ∀ r ∈ new, ∃ c ∈ FX_AUTO_CURRENCIES, planned host cbuRates today rows c = true ∧ r.currency = c ∧
      (∃ q, answered host cbuRates c = some q ∧ numeric 18 4 q = .ok r.rate) ∧ r.source = "cbu" ∧ r.createdAt = at_ := by
    intro r hr
    obtain ⟨ins, hmem, hok⟩ := hof r hr
    obtain ⟨c, hc, hleft⟩ := mem_inserts.mp hmem
    obtain ⟨hcurrency, hanswered⟩ := getLeft?_planCurrency hleft
    obtain ⟨hr1, hr2, hr3, hr4⟩ := insertFx_eq_ok hok
    refine ⟨c, hc, ?_, hr1.trans hcurrency, ⟨_, hanswered, hr2⟩, hr3, hr4⟩
    unfold planned
    rw [Sum.getLeft?_eq_some_iff.mp hleft]
    rfl
  refine ⟨?_, ?_, ?_, ?_, ?_⟩
  · rw [length_mapM_ok hnew, length_inserts]
    rfl
  · intro r hr
    obtain ⟨_, _, _, _, _, _, hat⟩ := hins r hr
    exact hat
  · intro r hr
    obtain ⟨_, _, _, _, _, hsource, _⟩ := hins r hr
    exact hsource
  · intro r hr
    obtain ⟨_, _, _, rfl, hrate, _⟩ := hins r hr
    exact hrate
  · intro c
    constructor
    · rintro ⟨r, hr, rfl⟩
      obtain ⟨_, hc, hplanned, rfl, _⟩ := hins r hr
      exact ⟨hc, hplanned⟩
    · rintro ⟨hc, hplanned⟩
      obtain ⟨ins, hleft⟩ : ∃ ins, (planCurrency host cbuRates today (fxCurrentFrom rows) c).getLeft? = some ins := by
        obtain ⟨ins, hins⟩ := Sum.isLeft_iff.mp hplanned
        exact ⟨ins, by rw [hins]; rfl⟩
      obtain ⟨r, hr, hok⟩ := hall ins (mem_inserts.mpr ⟨c, hc, hleft⟩)
      exact ⟨r, hr, (insertFx_eq_ok hok).1.trans (getLeft?_planCurrency hleft).1⟩

/-- A refresh goes through when the column takes the planned rates. -/
theorem exists_refreshFx
    (h : ∀ c ∈ FX_AUTO_CURRENCIES, planned host cbuRates today rows c = true →
      ∀ q, answered host cbuRates c = some q → ∃ rate, numeric 18 4 q = .ok rate) :
    ∃ rows', refreshFx host cbuRates today actorRef at_ rows = .ok rows' := by
  have hall : ∀ ins ∈ (fxRefreshPlan host cbuRates today (fxCurrentFrom rows) FX_AUTO_CURRENCIES).inserts,
      ∃ r, insertFx actorRef at_ ins = .ok r := by
    intro ins hins
    obtain ⟨c, hc, hleft⟩ := mem_inserts.mp hins
    have hplanned : planned host cbuRates today rows c = true := by
      unfold planned
      rw [Sum.getLeft?_eq_some_iff.mp hleft]
      rfl
    obtain ⟨rate, hrate⟩ := h c hc hplanned _ (getLeft?_planCurrency hleft).2
    exact exists_insertFx hrate
  obtain ⟨new, hnew⟩ := Js.exists_mapM_ok hall
  exact ⟨rows ++ new, Js.bind_eq_ok.mpr ⟨new, hnew, rfl⟩⟩

/-! Two refreshes of one day. -/

/-- The history was written before the refresh. -/
def Before (at_ : ℤ) (rows : List FxRow) : Prop := ∀ r ∈ rows, r.createdAt ≤ at_

namespace Added

variable (h : Added host cbuRates today at_ rows new)

include h

theorem ordered : new.Pairwise fun a b => a.createdAt ≤ b.createdAt := by
  apply List.Pairwise.imp_of_mem _ (List.pairwise_of_forall fun _ _ => trivial)
  intro a b ha hb _
  rw [h.at_ a ha, h.at_ b hb]

theorem later (hbefore : Before at_ rows) : ∀ x ∈ rows, ∀ y ∈ new, x.createdAt ≤ y.createdAt := by
  intro x hx y hy
  rw [h.at_ y hy]
  exact hbefore x hx

/-- A currency without a new row keeps its rate, further down. -/
theorem kept (hbefore : Before at_ rows)
    (hnot : planned host cbuRates today rows currency = false) :
    ahead (rows ++ new) currency = new.length + ahead rows currency ∧
      inForce (rows ++ new) currency = inForce rows currency := by
  have hother : ∀ y ∈ new, ofCurrency currency y = false := by
    intro y hy
    refine decide_eq_false fun heq => ?_
    have hplanned := ((h.currency currency).mp ⟨y, hy, heq⟩).2
    rw [hnot] at hplanned
    cases hplanned
  refine ⟨Latest.ahead_append_of_other h.ordered (h.later hbefore) hother, ?_⟩
  unfold inForce
  rw [Latest.latest_append h.ordered (h.later hbefore), List.filter_eq_nil_iff.mpr fun y hy => by rw [hother y hy]; decide]
  rfl

/-- A new row is in force at once, and seen. -/
theorem replaced (hbefore : Before at_ rows) (hc : currency ∈ FX_AUTO_CURRENCIES)
    (hplanned : planned host cbuRates today rows currency = true) :
    ahead (rows ++ new) currency < FX_TAIL ∧
      ∃ r ∈ new, inForce (rows ++ new) currency = some r ∧ r.currency = currency := by
  obtain ⟨y, hy, hcurrency⟩ := (h.currency currency).mpr ⟨hc, hplanned⟩
  have hof : ofCurrency currency y = true := decide_eq_true hcurrency
  have hlen : new.length ≤ 4 := h.length ▸ List.countP_le_length
  refine ⟨(Latest.ahead_append_lt h.ordered (h.later hbefore) hy hof).trans_le (hlen.trans (by decide)), ?_⟩
  have hne : new.filter (ofCurrency currency) ≠ [] := List.ne_nil_of_mem (List.mem_filter.mpr ⟨hy, hof⟩)
  have hlast := List.mem_filter.mp (List.getLast_mem hne)
  refine ⟨_, hlast.1, ?_, of_decide_eq_true hlast.2⟩
  unfold inForce
  rw [Latest.latest_append h.ordered (h.later hbefore), List.getLast?_eq_some_getLast hne]
  rfl

end Added

/-- A refresh adds a row for exactly the currencies that are due, and the next one of the day adds none. -/
def RefreshRight (host : Js.Host) (cbuRates : List CbuRateRow) (today : ℤ) (actorRef : String) (at_ : ℤ)
    (rows : List FxRow) : Prop :=
  ∃ rows', refreshFx host cbuRates today actorRef at_ rows = .ok rows' ∧
    (∀ c ∈ FX_AUTO_CURRENCIES,
      (∃ r ∈ rows'.drop rows.length, r.currency = c) ↔ due host cbuRates today rows c = true) ∧
    ∀ next, refreshFx host cbuRates today actorRef next rows' = .ok rows'

/-- The newest rows reach what stays in force, also below the rows to be added; the column keeps what is due. -/
def Reaches (host : Js.Host) (cbuRates : List CbuRateRow) (today : ℤ) (rows : List FxRow) : Prop :=
  ∀ c ∈ FX_AUTO_CURRENCIES, ∀ q ∈ answered host cbuRates c,
    if due host cbuRates today rows c then numeric 18 4 q = .ok q
    else FX_AUTO_CURRENCIES.countP (due host cbuRates today rows) + ahead rows c < FX_TAIL

/-- Nothing is added when nothing is planned, and only then. -/
theorem refreshFx_eq_self_iff :
    refreshFx host cbuRates today actorRef at_ rows = .ok rows ↔
      ∀ c ∈ FX_AUTO_CURRENCIES, planned host cbuRates today rows c = false := by
  constructor
  · intro h c hc
    obtain ⟨new, heq, hadded⟩ := refreshFx_eq_ok h
    obtain rfl : new = [] := List.self_eq_append_right.mp heq
    rw [Bool.eq_false_iff]
    intro hplanned
    obtain ⟨_, hmem, -⟩ := (hadded.currency c).mpr ⟨hc, hplanned⟩
    cases hmem
  · intro h
    obtain ⟨rows', hrows'⟩ : ∃ rows', refreshFx host cbuRates today actorRef at_ rows = .ok rows' := by
      apply exists_refreshFx
      intro c hc hplanned
      rw [h c hc] at hplanned
      cases hplanned
    obtain ⟨new, rfl, hadded⟩ := refreshFx_eq_ok hrows'
    have hnil : new = [] := by
      apply List.eq_nil_of_length_eq_zero
      rw [hadded.length, List.countP_eq_zero]
      intro c hc
      rw [h c hc]
      decide
    rw [hrows', hnil, List.append_nil]

/-- A currency that is not due has a row that stays in force, when a rate is answered. -/
theorem stays_of_not_due {q : ℚ} (hq : answered host cbuRates currency = some q)
    (h : ¬due host cbuRates today rows currency = true) :
    ∃ r, inForce rows currency = some r ∧ stays today q r = true := by
  unfold due at h
  rcases hforce : inForce rows currency with _ | r
  · exact absurd (by rw [hq, hforce]; rfl) h
  · exact ⟨r, rfl, by simpa [hq, hforce] using h⟩

theorem planned_eq_due_of_reaches (hreach : Reaches host cbuRates today rows) (hc : currency ∈ FX_AUTO_CURRENCIES) :
    planned host cbuRates today rows currency = due host cbuRates today rows currency := by
  by_cases hdue : due host cbuRates today rows currency = true
  · rw [hdue, planned_of_due hdue]
  · rcases hq : answered host cbuRates currency with _ | q
    · unfold planned due
      rw [isLeft_planCurrency, hq]
      rfl
    · have hseen := hreach currency hc q hq
      rw [if_neg hdue] at hseen
      exact planned_of_seen (by omega)

theorem refreshRight_iff (hbefore : Before at_ rows) :
    RefreshRight host cbuRates today actorRef at_ rows ↔ Reaches host cbuRates today rows := by
  constructor
  · rintro ⟨rows', hok, hdue, hnext⟩ c hc q hq
    obtain ⟨new, rfl, hadded⟩ := refreshFx_eq_ok hok
    have hsame : ∀ c ∈ FX_AUTO_CURRENCIES, planned host cbuRates today rows c = due host cbuRates today rows c := by
      intro c hc
      have hiff := hdue c hc
      rw [List.drop_left, hadded.currency c, and_iff_right hc] at hiff
      exact Bool.eq_iff_iff.mpr hiff
    have hcount : FX_AUTO_CURRENCIES.countP (due host cbuRates today rows) = new.length := by
      rw [hadded.length]
      exact List.countP_congr fun c hc => by rw [hsame c hc]
    have hquiet := refreshFx_eq_self_iff.mp (hnext at_) c hc
    split_ifs with hcdue
    · obtain ⟨hseen, r, hr, hforce, hcurrency⟩ := hadded.replaced hbefore hc ((hsame c hc).trans hcdue)
      obtain ⟨q', hq', hnumeric⟩ := hadded.rate r hr
      rw [hcurrency, hq] at hq'
      obtain rfl := Option.some.inj hq'
      rw [planned_of_seen hseen] at hquiet
      obtain ⟨r', hr', hstays⟩ := stays_of_not_due hq (Bool.eq_false_iff.mp hquiet)
      rw [hforce] at hr'
      obtain rfl := Option.some.inj hr'
      have hrate : r.rate = q := by simpa [stays, hadded.source r hr] using hstays
      rw [hnumeric, hrate]
    · obtain ⟨hahead, -⟩ := hadded.kept hbefore ((hsame c hc).trans (Bool.eq_false_iff.mpr hcdue))
      rw [hcount, ← hahead]
      by_contra hunseen
      rw [planned_of_unseen hunseen, hq] at hquiet
      cases hquiet
  · intro hreach
    have hsame := fun c (hc : c ∈ FX_AUTO_CURRENCIES) => planned_eq_due_of_reaches hreach hc
    obtain ⟨rows', hok⟩ : ∃ rows', refreshFx host cbuRates today actorRef at_ rows = .ok rows' := by
      apply exists_refreshFx
      intro c hc hplanned q hq
      have hcolumn := hreach c hc q hq
      rw [← hsame c hc, if_pos hplanned] at hcolumn
      exact ⟨q, hcolumn⟩
    obtain ⟨new, rfl, hadded⟩ := refreshFx_eq_ok hok
    have hcount : new.length = FX_AUTO_CURRENCIES.countP (due host cbuRates today rows) := by
      rw [hadded.length]
      exact List.countP_congr fun c hc => by rw [hsame c hc]
    refine ⟨_, hok, ?_, fun next => refreshFx_eq_self_iff.mpr ?_⟩
    · intro c hc
      rw [List.drop_left, hadded.currency c, and_iff_right hc, hsame c hc]
    · intro c hc
      rcases hq : answered host cbuRates c with _ | q
      · unfold planned
        rw [isLeft_planCurrency, hq]
        rfl
      · have hcolumn := hreach c hc q hq
        split_ifs at hcolumn with hcdue
        · obtain ⟨hseen, r, hr, hforce, hcurrency⟩ := hadded.replaced hbefore hc ((hsame c hc).trans hcdue)
          obtain ⟨q', hq', hnumeric⟩ := hadded.rate r hr
          rw [hcurrency, hq] at hq'
          obtain rfl := Option.some.inj hq'
          rw [hcolumn] at hnumeric
          have hstays : stays today q r = true := by simp [stays, Except.ok.inj hnumeric]
          rw [planned_of_seen hseen, due, hq, hforce, Option.any_some, Option.any_some, hstays]
          rfl
        · obtain ⟨hahead, hforce⟩ := hadded.kept hbefore ((hsame c hc).trans (Bool.eq_false_iff.mpr hcdue))
          rw [planned_of_seen (by omega), due, hforce]
          exact Bool.eq_false_iff.mpr hcdue

/-- A flow fixes the rate in force when the newest rows reach it, and a refresh is right when they reach the rates
that stay. -/
theorem rates_right_iff (hbefore : Before at_ rows) :
    (∀ base flowId now input row, createFlow (financeEnv base rows) flowId now input = .ok row → input.rate = none →
      row.currency ≠ "UZS" →
        (RateFixed rows row ↔ (∀ r ∈ rows, r.currency ≠ row.currency) ∨ ahead rows row.currency < FX_TAIL)) ∧
      (RefreshRight host cbuRates today actorRef at_ rows ↔ Reaches host cbuRates today rows) :=
  ⟨fun _ _ _ _ _ hok hrate hforeign => rateFixed_iff hok hrate hforeign, refreshRight_iff hbefore⟩

def ratesHost : Js.Host := ⟨id, fun s => if s = "12700" then some 12700 else none, fun _ => "", fun _ => "", fun _ _ => 0, id⟩

def fxRowAt (currency : String) (at_ : ℤ) : FxRow := ⟨currency, 12600, "cbu", none, none, at_, by decide +kernel⟩

def ratesBase : FinanceEnv := ⟨id, fun _ => none, fun _ => true⟩

def dollars : CreateFlowInput :=
  ⟨.incoming, .actual, 100, some "USD", none, none, none, none, none, none, none, none⟩

theorem rates_right_once :
    Before 5 [fxRowAt "USD" 5] ∧ (createFlow (financeEnv ratesBase [fxRowAt "USD" 5]) 1 6 dollars).toOption.isSome = true ∧
      RefreshRight ratesHost [⟨"USD", "12700", "28.02.2026"⟩] 0 "owner" 5 [fxRowAt "USD" 5] := by
  have hbefore : Before 5 [fxRowAt "USD" 5] := List.forall_mem_singleton.mpr le_rfl
  obtain ⟨row, hrow⟩ := Option.isSome_iff_exists.mp
    (by decide +kernel : (createFlow (financeEnv ratesBase [fxRowAt "USD" 5]) 1 6 dollars).toOption.isSome = true)
  refine ⟨hbefore, by rw [hrow]; rfl, ((rates_right_iff hbefore).2).mpr ?_⟩
  unfold Reaches
  decide +kernel

/-- One dollar rate, and then two hundred of the yuan. -/
def yuanOnly : List FxRow := [fxRowAt "USD" 0] ++ List.replicate FX_TAIL (fxRowAt "CNY" 1)

theorem ahead_yuanOnly : ahead yuanOnly "USD" = FX_TAIL := by
  have hyuan : ∀ y ∈ List.replicate FX_TAIL (fxRowAt "CNY" 1), y = fxRowAt "CNY" 1 :=
    fun y hy => List.eq_of_mem_replicate hy
  unfold ahead yuanOnly
  rw [Latest.ahead_append_of_other, List.length_replicate]
  · rfl
  · exact List.pairwise_replicate.mpr (.inr le_rfl)
  · intro x hx y hy
    rw [hyuan y hy, List.mem_singleton.mp hx]
    decide
  · intro y hy
    rw [hyuan y hy]
    decide

/-- A dollar flow is stored without a rate although the dollar has one. -/
theorem dollars_without_rate :
    ∃ row, createFlow (financeEnv ratesBase yuanOnly) 1 2 dollars = .ok row ∧ ¬RateFixed yuanOnly row := by
  have hunseen : (fxCurrentFrom yuanOnly).find? (ofCurrency "USD") = none := by
    rw [find?_fxCurrentFrom, ahead_yuanOnly, if_neg (lt_irrefl _)]
  have hprep : prepareFlow (financeEnv ratesBase yuanOnly) dollars = prepareFlow ratesBase dollars := by
    apply prepareFlow_congr
    have hcurrency : Js.trim (ratesBase.toUpperCase (dollars.currency.getD "UZS")) = "USD" := by decide +kernel
    rw [hcurrency, hunseen]
    rfl
  obtain ⟨row, hrow⟩ := Option.isSome_iff_exists.mp
    (by decide +kernel : (createFlow ratesBase 1 2 dollars).toOption.isSome = true)
  have hstored : (createFlow ratesBase 1 2 dollars).toOption.map (fun row => (row.currency, row.rate)) = some ("USD", none) := by
    decide +kernel
  rw [hrow, Option.map_some, Option.some.injEq, Prod.mk.injEq] at hstored
  refine ⟨row, ?_, ?_⟩
  · unfold createFlow
    rw [hprep]
    exact Js.toOption_eq_some.mp hrow
  · rintro (⟨r, -, hr⟩ | ⟨hnone, -⟩)
    · rw [hstored.2] at hr
      cases hr
    · rw [hstored.1] at hnone
      exact hnone (fxRowAt "USD" 0) (List.mem_append_left _ List.mem_cons_self) rfl

end Mydon.Finance
