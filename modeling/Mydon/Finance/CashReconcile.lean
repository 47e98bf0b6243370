import Mydon.Cash.Collections
import Mydon.Clock.MonthTexts

/-! What was taken from the machines against what was paid into the bank, month by month: the months, the totals
and the gaps. -/

namespace Mydon.Finance

open Mydon.Lib Mydon.Cash

/-- An amount is unknown while the collection waits to be received. -/
structure CashMovement where
  date : ℤ
  amount : Option ℚ
  deriving DecidableEq

inductive PeriodStatus
  | ok
  | empty
  | noWithdrawn
  | noDeposit
  | pendingReceipt
  deriving DecidableEq

structure CashReconcilePeriod where
  period : String
  withdrawn : ℤ
  withdrawnCount : ℕ
  withdrawnPending : ℕ
  deposited : ℤ
  depositedCount : ℕ
  diff : ℤ
  status : PeriodStatus
  deriving DecidableEq

structure CashReconcileReport where
  withdrawn : ℤ
  withdrawnCount : ℕ
  withdrawnPendingCount : ℕ
  hasWithdrawn : Bool
  deposited : ℤ
  depositedCount : ℕ
  hasDeposited : Bool
  diff : ℤ
  periods : List CashReconcilePeriod
  gaps : List CashReconcilePeriod
  deriving DecidableEq

/-- Two dates `YYYY-MM-DD`, the first not later. -/
structure DateRange where
  from_ : ℤ
  to_ : ℤ
  hfrom : Clock.ofCivil 0 1 1 ≤ from_
  hto : to_ ≤ Clock.ofCivil 9999 12 31
  hle : from_ ≤ to_

/-! The months of the range. -/

/-- The loop; the guard keeps it from running on. -/
def monthLoop (yTo mTo : ℕ) : ℕ → ℕ → ℕ → List String
  | 0, _, _ => []
  | guard + 1, y, m =>
    if y < yTo ∨ y = yTo ∧ m ≤ mTo then
      (toString y ++ "-" ++ Clock.padStart 2 m) ::
        if 12 < m + 1 then monthLoop yTo mTo guard (y + 1) 1 else monthLoop yTo mTo guard y (m + 1)
    else []

def MONTH_GUARD : ℕ := 1200

def monthRange (from_ to_ : ℤ) : List String :=
  let (y, m, _) := Clock.civil from_
  let (yTo, mTo, _) := Clock.civil to_
  monthLoop yTo.toNat mTo.toNat MONTH_GUARD y.toNat m.toNat

/-- `dayKey(d, tz).slice(0, 7)`. -/
def monthKey (day : ℤ) : String :=
  let (y, m, _) := Clock.civil day
  Clock.padStart 4 y ++ "-" ++ Clock.padStart 2 m

/-! The report. -/

structure MonthSide where
  sum : ℚ
  count : ℕ
  pendingCount : ℕ
  deriving DecidableEq

def MonthSide.zero : MonthSide := ⟨0, 0, 0⟩

def MonthSide.add (e : MonthSide) (x : CashMovement) : MonthSide :=
  match x.amount with
  | none => { e with pendingCount := e.pendingCount + 1 }
  | some amount => { e with sum := e.sum + amount, count := e.count + 1 }

/-- The zone says on which day a moment falls. -/
def byMonth (day : ℤ → ℤ) (rows : List CashMovement) : List (String × MonthSide) :=
  tally (fun x => monthKey (day x.date)) (fun _ => MonthSide.zero) MonthSide.add rows

def periodStatus (wm dm : MonthSide) : PeriodStatus :=
  if wm.count = 0 ∧ 0 < wm.pendingCount then .pendingReceipt
  else if wm.count = 0 ∧ dm.count = 0 then .empty
  else if wm.count = 0 then .noWithdrawn
  else if dm.count = 0 then .noDeposit
  else .ok

def periodOf (month : String) (wm dm : MonthSide) : CashReconcilePeriod where
  period := month
  withdrawn := mathRound wm.sum
  withdrawnCount := wm.count
  withdrawnPending := wm.pendingCount
  deposited := mathRound dm.sum
  depositedCount := dm.count
  diff := mathRound (dm.sum - wm.sum)
  status := periodStatus wm dm

def inRange (day : ℤ → ℤ) (range : DateRange) (x : CashMovement) : Bool :=
  range.from_ ≤ day x.date && day x.date ≤ range.to_

def isGap (p : CashReconcilePeriod) : Bool := p.status = .noWithdrawn || p.status = .noDeposit

def cashReconcile (day : ℤ → ℤ) (withdrawals deposits : List CashMovement) (range : DateRange) : CashReconcileReport :=
  let w := withdrawals.filter (inRange day range)
  let dep := deposits.filter (inRange day range)
  let wByMonth := byMonth day w
  let depByMonth := byMonth day dep
  let periods := (monthRange range.from_ range.to_).map fun month =>
    periodOf month ((OrderedMap.get wByMonth month).getD .zero) ((OrderedMap.get depByMonth month).getD .zero)
  let wKnown := w.filterMap CashMovement.amount
  let withdrawn := mathRound wKnown.sum
  let deposited := mathRound (dep.map fun x => x.amount.getD 0).sum
  { withdrawn
    withdrawnCount := wKnown.length
    withdrawnPendingCount := w.length - wKnown.length
    hasWithdrawn := 0 < w.length
    deposited
    depositedCount := dep.length
    hasDeposited := 0 < dep.length
    diff := deposited - withdrawn
    periods
    gaps := periods.filter isGap }

/-! The months come in order. -/

/-- The months of the range, counted from January of the year 0. -/
def DateRange.months (range : DateRange) : List ℤ :=
  (List.range (Clock.monthOf range.to_ - Clock.monthOf range.from_ + 1).toNat).map fun i : ℕ =>
    Clock.monthOf range.from_ + i

/-- A month as the loop prints it. -/
def printedMonth (t : ℕ) : String := toString (t / 12) ++ "-" ++ Clock.padStart 2 ((t % 12 + 1 : ℕ) : ℤ)

theorem monthLoop_eq {yTo mTo y m : ℕ} (guard : ℕ) (hm : 1 ≤ m ∧ m ≤ 12) (hmTo : 1 ≤ mTo ∧ mTo ≤ 12) :
    monthLoop yTo mTo guard y m =
      (List.range (min guard (12 * yTo + mTo + 1 - (12 * y + m)))).map fun i => printedMonth (12 * y + (m - 1) + i) := by
  induction guard generalizing y m with
  | zero => rfl
  | succ guard ih =>
    have hcons : ∀ y' m', 1 ≤ m' ∧ m' ≤ 12 → 12 * y' + m' = 12 * y + m + 1 → 12 * y + m ≤ 12 * yTo + mTo →
        (toString y ++ "-" ++ Clock.padStart 2 m) :: monthLoop yTo mTo guard y' m' =
          (List.range (min (guard + 1) (12 * yTo + mTo + 1 - (12 * y + m)))).map fun i =>
            printedMonth (12 * y + (m - 1) + i) := by
      intro y' m' hm' hnext hin
      rw [ih hm', show min (guard + 1) (12 * yTo + mTo + 1 - (12 * y + m)) =
        min guard (12 * yTo + mTo + 1 - (12 * y' + m')) + 1 by omega, List.range_succ_eq_map, List.map_cons, List.map_map]
      congr 1
      · unfold printedMonth
        rw [show (12 * y + (m - 1) + 0) / 12 = y by omega, show (12 * y + (m - 1) + 0) % 12 + 1 = m by omega]
      · apply List.map_congr_left
        intro i _
        simp only [Function.comp_apply]
        congr 1
        omega
    unfold monthLoop
    split_ifs with hin hyear
    · exact hcons (y + 1) 1 (by omega) (by omega) (by omega)
    · exact hcons y (m + 1) (by omega) (by omega) (by omega)
    · rw [show min (guard + 1) (12 * yTo + mTo + 1 - (12 * y + m)) = 0 by omega]
      rfl

namespace DateRange

variable (range : DateRange)

theorem bounds : 0 ≤ Clock.monthOf range.from_ ∧ Clock.monthOf range.from_ ≤ Clock.monthOf range.to_ ∧
    Clock.monthOf range.to_ < 120000 := by
  have hfirst := Clock.monthOf_mono range.hfrom
  have hlast := Clock.monthOf_mono range.hto
  have hzero : Clock.monthOf (Clock.ofCivil 0 1 1) = 0 := by decide
  have htop : Clock.monthOf (Clock.ofCivil 9999 12 31) = 119999 := by decide
  have hmono := Clock.monthOf_mono range.hle
  omega

theorem mem_months {t : ℤ} : t ∈ range.months ↔ Clock.monthOf range.from_ ≤ t ∧ t ≤ Clock.monthOf range.to_ := by
  have hbounds := range.bounds
  unfold months
  rw [List.mem_map]
  constructor
  · rintro ⟨i, hi, rfl⟩
    rw [List.mem_range] at hi
    omega
  · rintro ⟨hlo, hhi⟩
    exact ⟨(t - Clock.monthOf range.from_).toNat, List.mem_range.mpr (by omega), by omega⟩

theorem nodup_months : range.months.Nodup := by
  apply List.Nodup.map _ List.nodup_range
  intro i j hij
  simpa using hij

theorem length_months : range.months.length = (Clock.monthOf range.to_ - Clock.monthOf range.from_ + 1).toNat := by
  unfold months
  rw [List.length_map, List.length_range]

end DateRange

theorem printedMonth_iff (t : ℕ) : printedMonth t = Clock.monthText t ↔ 12000 ≤ t := by
  unfold printedMonth Clock.monthText
  rw [show ((t : ℤ) / 12) = ((t / 12 : ℕ) : ℤ) by omega, show ((t : ℤ) % 12 + 1) = ((t % 12 + 1 : ℕ) : ℤ) by omega,
    String.append_assoc, String.append_assoc, ← String.toList_inj, String.toList_append,
    @String.toList_append (Clock.padStart 4 _), List.append_left_inj, String.toList_inj, Clock.padStart_four_iff]
  omega

theorem monthRange_eq (range : DateRange) : monthRange range.from_ range.to_ =
    (List.range (min MONTH_GUARD range.months.length)).map fun i =>
      printedMonth ((Clock.monthOf range.from_).toNat + i) := by
  have hbounds := range.bounds
  unfold monthRange
  rw [Clock.civil_eq range.from_, Clock.civil_eq range.to_, range.length_months]
  dsimp only
  rw [monthLoop_eq MONTH_GUARD (by omega) (by omega)]
  congr 1
  · funext i
    congr 1
    omega
  · congr 2
    omega

/-- Each month is listed once, as `YYYY-MM`, from the year 1000 on and when there are no more than the guard lets pass. -/
theorem monthRange_iff (range : DateRange) : monthRange range.from_ range.to_ = range.months.map Clock.monthText ↔
    12000 ≤ Clock.monthOf range.from_ ∧ range.months.length ≤ MONTH_GUARD := by
  have hbounds := range.bounds
  have hlength := range.length_months
  rw [monthRange_eq]
  constructor
  · intro h
    have hlen := congrArg List.length h
    rw [List.length_map, List.length_map, List.length_range] at hlen
    have hguard : MONTH_GUARD = 1200 := rfl
    have hfirst : range.months.head? = some (Clock.monthOf range.from_) := by
      unfold DateRange.months
      rw [List.head?_map, List.head?_range, if_neg (by omega), Option.map_some, Int.natCast_zero, add_zero]
    have hhead := congrArg List.head? h
    rw [List.head?_map, List.head?_map, hfirst, List.head?_range, if_neg (by omega), Option.map_some, Option.map_some,
      Option.some.injEq] at hhead
    have hprinted : printedMonth (Clock.monthOf range.from_).toNat = Clock.monthText (Clock.monthOf range.from_).toNat := by
      rw [Int.toNat_of_nonneg hbounds.1]
      simpa using hhead
    have hyear := (printedMonth_iff _).mp hprinted
    omega
  · rintro ⟨hyear, hguard⟩
    rw [Nat.min_eq_right hguard]
    unfold DateRange.months
    rw [List.length_map, List.length_range, List.map_map]
    apply List.map_congr_left
    intro i _
    simp only [Function.comp_apply]
    rw [(printedMonth_iff _).mpr (by omega)]
    congr 1
    omega

/-! What lies in a month. -/

variable {day : ℤ → ℤ} {range : DateRange} {rows withdrawals deposits : List CashMovement} {t : ℤ}

def knownAmounts (rows : List CashMovement) : List ℚ := rows.filterMap CashMovement.amount

def side (rows : List CashMovement) : MonthSide :=
  ⟨(knownAmounts rows).sum, (knownAmounts rows).length, rows.countP fun x => x.amount.isNone⟩

theorem foldl_add (rows : List CashMovement) (e : MonthSide) : rows.foldl MonthSide.add e =
    ⟨e.sum + (side rows).sum, e.count + (side rows).count, e.pendingCount + (side rows).pendingCount⟩ := by
  induction rows generalizing e with
  | nil => simp [side, knownAmounts]
  | cons x rows ih =>
    rw [List.foldl_cons, ih]
    rcases hx : x.amount with _ | amount
    · simp [MonthSide.add, side, knownAmounts, hx, Nat.add_assoc, Nat.add_comm]
    · simp [MonthSide.add, side, knownAmounts, hx, add_assoc, Nat.add_comm]

theorem monthKey_eq (d : ℤ) : monthKey d = Clock.monthText (Clock.monthOf d) := by
  unfold monthKey
  rw [Clock.civil_eq]
  rfl

/-- The movements of the range that fall into a month. -/
def ofMonth (day : ℤ → ℤ) (range : DateRange) (t : ℤ) (rows : List CashMovement) : List CashMovement :=
  (rows.filter (inRange day range)).filter fun x => Clock.monthOf (day x.date) = t

theorem month_mem (x : CashMovement) (h : inRange day range x = true) : Clock.monthOf (day x.date) ∈ range.months := by
  obtain ⟨hlo, hhi⟩ := Bool.and_eq_true_iff.mp h
  exact range.mem_months.mpr ⟨Clock.monthOf_mono (of_decide_eq_true hlo), Clock.monthOf_mono (of_decide_eq_true hhi)⟩

theorem getD_byMonth (ht : t ∈ range.months) :
    (OrderedMap.get (byMonth day (rows.filter (inRange day range))) (Clock.monthText t)).getD .zero =
      side (ofMonth day range t rows) := by
  have hbounds := range.bounds
  have hmem := range.mem_months.mp ht
  have hfilter : (rows.filter (inRange day range)).filter (fun x => monthKey (day x.date) = Clock.monthText t) =
      ofMonth day range t rows := by
    apply List.filter_congr
    intro x hx
    have hxmem := range.mem_months.mp (month_mem x (List.mem_filter.mp hx).2)
    rw [monthKey_eq, decide_eq_decide]
    exact ⟨Clock.monthText_inj (by omega) (by omega), congrArg Clock.monthText⟩
  unfold byMonth
  rw [get_tally, hfilter, foldl_add]
  split_ifs with hin
  · simp [MonthSide.zero]
  · have hnil : ofMonth day range t rows = [] := by
      rw [← hfilter, List.filter_eq_nil_iff]
      intro x hx heq
      exact hin (List.mem_map.mpr ⟨x, hx, of_decide_eq_true heq⟩)
    rw [hnil]
    rfl

/-- The months are reported from what lies in them. -/
theorem periods_eq (h : monthRange range.from_ range.to_ = range.months.map Clock.monthText) :
    (cashReconcile day withdrawals deposits range).periods = range.months.map fun t =>
      periodOf (Clock.monthText t) (side (ofMonth day range t withdrawals)) (side (ofMonth day range t deposits)) := by
  unfold cashReconcile
  dsimp only
  rw [h, List.map_map]
  apply List.map_congr_left
  intro t ht
  simp only [Function.comp_apply]
  rw [getD_byMonth ht, getD_byMonth ht]

/-! Rounding. -/

/-- How far a sum is moved when it is rounded. -/
def roundingError (x : ℚ) : ℚ := mathRound x - x

/-- Rounding takes back an error like this one. -/
def Negligible (e : ℚ) : Prop := -(1 / 2) < e ∧ e ≤ 1 / 2

theorem mathRound_eq_iff {x : ℚ} {n : ℤ} : mathRound x = n ↔ Negligible (n - x) := by
  unfold mathRound Negligible
  rw [Int.floor_eq_iff]
  constructor
  · rintro ⟨hlo, hhi⟩
    constructor <;> linarith
  · rintro ⟨hlo, hhi⟩
    constructor <;> linarith

theorem cast_sum_mathRound (xs : List ℚ) :
    (((xs.map mathRound).sum : ℤ) : ℚ) = xs.sum + (xs.map roundingError).sum := by
  induction xs with
  | nil => simp
  | cons x xs ih =>
    rw [List.map_cons, List.sum_cons, Int.cast_add, ih, List.sum_cons, List.map_cons, List.sum_cons, roundingError]
    ring

/-- Rounded parts add up to the rounded whole when their errors together are negligible. -/
theorem sum_mathRound_iff (xs : List ℚ) :
    (xs.map mathRound).sum = mathRound xs.sum ↔ Negligible (xs.map roundingError).sum := by
  rw [eq_comm, mathRound_eq_iff, cast_sum_mathRound, add_sub_cancel_left]

/-- A rounded difference is the difference of what was rounded when the errors differ by a negligible one. -/
theorem mathRound_sub_iff (x y : ℚ) :
    mathRound (x - y) = mathRound x - mathRound y ↔ Negligible (roundingError x - roundingError y) := by
  rw [mathRound_eq_iff]
  unfold roundingError
  push_cast
  rw [sub_sub_sub_comm]

/-! The report adds up. -/

/-- What is known of the amounts of a month. -/
def monthSum (day : ℤ → ℤ) (range : DateRange) (rows : List CashMovement) (t : ℤ) : ℚ :=
  (side (ofMonth day range t rows)).sum

/-- A month with known movements on one side only, unless it is the withdrawals that are missing and some wait. -/
def OneSided (p : CashReconcilePeriod) : Prop :=
  0 < p.withdrawnCount ∧ p.depositedCount = 0 ∨ p.withdrawnCount = 0 ∧ 0 < p.depositedCount ∧ p.withdrawnPending = 0

instance (p : CashReconcilePeriod) : Decidable (OneSided p) := by unfold OneSided; infer_instance

structure AddsUp (day : ℤ → ℤ) (withdrawals deposits : List CashMovement) (range : DateRange)
    (r : CashReconcileReport) : Prop where
  /-- Each calendar month of the range once, in order. -/
  months : r.periods.map CashReconcilePeriod.period = range.months.map Clock.monthText
  /-- A movement of the range has one month among them, and is counted in it. -/
  once : ∀ x ∈ withdrawals ++ deposits, inRange day range x = true → range.months.count (Clock.monthOf (day x.date)) = 1
  counted : (r.periods.map fun p => (p.withdrawnCount, p.withdrawnPending, p.depositedCount)) =
    range.months.map fun t => ((ofMonth day range t withdrawals).countP fun x => x.amount.isSome,
      (ofMonth day range t withdrawals).countP fun x => x.amount.isNone, (ofMonth day range t deposits).length)
  counts : r.withdrawnCount + r.withdrawnPendingCount = withdrawals.countP (inRange day range) ∧
    r.depositedCount = deposits.countP (inRange day range)
  sumCounts : (r.periods.map CashReconcilePeriod.withdrawnCount).sum = r.withdrawnCount ∧
    (r.periods.map CashReconcilePeriod.withdrawnPending).sum = r.withdrawnPendingCount ∧
    (r.periods.map CashReconcilePeriod.depositedCount).sum = r.depositedCount
  sums : (r.periods.map CashReconcilePeriod.withdrawn).sum = r.withdrawn ∧
    (r.periods.map CashReconcilePeriod.deposited).sum = r.deposited ∧
    (r.periods.map CashReconcilePeriod.diff).sum = r.diff
  diffs : r.diff = r.deposited - r.withdrawn ∧ ∀ p ∈ r.periods, p.diff = p.deposited - p.withdrawn
  gaps : r.gaps = r.periods.filter fun p => OneSided p

/-- Four-digit years, no more months than the guard lets pass, and rounding errors that are negligible. -/
structure RoundsUp (day : ℤ → ℤ) (withdrawals deposits : List CashMovement) (range : DateRange) : Prop where
  year : 1000 ≤ (Clock.civil range.from_).1
  short : range.months.length ≤ MONTH_GUARD
  withdrawn : Negligible (range.months.map fun t => roundingError (monthSum day range withdrawals t)).sum
  deposited : Negligible (range.months.map fun t => roundingError (monthSum day range deposits t)).sum
  diff : ∀ t ∈ range.months,
    Negligible (roundingError (monthSum day range deposits t) - roundingError (monthSum day range withdrawals t))

theorem length_knownAmounts (rows : List CashMovement) : (knownAmounts rows).length = rows.countP fun x => x.amount.isSome :=
  List.length_filterMap_eq_countP

theorem sum_knownAmounts (rows : List CashMovement) : (knownAmounts rows).sum = (rows.map fun x => x.amount.getD 0).sum := by
  induction rows with
  | nil => rfl
  | cons x rows ih =>
    unfold knownAmounts at ih ⊢
    rcases hx : x.amount with _ | amount
    · rw [List.filterMap_cons_none hx, ih, List.map_cons, List.sum_cons, hx, Option.getD_none, zero_add]
    · rw [List.filterMap_cons_some hx, List.sum_cons, ih, List.map_cons, List.sum_cons, hx, Option.getD_some]

/-- The months' sums are all there is in the range. -/
theorem sum_monthSum (rows : List CashMovement) : (range.months.map (monthSum day range rows)).sum =
    (knownAmounts (rows.filter (inRange day range))).sum := by
  have hsum := sum_by_key (fun x => x.amount.getD 0) range.nodup_months
    (fun x (hx : x ∈ rows.filter (inRange day range)) => month_mem x (List.mem_filter.mp hx).2)
  rw [sum_knownAmounts, ← hsum]
  congr 1
  apply List.map_congr_left
  intro t _
  exact sum_knownAmounts _

theorem sum_countP_ofMonth (p : CashMovement → Bool) (rows : List CashMovement) :
    (range.months.map fun t => (ofMonth day range t rows).countP p).sum = (rows.filter (inRange day range)).countP p := by
  have hone : ∀ rows : List CashMovement, rows.countP p = (rows.map fun x => if p x then 1 else 0).sum := by
    intro rows
    induction rows with
    | nil => rfl
    | cons x rows ih => rw [List.countP_cons, ih, List.map_cons, List.sum_cons, Nat.add_comm]
  have hsum := sum_by_key (fun x => if p x then 1 else 0) range.nodup_months
    (fun x (hx : x ∈ rows.filter (inRange day range)) => month_mem x (List.mem_filter.mp hx).2)
  rw [hone, ← hsum]
  congr 1
  apply List.map_congr_left
  intro t _
  exact hone _

theorem isGap_iff (month : String) (wm dm : MonthSide) :
    isGap (periodOf month wm dm) = true ↔ OneSided (periodOf month wm dm) := by
  unfold isGap OneSided periodOf periodStatus
  simp only [Bool.or_eq_true, decide_eq_true_eq]
  split_ifs <;> simp <;> omega

section listed

variable (h : monthRange range.from_ range.to_ = range.months.map Clock.monthText)

include h

theorem map_periods {β : Type} (f : CashReconcilePeriod → β) :
    (cashReconcile day withdrawals deposits range).periods.map f = range.months.map fun t =>
      f (periodOf (Clock.monthText t) (side (ofMonth day range t withdrawals)) (side (ofMonth day range t deposits))) := by
  rw [periods_eq h, List.map_map]
  rfl

theorem counted_of_listed (hknown : ∀ x ∈ deposits, x.amount.isSome = true) :
    ((cashReconcile day withdrawals deposits range).periods.map fun p =>
        (p.withdrawnCount, p.withdrawnPending, p.depositedCount)) =
      range.months.map fun t => ((ofMonth day range t withdrawals).countP fun x => x.amount.isSome,
        (ofMonth day range t withdrawals).countP fun x => x.amount.isNone, (ofMonth day range t deposits).length) := by
  rw [map_periods h]
  apply List.map_congr_left
  intro t _
  have hall : (ofMonth day range t deposits).countP (fun x => x.amount.isSome) = (ofMonth day range t deposits).length := by
    rw [List.countP_eq_length]
    intro x hx
    exact hknown x (List.mem_of_mem_filter (List.mem_of_mem_filter hx))
  simp only [periodOf, side, length_knownAmounts, hall]

theorem sumWithdrawn_iff : ((cashReconcile day withdrawals deposits range).periods.map CashReconcilePeriod.withdrawn).sum =
      (cashReconcile day withdrawals deposits range).withdrawn ↔
    Negligible (range.months.map fun t => roundingError (monthSum day range withdrawals t)).sum := by
  have hiff := sum_mathRound_iff (range.months.map (monthSum day range withdrawals))
  rw [List.map_map, List.map_map, sum_monthSum] at hiff
  rw [map_periods h]
  exact hiff

theorem sumDeposited_iff : ((cashReconcile day withdrawals deposits range).periods.map CashReconcilePeriod.deposited).sum =
      (cashReconcile day withdrawals deposits range).deposited ↔
    Negligible (range.months.map fun t => roundingError (monthSum day range deposits t)).sum := by
  have hiff := sum_mathRound_iff (range.months.map (monthSum day range deposits))
  rw [List.map_map, List.map_map, sum_monthSum, sum_knownAmounts] at hiff
  rw [map_periods h]
  exact hiff

theorem diffs_iff : (∀ p ∈ (cashReconcile day withdrawals deposits range).periods, p.diff = p.deposited - p.withdrawn) ↔
    ∀ t ∈ range.months,
      Negligible (roundingError (monthSum day range deposits t) - roundingError (monthSum day range withdrawals t)) := by
  rw [periods_eq h, List.forall_mem_map]
  exact forall₂_congr fun t _ => mathRound_sub_iff _ _

/-- What does not depend on rounding. -/
theorem sumCounts_of_listed (hknown : ∀ x ∈ deposits, x.amount.isSome = true) :
    ((cashReconcile day withdrawals deposits range).periods.map CashReconcilePeriod.withdrawnCount).sum =
        (cashReconcile day withdrawals deposits range).withdrawnCount ∧
      ((cashReconcile day withdrawals deposits range).periods.map CashReconcilePeriod.withdrawnPending).sum =
        (cashReconcile day withdrawals deposits range).withdrawnPendingCount ∧
      ((cashReconcile day withdrawals deposits range).periods.map CashReconcilePeriod.depositedCount).sum =
        (cashReconcile day withdrawals deposits range).depositedCount := by
  have hpending : (withdrawals.filter (inRange day range)).length = _ + _ :=
    List.length_eq_countP_add_countP fun x : CashMovement => x.amount.isSome
  rw [map_periods h, map_periods h, map_periods h]
  refine ⟨?_, ?_, ?_⟩
  · simp only [periodOf, side, length_knownAmounts]
    rw [sum_countP_ofMonth, ← length_knownAmounts]
    rfl
  · simp only [periodOf, side]
    rw [sum_countP_ofMonth]
    change _ = (withdrawals.filter (inRange day range)).length - (knownAmounts _).length
    rw [length_knownAmounts]
    simp only [Bool.not_eq_true, Option.isSome_eq_false_iff, Bool.decide_eq_true] at hpending
    omega
  · simp only [periodOf, side, length_knownAmounts]
    rw [sum_countP_ofMonth, List.countP_eq_length.mpr fun x hx => hknown x (List.mem_of_mem_filter hx)]
    rfl

theorem gaps_of_listed : (cashReconcile day withdrawals deposits range).gaps =
    (cashReconcile day withdrawals deposits range).periods.filter fun p => OneSided p := by
  change (cashReconcile day withdrawals deposits range).periods.filter isGap = _
  rw [periods_eq h]
  apply List.filter_congr
  intro p hp
  obtain ⟨t, -, rfl⟩ := List.mem_map.mp hp
  exact Bool.eq_iff_iff.mpr ((isGap_iff _ _ _).trans (decide_eq_true_iff).symm)

end listed

theorem periods_listed : (cashReconcile day withdrawals deposits range).periods.map CashReconcilePeriod.period =
    monthRange range.from_ range.to_ := by
  unfold cashReconcile
  rw [List.map_map]
  exact List.map_id _

/-- 2026-02-01 to 2026-02-28. -/
def february : DateRange := ⟨20485, 20512, by decide, by decide, by decide⟩

end Mydon.Finance
