import Mydon.Clock.Months
import Mathlib.Order.Bounds.Defs
import Mathlib.Order.MinMax

/-! The anchor of a maintenance plan: the planned day of the next work, moved by whole periods once the work
is done. -/

namespace Mydon.Maintenance

/-- A day as `YYYY-MM-DD`: of the years 0 to 9999. -/
abbrev IsoDay := {day : ℤ // Clock.ofCivil 0 1 1 ≤ day ∧ day ≤ Clock.ofCivil 9999 12 31}

/-- `Date.UTC` reads the years 0 to 99 as 1900 to 1999. -/
def utcYear (year : ℤ) : ℤ := if 0 ≤ year ∧ year ≤ 99 then 1900 + year else year

def utc (year month day : ℤ) : ℤ := Clock.ofCivil (utcYear year) month day

def dayNumber (iso : IsoDay) : ℤ :=
  let (y, m, d) := Clock.civil iso
  utc y m d

/-- Later days have no such text: `slice(0, 10)` cuts it short, or `toISOString()` throws. -/
def isoOfDay (n : ℤ) : Option IsoDay :=
  if h : Clock.ofCivil 0 1 1 ≤ n ∧ n ≤ Clock.ofCivil 9999 12 31 then some ⟨n, h⟩ else none

def daysBetween (from_ to_ : IsoDay) : ℤ := dayNumber to_ - dayNumber from_

def addDays (iso : IsoDay) (days : ℕ) : Option IsoDay := isoOfDay (dayNumber iso + days)

def addMonths (iso : IsoDay) (months : ℕ) : Option IsoDay :=
  let (y, m, d) := Clock.civil iso
  let target := utc y (m + months) 1
  let (targetYear, targetMonth, _) := Clock.civil target
  let (_, _, lastDay) := Clock.civil (utc targetYear (targetMonth + 1) 0)
  isoOfDay (target + (min d lastDay - 1))

structure Periodicity where
  everyDays : Option ℕ
  everyMonths : Option ℕ
  everyCount : Option ℕ
  deriving DecidableEq

/-- A number that counts as set. -/
def truthy (n : Option ℕ) : Option ℕ := n.filter (· ≠ 0)

def hasPeriod (p : Periodicity) : Bool :=
  (truthy p.everyDays).isSome || (truthy p.everyMonths).isSome || (truthy p.everyCount).isSome

def step (p : Periodicity) (from_ : IsoDay) : Option IsoDay :=
  match truthy p.everyMonths with
  | some months => addMonths from_ months
  | none => addDays from_ (p.everyDays.getD 1)

/-- The loop. The days to a text that is no date are `NaN`, which ends it. -/
def advance (p : Periodicity) (performedOn : IsoDay) : ℕ → Option IsoDay → Option IsoDay
  | 0, next => next
  | _ + 1, none => none
  | guard + 1, some next =>
    if 0 ≤ daysBetween next performedOn then
      if step p next = some next then some next else advance p performedOn guard (step p next)
    else some next

def advanceAnchor (dueOn performedOn : IsoDay) (p : Periodicity) : Option IsoDay :=
  if hasPeriod p then advance p performedOn 1000 (step p dueOn) else some dueOn

/-- The planned day `k` periods after the anchor. -/
def planned (p : Periodicity) (dueOn : IsoDay) (k : ℕ) : Option IsoDay :=
  match truthy p.everyMonths with
  | some months => addMonths dueOn (k * months)
  | none => addDays dueOn (k * p.everyDays.getD 1)

/-! What the days are as numbers. -/

section days
variable {iso : IsoDay}

theorem isoOfDay_eq_some {n : ℤ} : isoOfDay n = some iso ↔ (iso : ℤ) = n := by
  unfold isoOfDay
  split_ifs with h
  · rw [Option.some.injEq, Subtype.ext_iff]
    exact eq_comm
  · refine iff_of_false (fun h => nomatch h) ?_
    rintro rfl
    exact h iso.2

theorem isoOfDay_eq_none {n m : ℤ} (h : isoOfDay n = none) (hn : Clock.ofCivil 100 1 1 ≤ n) (hm : n ≤ m) :
    isoOfDay m = none := by
  have hlow : Clock.ofCivil 0 1 1 ≤ Clock.ofCivil 100 1 1 := by decide
  unfold isoOfDay at h ⊢
  split_ifs at h with hin
  rw [dif_neg fun hboth => hin ⟨by omega, by omega⟩]

theorem monthOf_nonneg (iso : IsoDay) : 0 ≤ Clock.monthOf iso := by
  have h : Clock.monthOf (Clock.ofCivil 0 1 1) ≤ Clock.monthOf iso := Clock.monthOf_mono iso.2.1
  exact h

/-- The month that `Date.UTC` takes a day to be of. -/
def utcMonth (iso : IsoDay) : ℤ := 12 * utcYear (Clock.monthOf iso / 12) + Clock.monthOf iso % 12

theorem utcMonth_ge (iso : IsoDay) : 1200 ≤ utcMonth iso := by
  have h := monthOf_nonneg iso
  unfold utcMonth utcYear
  split_ifs <;> omega

theorem dayNumber_eq (iso : IsoDay) :
    dayNumber iso = Clock.monthStart (utcMonth iso) + (Clock.dayOfMonth iso - 1) := by
  have hindex : 12 * utcYear (Clock.monthOf iso / 12) + (Clock.monthOf iso % 12 + 1) - 1 = utcMonth iso := by
    unfold utcMonth
    omega
  unfold dayNumber utc
  rw [Clock.civil_eq]
  dsimp only
  rw [Clock.ofCivil_eq (utcYear _), hindex]

theorem utcMonth_eq (h : Clock.ofCivil 100 1 1 ≤ iso) : utcMonth iso = Clock.monthOf iso := by
  have hmono : Clock.monthOf (Clock.ofCivil 100 1 1) ≤ Clock.monthOf iso := Clock.monthOf_mono h
  have hstart : Clock.monthOf (Clock.ofCivil 100 1 1) = 1200 := by decide
  unfold utcMonth utcYear
  split_ifs <;> omega

/-- From the year 100 on the number of a day is the day. -/
theorem dayNumber_of_le (h : Clock.ofCivil 100 1 1 ≤ iso) : dayNumber iso = iso := by
  rw [dayNumber_eq, utcMonth_eq h]
  exact (Clock.day_eq iso).symm

theorem dayNumber_ge (iso : IsoDay) : Clock.ofCivil 100 1 1 ≤ dayNumber iso := by
  have hmono := Clock.monthStart_strictMono.monotone (utcMonth_ge iso)
  have hstart : Clock.monthStart 1200 = Clock.ofCivil 100 1 1 := by decide
  have hday := Clock.dayOfMonth_bounds iso
  rw [dayNumber_eq]
  omega

theorem addMonths_eq (iso : IsoDay) (months : ℕ) : addMonths iso months =
    isoOfDay (Clock.monthStart (utcMonth iso + months) +
      (min (Clock.dayOfMonth iso) (Clock.monthLength (utcMonth iso + months)) - 1)) := by
  have hlow := utcMonth_ge iso
  have hlength := Clock.monthLength_bounds (utcMonth iso + months)
  have htarget : utc (Clock.monthOf iso / 12) (Clock.monthOf iso % 12 + 1 + months) 1 =
      Clock.monthStart (utcMonth iso + months) + 0 := by
    have hindex : 12 * utcYear (Clock.monthOf iso / 12) + (Clock.monthOf iso % 12 + 1 + months) - 1 =
        utcMonth iso + months := by
      unfold utcMonth
      omega
    unfold utc
    rw [Clock.ofCivil_eq (utcYear _), hindex]
    rfl
  have hyear : utcYear ((utcMonth iso + months) / 12) = (utcMonth iso + months) / 12 := by
    unfold utcYear
    rw [if_neg (by omega)]
  have hlast : utc ((utcMonth iso + months) / 12) ((utcMonth iso + months) % 12 + 1 + 1) 0 =
      Clock.monthStart (utcMonth iso + months) + (Clock.monthLength (utcMonth iso + months) - 1) := by
    have hnext : 12 * ((utcMonth iso + months) / 12) + ((utcMonth iso + months) % 12 + 1 + 1) - 1 =
        utcMonth iso + months + 1 := by omega
    unfold utc
    rw [hyear, Clock.ofCivil_eq (_ / 12), hnext, Clock.monthStart_succ]
    omega
  unfold addMonths
  rw [Clock.civil_eq]
  dsimp only
  rw [htarget, Clock.civil_monthStart (by omega)]
  rw [hlast, Clock.civil_monthStart (by omega)]
  rw [Int.add_zero, Int.sub_add_cancel]

end days

/-! The loop as a walk. -/

section walk
variable {p : Periodicity} {dueOn performedOn : IsoDay}

/-- The anchor after `j + 1` steps. -/
def reached (p : Periodicity) (dueOn : IsoDay) : ℕ → Option IsoDay
  | 0 => step p dueOn
  | j + 1 => (reached p dueOn j).bind (step p)

theorem advance_some (guard : ℕ) (next : IsoDay) : advance p performedOn (guard + 1) (some next) =
    if 0 ≤ daysBetween next performedOn then
      if step p next = some next then some next else advance p performedOn guard (step p next)
    else some next := rfl

theorem advance_eq_reached (p : Periodicity) (dueOn performedOn : IsoDay) (guard j : ℕ) :
    ∃ i ≤ guard, advance p performedOn guard (reached p dueOn j) = reached p dueOn (j + i) := by
  induction guard generalizing j with
  | zero => exact ⟨0, le_rfl, rfl⟩
  | succ guard ih =>
    rcases hj : reached p dueOn j with _ | next
    · exact ⟨0, Nat.zero_le _, hj.symm⟩
    · rw [advance_some]
      split_ifs with hafter hsame
      · exact ⟨0, Nat.zero_le _, hj.symm⟩
      · obtain ⟨i, hi, heq⟩ := ih (j + 1)
        have hnext : reached p dueOn (j + 1) = step p next := by
          unfold reached
          rw [hj]
          rfl
        rw [hnext, Nat.add_right_comm] at heq
        exact ⟨i + 1, Nat.succ_le_succ hi, heq⟩
      · exact ⟨0, Nat.zero_le _, hj.symm⟩

/-- The loop goes on over days that are not after the work. -/
theorem advance_skip {guard n : ℕ} (h : ∀ i < n, ∃ day, reached p dueOn i = some day ∧ 0 ≤ daysBetween day performedOn ∧
    reached p dueOn (i + 1) ≠ some day) {j : ℕ} (hj : j ≤ n) :
    advance p performedOn (guard + (n - j)) (reached p dueOn j) = advance p performedOn guard (reached p dueOn n) := by
  induction hk : n - j generalizing j with
  | zero =>
    obtain rfl : j = n := by omega
    rfl
  | succ k ih =>
    obtain ⟨day, hday, hafter, hne⟩ := h j (by omega)
    have hnext : reached p dueOn (j + 1) = step p day := by
      unfold reached
      rw [hday]
      rfl
    rw [← ih (show j + 1 ≤ n by omega) (by omega), hday, ← Nat.add_assoc]
    rw [advance_some, if_pos hafter, if_neg (hnext ▸ hne), hnext]

theorem advance_stop {day : IsoDay} (guard : ℕ) (h : daysBetween day performedOn < 0) :
    advance p performedOn guard (some day) = some day := by
  cases guard with
  | zero => rfl
  | succ guard =>
    rw [advance_some, if_neg (not_le.mpr h)]

/-- The walk and the planned days as numbers: the walk never passes the planned day of its own step, and
begins the next step behind it. -/
structure Course (p : Periodicity) (dueOn : IsoDay) (walk plan : ℕ → ℤ) : Prop where
  walked : ∀ j, reached p dueOn j = isoOfDay (walk (j + 1))
  plans : ∀ k ≥ 1, planned p dueOn k = isoOfDay (plan k)
  le : ∀ k ≥ 1, walk k ≤ plan k
  lt : ∀ i j, 1 ≤ i → i < j → plan i < walk j
  low : Clock.ofCivil 100 1 1 ≤ walk 1
  inRange : ∀ k ≥ 1, walk k ≤ Clock.ofCivil 9999 12 31 ↔ plan k ≤ Clock.ofCivil 9999 12 31

/-- The first planned day after the work, which the walk finds as its own. -/
structure Found (dueOn performedOn : IsoDay) (p : Periodicity) (k : ℕ) : Prop where
  steps : 1 ≤ k ∧ k ≤ 1001
  after : ∃ day, planned p dueOn k = some day ∧ performedOn < day ∧ daysBetween day performedOn < 0
  before : ∀ i, 1 ≤ i → i < k → ∀ day, planned p dueOn i = some day → day ≤ performedOn
  noShorter : (truthy p.everyMonths).isSome → ∀ i, 1 ≤ i → i < k → ∀ dayᵢ, planned p dueOn i = some dayᵢ →
    ∀ dayₖ, planned p dueOn k = some dayₖ → Clock.dayOfMonth dayₖ ≤ Clock.dayOfMonth dayᵢ

/-- The anchor is moved as the plan says. -/
structure AdvancedRight (dueOn performedOn : IsoDay) (p : Periodicity) (next : IsoDay) : Prop where
  earliest : IsLeast {day | ∃ k ≥ 1, planned p dueOn k = some day ∧ performedOn < day} next
  monotone : ∀ later ≥ performedOn, ∀ next', advanceAnchor dueOn later p = some next' → next ≤ next'
  keepsDay : (truthy p.everyMonths).isSome →
    Clock.dayOfMonth dueOn ≤ Clock.monthLength (Clock.monthOf next) → Clock.dayOfMonth next = Clock.dayOfMonth dueOn

namespace Course
variable {walk plan : ℕ → ℤ} (h : Course p dueOn walk plan)
include h

theorem plan_lt {i j : ℕ} (hi : 1 ≤ i) (hij : i < j) : plan i < plan j :=
  (h.lt i j hi hij).trans_le (h.le j (by omega))

theorem walk_lt {i j : ℕ} (hi : 1 ≤ i) (hij : i < j) : walk i < walk j := (h.le i hi).trans_lt (h.lt i j hi hij)

theorem walk_ge {k : ℕ} (hk : 1 ≤ k) : Clock.ofCivil 100 1 1 ≤ walk k := by
  rcases hk.eq_or_lt with rfl | hlt
  · exact h.low
  · exact h.low.trans (h.walk_lt le_rfl hlt).le

/-- The planned days up to one that has a text have a text, and so do the days of the walk. -/
theorem exists_day {k : ℕ} {day : IsoDay} (hday : planned p dueOn k = some day) {i : ℕ} (hi : 1 ≤ i) (hik : i ≤ k) :
    (∃ d : IsoDay, planned p dueOn i = some d ∧ (d : ℤ) = plan i) ∧
      ∃ d : IsoDay, reached p dueOn (i - 1) = some d ∧ (d : ℤ) = walk i := by
  have hlow : Clock.ofCivil 0 1 1 ≤ Clock.ofCivil 100 1 1 := by decide
  have hk : (day : ℤ) = plan k := by
    rw [h.plans k (hi.trans hik)] at hday
    exact isoOfDay_eq_some.mp hday
  have hplan : plan i ≤ Clock.ofCivil 9999 12 31 := by
    have hlast := day.2.2
    rcases hik.eq_or_lt with rfl | hlt
    · omega
    · have hplans := h.plan_lt hi hlt
      omega
  have hwalk := (h.inRange i hi).mpr hplan
  have hge := hlow.trans (h.walk_ge hi)
  constructor
  · refine ⟨⟨plan i, hge.trans (h.le i hi), hplan⟩, ?_, rfl⟩
    rw [h.plans i hi]
    exact isoOfDay_eq_some.mpr rfl
  · refine ⟨⟨walk i, hge, hwalk⟩, ?_, rfl⟩
    rw [h.walked, Nat.sub_add_cancel hi]
    exact isoOfDay_eq_some.mpr rfl

theorem dayNumber_reached {k : ℕ} {day : IsoDay} (hk : 1 ≤ k) (hday : (day : ℤ) = walk k) : dayNumber day = walk k := by
  rw [← hday]
  refine dayNumber_of_le ?_
  rw [hday]
  exact h.walk_ge hk

theorem dayNumber_planned {k : ℕ} {day : IsoDay} (hk : 1 ≤ k) (hday : (day : ℤ) = plan k) : dayNumber day = plan k := by
  rw [← hday]
  refine dayNumber_of_le ?_
  rw [hday]
  exact (h.walk_ge hk).trans (h.le k hk)

/-- Until a planned day is after the work the loop goes on. -/
theorem advance_until {n : ℕ} (guard : ℕ) {day : IsoDay} (hday : planned p dueOn (n + 1) = some day)
    (hbefore : ∀ i, 1 ≤ i → i ≤ n → plan i ≤ performedOn) :
    advance p performedOn (guard + n) (reached p dueOn 0) = advance p performedOn guard (reached p dueOn n) := by
  refine advance_skip (n := n) (j := 0) (fun i hi => ?_) (Nat.zero_le _)
  obtain ⟨⟨-, -, -⟩, d, hd, hwalk⟩ := h.exists_day hday (i := i + 1) (by omega) (by omega)
  rw [Nat.add_sub_cancel] at hd
  have hplan := hbefore (i + 1) (by omega) (by omega)
  have hle := h.le (i + 1) (by omega)
  have hge := h.walk_ge (show 1 ≤ i + 1 by omega)
  refine ⟨d, hd, ?_, ?_⟩
  · unfold daysBetween
    rw [h.dayNumber_reached (by omega) hwalk, dayNumber_of_le (by omega)]
    omega
  · rw [h.walked]
    intro heq
    have hsame := isoOfDay_eq_some.mp heq
    have hlt := h.walk_lt (show 1 ≤ i + 1 by omega) (show i + 1 < i + 1 + 1 by omega)
    omega

theorem advance_found {k : ℕ} (hfound : Found dueOn performedOn p k) (hsame : walk k = plan k) :
    ∃ next, advance p performedOn 1000 (reached p dueOn 0) = some next ∧ planned p dueOn k = some next ∧
      ∀ later ≥ performedOn, ∀ next', advance p later 1000 (reached p dueOn 0) = some next' → next ≤ next' := by
  obtain ⟨hpos, hsteps⟩ := hfound.steps
  obtain ⟨next, hnext, -, hstop⟩ := hfound.after
  obtain ⟨n, rfl⟩ : ∃ n, k = n + 1 := ⟨k - 1, by omega⟩
  obtain ⟨⟨-, -, -⟩, d, hd, hwalk⟩ := h.exists_day hnext hpos le_rfl
  rw [Nat.add_sub_cancel] at hd
  have hplan : (next : ℤ) = plan (n + 1) := by
    rw [h.plans _ hpos] at hnext
    exact isoOfDay_eq_some.mp hnext
  obtain rfl : d = next := Subtype.ext (by omega)
  have hbefore : ∀ i, 1 ≤ i → i ≤ n → plan i ≤ performedOn := by
    intro i hi hin
    obtain ⟨⟨day, hday, heq⟩, -⟩ := h.exists_day hnext hi (by omega)
    rw [← heq]
    exact hfound.before i hi (by omega) day hday
  have hguard : 1000 - n + n = 1000 := by omega
  refine ⟨d, ?_, hnext, fun later hlater next' hnext' => ?_⟩
  · rw [← hguard, h.advance_until _ hnext hbefore, hd]
    exact advance_stop _ hstop
  · rw [← hguard, h.advance_until _ hnext fun i hi hin => (hbefore i hi hin).trans hlater] at hnext'
    obtain ⟨i, -, heq⟩ := advance_eq_reached p dueOn later (1000 - n) n
    rw [heq, h.walked, isoOfDay_eq_some] at hnext'
    have hle : walk (n + 1) ≤ walk (n + i + 1) := by
      rcases Nat.eq_zero_or_pos i with rfl | hi
      · exact le_rfl
      · exact (h.walk_lt hpos (by omega)).le
    show (d : ℤ) ≤ next'
    omega

theorem earliest_of_found {k : ℕ} {next : IsoDay} (hfound : Found dueOn performedOn p k)
    (hnext : planned p dueOn k = some next) :
    IsLeast {day | ∃ k ≥ 1, planned p dueOn k = some day ∧ performedOn < day} next := by
  obtain ⟨day, hday, hafter, -⟩ := hfound.after
  obtain rfl : day = next := Option.some.inj (hday.symm.trans hnext)
  refine ⟨⟨k, hfound.steps.1, hnext, hafter⟩, ?_⟩
  rintro other ⟨i, hi, hother, hlater⟩
  rcases lt_or_ge i k with hlt | hle
  · exact absurd hlater (hfound.before i hi hlt other hother).not_gt
  · rw [h.plans _ hi, isoOfDay_eq_some] at hother
    rw [h.plans _ hfound.steps.1, isoOfDay_eq_some] at hnext
    have hplans : plan k ≤ plan i := by
      rcases hle.eq_or_lt with rfl | hlt
      · exact le_rfl
      · exact (h.plan_lt hfound.steps.1 hlt).le
    show (day : ℤ) ≤ other
    omega

theorem found_of_advance {next : IsoDay} (hnext : advance p performedOn 1000 (reached p dueOn 0) = some next)
    (hleast : IsLeast {day | ∃ k ≥ 1, planned p dueOn k = some day ∧ performedOn < day} next) :
    ∃ k, (1 ≤ k ∧ k ≤ 1001) ∧ planned p dueOn k = some next ∧ performedOn < next ∧
      daysBetween next performedOn < 0 ∧ walk k = plan k ∧
      ∀ i, 1 ≤ i → i < k → ∀ day, planned p dueOn i = some day → day ≤ performedOn := by
  obtain ⟨⟨k, hk, hplanned, hafter⟩, hlower⟩ := hleast
  have hplan : (next : ℤ) = plan k := by
    rw [h.plans _ hk] at hplanned
    exact isoOfDay_eq_some.mp hplanned
  have hbefore : ∀ i, 1 ≤ i → i < k → ∀ day, planned p dueOn i = some day → day ≤ performedOn := by
    intro i hi hik day hday
    by_contra hlt
    have hle : (next : ℤ) ≤ day := hlower ⟨i, hi, hday, not_le.mp hlt⟩
    rw [h.plans _ hi] at hday
    have heq := isoOfDay_eq_some.mp hday
    have hplans := h.plan_lt hi hik
    omega
  have hplans : ∀ i, 1 ≤ i → i < k → plan i ≤ performedOn := by
    intro i hi hik
    obtain ⟨⟨day, hday, heq⟩, -⟩ := h.exists_day hplanned hi hik.le
    rw [← heq]
    exact hbefore i hi hik day hday
  have hsteps : k ≤ 1001 := by
    by_contra hfar
    obtain ⟨⟨day, hday, -⟩, -⟩ := h.exists_day hplanned (show 1 ≤ 1001 by omega) (by omega)
    have hskip := h.advance_until 0 hday fun i hi hin => hplans i hi (by omega)
    rw [Nat.zero_add] at hskip
    rw [hskip] at hnext
    have hend : reached p dueOn 1000 = some next := hnext
    rw [h.walked, isoOfDay_eq_some] at hend
    have hle : walk (1000 + 1) ≤ plan 1001 := h.le 1001 (by omega)
    have hlt := h.plan_lt (show 1 ≤ 1001 by omega) (show 1001 < k by omega)
    omega
  obtain ⟨n, rfl⟩ : ∃ n, k = n + 1 := ⟨k - 1, by omega⟩
  have hguard : 1000 - n + n = 1000 := by omega
  have hskip := h.advance_until (1000 - n) hplanned fun i hi hin => hplans i hi (by omega)
  rw [hguard, hnext] at hskip
  obtain ⟨i, -, hi⟩ := advance_eq_reached p dueOn performedOn (1000 - n) n
  have hwalk : (next : ℤ) = walk (n + i + 1) := by
    rw [hi, h.walked] at hskip
    exact isoOfDay_eq_some.mp hskip.symm
  have hhere : i = 0 := by
    by_contra hne
    have hlt := h.lt (n + 1) (n + i + 1) hk (by omega)
    omega
  subst hhere
  have hsame : walk (n + 1) = plan (n + 1) := hwalk.symm.trans hplan
  refine ⟨n + 1, ⟨hk, hsteps⟩, hplanned, hafter, ?_, hsame, hbefore⟩
  rcases Nat.eq_zero_or_pos n with rfl | hpos
  · -- at the first step the comparison of the loop itself has ended it
    by_contra hgo
    have hfirst : reached p dueOn 0 = some next := by
      rw [h.walked, isoOfDay_eq_some]
      exact hwalk
    have hsecond : reached p dueOn 1 = step p next := by
      unfold reached
      rw [hfirst]
      rfl
    have hmoved : step p next ≠ some next := by
      intro heq
      rw [← hsecond, h.walked, isoOfDay_eq_some] at heq
      have hlt : walk (0 + 0 + 1) < walk (1 + 1) := h.walk_lt le_rfl (by omega)
      omega
    rw [hfirst, advance_some, if_pos (not_lt.mp hgo), if_neg hmoved, ← hsecond] at hnext
    obtain ⟨i, -, hi⟩ := advance_eq_reached p dueOn performedOn 999 1
    rw [hi, h.walked, isoOfDay_eq_some] at hnext
    have hlt : walk (0 + 0 + 1) < walk (1 + i + 1) := h.walk_lt le_rfl (by omega)
    omega
  · have hlate := hplans 1 le_rfl (by omega)
    have hlow := h.low.trans (h.le 1 le_rfl)
    have hday : (performedOn : ℤ) < next := hafter
    unfold daysBetween
    rw [h.dayNumber_planned hk hplan, dayNumber_of_le (hlow.trans hlate)]
    omega

end Course

end walk

/-! The walk by days. -/

section byDays
variable {p : Periodicity} {dueOn : IsoDay} {days : ℕ}

theorem step_days (hmonths : truthy p.everyMonths = none) (hdays : p.everyDays.getD 1 = days) (day : IsoDay) :
    step p day = isoOfDay (dayNumber day + days) := by
  unfold step
  rw [hmonths, hdays]
  rfl

theorem course_days (hmonths : truthy p.everyMonths = none) (hdays : p.everyDays.getD 1 = days) (hpos : 1 ≤ days) :
    Course p dueOn (fun k => dayNumber dueOn + (k * days : ℕ)) (fun k => dayNumber dueOn + (k * days : ℕ)) := by
  have hlow := dayNumber_ge dueOn
  refine ⟨fun j => ?_, fun k _ => ?_, fun _ _ => le_rfl, fun i j _ hij => ?_, ?_, fun _ _ => Iff.rfl⟩
  · induction j with
    | zero =>
      unfold reached
      rw [step_days hmonths hdays, Nat.zero_add, Nat.one_mul]
    | succ j ih =>
      have hnext : ((j + 1 + 1) * days : ℕ) = (j + 1) * days + days := Nat.succ_mul _ _
      unfold reached
      rw [ih, hnext]
      rcases hday : isoOfDay (dayNumber dueOn + ((j + 1) * days : ℕ)) with _ | day
      · exact (isoOfDay_eq_none hday (by omega) (by omega)).symm
      · have heq := isoOfDay_eq_some.mp hday
        rw [Option.bind_some, step_days hmonths hdays, dayNumber_of_le (by omega), heq]
        congr 1
        omega
  · unfold planned
    rw [hmonths, hdays]
    rfl
  · have hlt : i * days < j * days := (Nat.mul_lt_mul_right hpos).mpr hij
    omega
  · omega

end byDays

/-! The walk by months. -/

section byMonths
variable {p : Periodicity} {dueOn : IsoDay} {months : ℕ}

/-- The day of the month after so many steps: each month on the way that is too short cuts it for good. -/
def clamped (d : ℤ) (lengths : ℕ → ℤ) : ℕ → ℤ
  | 0 => d
  | k + 1 => min (clamped d lengths k) (lengths (k + 1))

section clamped
variable {d : ℤ} {lengths : ℕ → ℤ}

theorem clamped_bounds (hd : 1 ≤ d) (hlengths : ∀ k, 1 ≤ lengths k) (k : ℕ) :
    1 ≤ clamped d lengths k ∧ clamped d lengths k ≤ d := by
  induction k with
  | zero => exact ⟨hd, le_rfl⟩
  | succ k ih => exact ⟨le_min ih.1 (hlengths _), (min_le_left _ _).trans ih.2⟩

theorem clamped_le (k : ℕ) (hk : 1 ≤ k) : clamped d lengths k ≤ lengths k := by
  obtain ⟨n, rfl⟩ : ∃ n, k = n + 1 := ⟨k - 1, by omega⟩
  exact min_le_right _ _

theorem le_clamped_iff {x : ℤ} (k : ℕ) : x ≤ clamped d lengths k ↔ x ≤ d ∧ ∀ i, 1 ≤ i → i ≤ k → x ≤ lengths i := by
  induction k with
  | zero => exact (and_iff_left fun i hi hle => absurd hi (by omega)).symm
  | succ k ih =>
    unfold clamped
    rw [le_min_iff, ih, and_assoc]
    refine and_congr_right fun _ => ⟨fun ⟨hall, hlast⟩ i hi hik => ?_, fun hall => ?_⟩
    · rcases hik.eq_or_lt with rfl | hlt
      · exact hlast
      · exact hall i hi (by omega)
    · exact ⟨fun i hi hik => hall i hi (by omega), hall (k + 1) (by omega) le_rfl⟩

theorem clamped_eq_iff {k : ℕ} (hk : 1 ≤ k) : clamped d lengths k = min d (lengths k) ↔
    ∀ i, 1 ≤ i → i < k → min d (lengths k) ≤ min d (lengths i) := by
  have hle : clamped d lengths k ≤ min d (lengths k) := by
    refine le_min ?_ (clamped_le k hk)
    exact ((le_clamped_iff k).mp le_rfl).1
  rw [le_antisymm_iff, and_iff_right hle, le_clamped_iff, and_iff_right (min_le_left _ _)]
  constructor
  · exact fun hall i hi hik => le_min (min_le_left _ _) (hall i hi hik.le)
  · intro hall i hi hik
    rcases hik.eq_or_lt with rfl | hlt
    · exact min_le_right _ _
    · exact (hall i hi hlt).trans (min_le_right _ _)

end clamped

/-- The length of the month that so many periods lead to. -/
def monthAfter (dueOn : IsoDay) (months k : ℕ) : ℤ := utcMonth dueOn + (k * months : ℕ)

def lengthAfter (dueOn : IsoDay) (months k : ℕ) : ℤ := Clock.monthLength (monthAfter dueOn months k)

def walkMonths (dueOn : IsoDay) (months k : ℕ) : ℤ := Clock.monthStart (monthAfter dueOn months k) +
  (clamped (Clock.dayOfMonth dueOn) (lengthAfter dueOn months) k - 1)

def planMonths (dueOn : IsoDay) (months k : ℕ) : ℤ := Clock.monthStart (monthAfter dueOn months k) +
  (min (Clock.dayOfMonth dueOn) (lengthAfter dueOn months k) - 1)

theorem lengthAfter_pos (dueOn : IsoDay) (months k : ℕ) : 1 ≤ lengthAfter dueOn months k :=
  le_trans (by decide) (Clock.monthLength_bounds _).1

theorem clampedDay_bounds (dueOn : IsoDay) (months : ℕ) {k : ℕ} (hk : 1 ≤ k) :
    1 ≤ clamped (Clock.dayOfMonth dueOn) (lengthAfter dueOn months) k ∧
      clamped (Clock.dayOfMonth dueOn) (lengthAfter dueOn months) k ≤ lengthAfter dueOn months k :=
  ⟨(clamped_bounds (Clock.dayOfMonth_bounds _).1 (lengthAfter_pos dueOn months) k).1, clamped_le k hk⟩

theorem plannedDay_bounds (dueOn : IsoDay) (months k : ℕ) :
    1 ≤ min (Clock.dayOfMonth dueOn) (lengthAfter dueOn months k) ∧
      min (Clock.dayOfMonth dueOn) (lengthAfter dueOn months k) ≤ lengthAfter dueOn months k :=
  ⟨le_min (Clock.dayOfMonth_bounds _).1 (lengthAfter_pos dueOn months k), min_le_right _ _⟩

theorem planned_months (hmonths : truthy p.everyMonths = some months) (k : ℕ) :
    planned p dueOn k = isoOfDay (planMonths dueOn months k) := by
  unfold planned
  rw [hmonths]
  exact addMonths_eq dueOn (k * months)

theorem dayOfMonth_planMonths (dueOn : IsoDay) (months k : ℕ) :
    Clock.dayOfMonth (planMonths dueOn months k) = min (Clock.dayOfMonth dueOn) (lengthAfter dueOn months k) ∧
      Clock.monthOf (planMonths dueOn months k) = monthAfter dueOn months k := by
  have hbounds := plannedDay_bounds dueOn months k
  have hday : 0 ≤ min (Clock.dayOfMonth dueOn) (lengthAfter dueOn months k) - 1 ∧
      min (Clock.dayOfMonth dueOn) (lengthAfter dueOn months k) - 1 < Clock.monthLength (monthAfter dueOn months k) := by
    unfold lengthAfter at hbounds ⊢
    omega
  unfold planMonths
  rw [Clock.dayOfMonth_monthStart hday, Clock.monthOf_monthStart hday]
  exact ⟨Int.sub_add_cancel _ _, rfl⟩

/-- Days of two months of the calendar are as the months. -/
theorem monthStart_add_lt {t u d e : ℤ} (h : t < u) (hd : d ≤ Clock.monthLength t) (he : 1 ≤ e) :
    Clock.monthStart t + (d - 1) < Clock.monthStart u + (e - 1) := by
  have hle := Clock.monthStart_strictMono.monotone (show t + 1 ≤ u by omega)
  rw [Clock.monthStart_succ] at hle
  omega

theorem course_months (hmonths : truthy p.everyMonths = some months) :
    Course p dueOn (walkMonths dueOn months) (planMonths dueOn months) := by
  have hpos : 1 ≤ months := by
    have hne := (Option.filter_eq_some_iff.mp hmonths).2
    have hne' : months ≠ 0 := of_decide_eq_true hne
    omega
  have hmonthLt : ∀ {i j : ℕ}, i < j → monthAfter dueOn months i < monthAfter dueOn months j := by
    intro i j hij
    have hlt : i * months < j * months := (Nat.mul_lt_mul_right hpos).mpr hij
    unfold monthAfter
    omega
  have hlow : Clock.ofCivil 100 1 1 ≤ walkMonths dueOn months 1 := by
    have hstart : Clock.monthStart 1200 = Clock.ofCivil 100 1 1 := by decide
    have hge := utcMonth_ge dueOn
    have hmono := Clock.monthStart_strictMono.monotone (show 1200 ≤ monthAfter dueOn months 1 by
      unfold monthAfter
      omega)
    have hday := clampedDay_bounds dueOn months le_rfl
    unfold walkMonths
    omega
  have hwalkLt : ∀ {i j : ℕ}, 1 ≤ i → i < j → walkMonths dueOn months i < walkMonths dueOn months j := by
    intro i j hi hij
    exact monthStart_add_lt (hmonthLt hij) (clampedDay_bounds dueOn months hi).2
      (clampedDay_bounds dueOn months (hi.trans hij.le)).1
  refine ⟨fun j => ?_, fun k _ => planned_months hmonths k, fun k hk => ?_, fun i j hi hij => ?_, hlow,
    fun k hk => ?_⟩
  · induction j with
    | zero =>
      have hfirst : step p dueOn = planned p dueOn 1 := by
        unfold step planned
        rw [hmonths]
        dsimp only
        rw [Nat.one_mul]
      unfold reached
      rw [hfirst, planned_months hmonths]
      rfl
    | succ j ih =>
      have hge : Clock.ofCivil 100 1 1 ≤ walkMonths dueOn months (j + 1) := by
        rcases Nat.eq_zero_or_pos j with rfl | hj
        · exact hlow
        · exact hlow.trans (hwalkLt le_rfl (by omega)).le
      unfold reached
      rw [ih]
      rcases hday : isoOfDay (walkMonths dueOn months (j + 1)) with _ | day
      · exact (isoOfDay_eq_none hday hge (hwalkLt (by omega) (by omega)).le).symm
      · have heq := isoOfDay_eq_some.mp hday
        have hbounds := clampedDay_bounds dueOn months (show 1 ≤ j + 1 by omega)
        have hin : 0 ≤ clamped (Clock.dayOfMonth dueOn) (lengthAfter dueOn months) (j + 1) - 1 ∧
            clamped (Clock.dayOfMonth dueOn) (lengthAfter dueOn months) (j + 1) - 1 <
              Clock.monthLength (monthAfter dueOn months (j + 1)) := by
          unfold lengthAfter at hbounds ⊢
          omega
        have hmonth : utcMonth day + months = monthAfter dueOn months (j + 1 + 1) := by
          have hsucc : ((j + 1 + 1) * months : ℕ) = (j + 1) * months + months := Nat.succ_mul _ _
          rw [utcMonth_eq (by omega), heq]
          unfold walkMonths
          rw [Clock.monthOf_monthStart hin]
          unfold monthAfter
          rw [hsucc]
          omega
        have hdom : Clock.dayOfMonth day = clamped (Clock.dayOfMonth dueOn) (lengthAfter dueOn months) (j + 1) := by
          rw [heq]
          unfold walkMonths
          rw [Clock.dayOfMonth_monthStart hin, Int.sub_add_cancel]
        rw [Option.bind_some]
        unfold step
        rw [hmonths]
        dsimp only
        rw [addMonths_eq, hmonth, hdom]
        rfl
  · have hle : clamped (Clock.dayOfMonth dueOn) (lengthAfter dueOn months) k ≤
        min (Clock.dayOfMonth dueOn) (lengthAfter dueOn months k) :=
      le_min ((le_clamped_iff k).mp le_rfl).1 (clamped_le k hk)
    unfold walkMonths planMonths
    omega
  · exact monthStart_add_lt (hmonthLt hij) (plannedDay_bounds dueOn months i).2
      (clampedDay_bounds dueOn months (hi.trans hij.le)).1
  · -- the last day of the year 9999 is the last of its month
    have hend : Clock.ofCivil 9999 12 31 + 1 = Clock.monthStart 120000 := by decide
    have hbounds := clampedDay_bounds dueOn months hk
    have hbounds' := plannedDay_bounds dueOn months k
    have hstart := Clock.monthStart_strictMono.lt_iff_lt (a := monthAfter dueOn months k) (b := 120000)
    have hnext := Clock.monthStart_strictMono.le_iff_le (a := monthAfter dueOn months k + 1) (b := 120000)
    rw [Clock.monthStart_succ] at hnext
    unfold walkMonths planMonths
    unfold lengthAfter at *
    omega

end byMonths

/-- The anchor moves as the plan says exactly where the first planned day after the work is found on the walk. -/
theorem advanceAnchor_right_iff (dueOn performedOn : IsoDay) (p : Periodicity)
    (h : (∃ n, p.everyMonths = some n ∧ 1 ≤ n) ∨ ∃ n, p.everyDays = some n ∧ 1 ≤ n) :
    (∃ next, advanceAnchor dueOn performedOn p = some next ∧ AdvancedRight dueOn performedOn p next) ↔
      ∃ k, Found dueOn performedOn p k := by
  have htruthy : ∀ {n : ℕ}, 1 ≤ n → truthy (some n) = some n := by
    intro n hn
    exact Option.filter_eq_some_iff.mpr ⟨rfl, decide_eq_true (by omega)⟩
  have hperiod : hasPeriod p = true := by
    unfold hasPeriod
    rcases h with ⟨n, hn, hpos⟩ | ⟨n, hn, hpos⟩ <;> rw [hn, htruthy hpos] <;> simp
  have hanchor : ∀ later, advanceAnchor dueOn later p = advance p later 1000 (reached p dueOn 0) := by
    intro later
    unfold advanceAnchor
    rw [if_pos hperiod]
    rfl
  rcases hmonths : truthy p.everyMonths with _ | months
  · obtain ⟨days, hdays, hpos⟩ : ∃ n, p.everyDays = some n ∧ 1 ≤ n := by
      refine h.resolve_left ?_
      rintro ⟨n, hn, hpos⟩
      rw [hn, htruthy hpos] at hmonths
      cases hmonths
    have hcourse := @course_days p dueOn days hmonths (by rw [hdays]; rfl) hpos
    have hset : ¬ (truthy p.everyMonths).isSome := by simp [hmonths]
    constructor
    · rintro ⟨next, hnext, hright⟩
      rw [hanchor] at hnext
      obtain ⟨k, hsteps, hplanned, hafter, hstop, -, hbefore⟩ := hcourse.found_of_advance hnext hright.earliest
      exact ⟨k, hsteps, ⟨next, hplanned, hafter, hstop⟩, hbefore, fun hsome => absurd hsome hset⟩
    · rintro ⟨k, hfound⟩
      obtain ⟨next, hnext, hplanned, hmono⟩ := hcourse.advance_found hfound rfl
      refine ⟨next, (hanchor _).trans hnext, hcourse.earliest_of_found hfound hplanned, fun later hlater next' h' => ?_,
        fun hsome => absurd hsome hset⟩
      exact hmono later hlater next' ((hanchor _).symm.trans h')
  · have hcourse := @course_months p dueOn months hmonths
    have hsome : (truthy p.everyMonths).isSome := by simp [hmonths]
    have hdays : ∀ {k day}, planned p dueOn k = some day →
        Clock.dayOfMonth day = min (Clock.dayOfMonth dueOn) (lengthAfter dueOn months k) ∧
          Clock.monthOf day = monthAfter dueOn months k := by
      intro k day hday
      rw [planned_months hmonths, isoOfDay_eq_some] at hday
      rw [hday]
      exact dayOfMonth_planMonths dueOn months k
    have hkept : ∀ {k next}, planned p dueOn k = some next →
        Clock.dayOfMonth dueOn ≤ Clock.monthLength (Clock.monthOf next) →
        Clock.dayOfMonth next = Clock.dayOfMonth dueOn := by
      intro k next hplanned hle
      obtain ⟨hday, hmonth⟩ := hdays hplanned
      rw [hmonth] at hle
      rw [hday]
      exact min_eq_left hle
    have hsame : ∀ {k}, 1 ≤ k → (walkMonths dueOn months k = planMonths dueOn months k ↔
        ∀ i, 1 ≤ i → i < k → min (Clock.dayOfMonth dueOn) (lengthAfter dueOn months k) ≤
          min (Clock.dayOfMonth dueOn) (lengthAfter dueOn months i)) := by
      intro k hk
      rw [← clamped_eq_iff hk]
      unfold walkMonths planMonths
      constructor <;> intro heq <;> omega
    constructor
    · rintro ⟨next, hnext, hright⟩
      rw [hanchor] at hnext
      obtain ⟨k, hsteps, hplanned, hafter, hstop, hwalk, hbefore⟩ := hcourse.found_of_advance hnext hright.earliest
      refine ⟨k, hsteps, ⟨next, hplanned, hafter, hstop⟩, hbefore, fun _ i hi hik dayᵢ hdayᵢ dayₖ hdayₖ => ?_⟩
      rw [(hdays hdayᵢ).1, (hdays hdayₖ).1]
      exact (hsame hsteps.1).mp hwalk i hi hik
    · rintro ⟨k, hfound⟩
      have hwalk : walkMonths dueOn months k = planMonths dueOn months k := by
        refine (hsame hfound.steps.1).mpr fun i hi hik => ?_
        obtain ⟨dayₖ, hdayₖ, -⟩ := hfound.after
        obtain ⟨⟨dayᵢ, hdayᵢ, -⟩, -⟩ := hcourse.exists_day hdayₖ hi hik.le
        rw [← (hdays hdayᵢ).1, ← (hdays hdayₖ).1]
        exact hfound.noShorter hsome i hi hik dayᵢ hdayᵢ dayₖ hdayₖ
      obtain ⟨next, hnext, hplanned, hmono⟩ := hcourse.advance_found hfound hwalk
      refine ⟨next, (hanchor _).trans hnext, hcourse.earliest_of_found hfound hplanned, fun later hlater next' h' => ?_,
        fun _ => hkept hplanned⟩
      exact hmono later hlater next' ((hanchor _).symm.trans h')

def monthly : Periodicity := ⟨none, some 1, none⟩

def thirtyDays : Periodicity := ⟨some 30, none, none⟩

theorem advanceAnchor_right_late : ∃ next,
    advanceAnchor ⟨Clock.ofCivil 2026 3 1, by decide⟩ ⟨Clock.ofCivil 2026 3 5, by decide⟩ thirtyDays = some next ∧
      AdvancedRight ⟨Clock.ofCivil 2026 3 1, by decide⟩ ⟨Clock.ofCivil 2026 3 5, by decide⟩ thirtyDays next := by
  refine (advanceAnchor_right_iff _ _ _ (.inr ⟨30, rfl, by decide⟩)).mpr
    ⟨1, by decide, ?_, fun i hi hik => ?_, fun hsome => ?_⟩
  · exact ⟨⟨Clock.ofCivil 2026 3 31, by decide⟩, by decide, by decide, by decide⟩
  · omega
  · exact absurd hsome (by decide)

/-- The anchor of the last of January is moved to February 28, and from there to March 28. -/
theorem advanceAnchor_monthEnd : ¬ ∃ next,
    advanceAnchor ⟨Clock.ofCivil 2026 1 31, by decide⟩ ⟨Clock.ofCivil 2026 2 28, by decide⟩ monthly = some next ∧
      AdvancedRight ⟨Clock.ofCivil 2026 1 31, by decide⟩ ⟨Clock.ofCivil 2026 2 28, by decide⟩ monthly next := by
  rintro ⟨next, hnext, hright⟩
  have hmarch : advanceAnchor ⟨Clock.ofCivil 2026 1 31, by decide⟩ ⟨Clock.ofCivil 2026 2 28, by decide⟩ monthly =
      some ⟨Clock.ofCivil 2026 3 28, by decide⟩ := by decide
  obtain rfl := Option.some.inj (hmarch.symm.trans hnext)
  exact absurd (hright.keepsDay (by decide) (by decide)) (by decide)

end Mydon.Maintenance
