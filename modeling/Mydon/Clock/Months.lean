import Mathlib
import Mydon.Clock

/-! The calendar as a row of months: where each begins, how long it is, and that every day is read back from
the month and the day of the month it falls on. -/

namespace Mydon.Clock

/-- The first day of a month, counted from January of the year 0. -/
def monthStart (t : ℤ) : ℤ := ofCivil 0 (t + 1) 1

def monthLength (t : ℤ) : ℤ := monthStart (t + 1) - monthStart t

/-- The month of a day, counted from January of the year 0. -/
def monthOf (day : ℤ) : ℤ := 12 * (civil day).1 + (civil day).2.1 - 1

def dayOfMonth (day : ℤ) : ℤ := (civil day).2.2

/-! Years that begin in March, so that the leap day is their last. -/

/-- The days from the first March on to the March of the year. -/
def marchStart (y : ℤ) : ℤ := y / 400 * 146097 + (y % 400 * 365 + y % 400 / 4 - y % 400 / 100)

theorem marchStart_succ (y : ℤ) : marchStart (y + 1) = marchStart y + 365 ∨
    marchStart (y + 1) = marchStart y + 366 ∧ y % 4 = 3 ∧ (y % 100 = 99 → y % 400 = 399) := by
  unfold marchStart
  have hera : y % 400 = 399 ∧ (y + 1) / 400 = y / 400 + 1 ∧ (y + 1) % 400 = 0 ∨
      y % 400 < 399 ∧ (y + 1) / 400 = y / 400 ∧ (y + 1) % 400 = y % 400 + 1 := by omega
  rcases hera with ⟨h, hdiv, hmod⟩ | ⟨h, hdiv, hmod⟩
  · rw [hdiv, hmod, h]
    omega
  · rw [hdiv, hmod]
    omega

theorem ofCivil_march {year month day y mp : ℤ} (hmp : 0 ≤ mp ∧ mp < 12) (h : 12 * year + month = 12 * y + mp + 3) :
    ofCivil year month day = marchStart y + (153 * mp + 2) / 5 - 719468 + (day - 1) := by
  unfold ofCivil marchStart
  by_cases hlate : mp < 10
  · have hmonth : (month - 1) % 12 + 1 = mp + 3 := by omega
    have hyear : year + (month - 1) / 12 = y := by omega
    have hearly : ¬ mp + 3 ≤ 2 := by omega
    have hmarch : 2 < mp + 3 := by omega
    simp only [hmonth, hyear, if_neg hearly, if_pos hmarch]
    omega
  · have hmonth : (month - 1) % 12 + 1 = mp - 9 := by omega
    have hyear : year + (month - 1) / 12 = y + 1 := by omega
    have hearly : mp - 9 ≤ 2 := by omega
    have hmarch : ¬ 2 < mp - 9 := by omega
    simp only [hmonth, hyear, if_pos hearly, if_neg hmarch]
    omega

theorem monthStart_march {t y mp : ℤ} (hmp : 0 ≤ mp ∧ mp < 12) (h : t = 12 * y + mp + 2) :
    monthStart t = marchStart y + (153 * mp + 2) / 5 - 719468 := by
  unfold monthStart
  rw [@ofCivil_march 0 (t + 1) 1 y mp hmp (by omega)]
  omega

theorem ofCivil_eq (year month day : ℤ) : ofCivil year month day = monthStart (12 * year + month - 1) + (day - 1) := by
  have hmp : 0 ≤ (12 * year + month - 3) % 12 ∧ (12 * year + month - 3) % 12 < 12 := by omega
  have hindex : 12 * year + month = 12 * ((12 * year + month - 3) / 12) + (12 * year + month - 3) % 12 + 3 := by omega
  rw [ofCivil_march hmp hindex,
    @monthStart_march (12 * year + month - 1) ((12 * year + month - 3) / 12) _ hmp (by omega)]

theorem monthLength_march {t y mp : ℤ} (hmp : 0 ≤ mp ∧ mp < 12) (h : t = 12 * y + mp + 2) :
    mp < 11 ∧ monthLength t = (153 * (mp + 1) + 2) / 5 - (153 * mp + 2) / 5 ∨
      mp = 11 ∧ monthLength t = marchStart (y + 1) - marchStart y - 337 := by
  unfold monthLength
  by_cases hlast : mp < 11
  · left
    rw [monthStart_march hmp h, @monthStart_march (t + 1) y (mp + 1) (by omega) (by omega)]
    omega
  · right
    rw [monthStart_march hmp h, @monthStart_march (t + 1) (y + 1) 0 (by omega) (by omega)]
    omega

theorem monthLength_bounds (t : ℤ) : 28 ≤ monthLength t ∧ monthLength t ≤ 31 := by
  have hmp : 0 ≤ (t - 2) % 12 ∧ (t - 2) % 12 < 12 := by omega
  have hsucc := marchStart_succ ((t - 2) / 12)
  rcases @monthLength_march t ((t - 2) / 12) ((t - 2) % 12) hmp (by omega) with ⟨hlt, h⟩ | ⟨-, h⟩ <;> omega

theorem monthStart_succ (t : ℤ) : monthStart (t + 1) = monthStart t + monthLength t := by
  unfold monthLength
  omega

theorem monthStart_strictMono : StrictMono monthStart :=
  strictMono_int_of_lt_succ fun t => by
    have hlength := (monthLength_bounds t).1
    rw [monthStart_succ]
    omega

/-- The year of the era is read back from the day of the era. -/
theorem yearOfEra {c q r doy : ℤ} (hc : 0 ≤ c ∧ c ≤ 3) (hq : 0 ≤ q ∧ q ≤ 24) (hr : 0 ≤ r ∧ r ≤ 3)
    (hdoy : 0 ≤ doy ∧ doy ≤ 365) (hleap : doy = 365 → r = 3 ∧ (q = 24 → c = 3)) :
    (36524 * c + 1461 * q + 365 * r + doy - (36524 * c + 1461 * q + 365 * r + doy) / 1460 +
      (36524 * c + 1461 * q + 365 * r + doy) / 36524 - (36524 * c + 1461 * q + 365 * r + doy) / 146096) / 365 =
        100 * c + 4 * q + r := by
  have hfour : (36524 * c + 1461 * q + 365 * r + doy) / 1460 =
      25 * c + q + (24 * c + q + 365 * r + doy) / 1460 := by omega
  by_cases hlast : q = 24 ∧ r = 3 ∧ doy = 365
  · obtain ⟨rfl, rfl, rfl⟩ := hlast
    rw [(hleap rfl).2 rfl]
    rfl
  · have hcentury : (36524 * c + 1461 * q + 365 * r + doy) / 36524 = c := by omega
    have hera : (36524 * c + 1461 * q + 365 * r + doy) / 146096 = 0 := by omega
    have hquot : (24 * c + q + 365 * r + doy) / 1460 = 0 ∨
        (24 * c + q + 365 * r + doy) / 1460 = 1 ∧ r = 3 ∧ 200 ≤ doy := by omega
    have hquot' : doy = 365 → (24 * c + q + 365 * r + doy) / 1460 = 1 := by omega
    rw [hfour, hcentury, hera]
    rcases hquot with h | ⟨h, -, -⟩ <;> rw [h] at hquot' ⊢ <;> omega

theorem civil_of {day era doe yoe doy : ℤ} (hera : (day + 719468) / 146097 = era) (hdoe : (day + 719468) % 146097 = doe)
    (hyoe : (doe - doe / 1460 + doe / 36524 - doe / 146096) / 365 = yoe)
    (hdoy : doe - (365 * yoe + yoe / 4 - yoe / 100) = doy) : civil day =
      let mp := (5 * doy + 2) / 153
      let month := if mp < 10 then mp + 3 else mp - 9
      (yoe + era * 400 + (if month ≤ 2 then 1 else 0), month, doy - (153 * mp + 2) / 5 + 1) := by
  subst hera hdoe hyoe hdoy
  rfl

/-- A day of the year that begins in March is read back. -/
theorem civil_march {y doy : ℤ} (hdoy : 0 ≤ doy ∧ doy < marchStart (y + 1) - marchStart y) :
    civil (marchStart y + doy - 719468) =
      let mp := (5 * doy + 2) / 153
      let month := if mp < 10 then mp + 3 else mp - 9
      (y + (if month ≤ 2 then 1 else 0), month, doy - (153 * mp + 2) / 5 + 1) := by
  have hleap : doy ≤ 364 ∨ doy = 365 ∧ y % 4 = 3 ∧ (y % 100 = 99 → y % 400 = 399) := by
    have hsucc := marchStart_succ y
    omega
  have hyoe : y % 400 = 100 * (y % 400 / 100) + 4 * (y % 400 % 100 / 4) + y % 400 % 100 % 4 := by omega
  have hdoe : marchStart y + doy = y / 400 * 146097 + (36524 * (y % 400 / 100) + 1461 * (y % 400 % 100 / 4) +
      365 * (y % 400 % 100 % 4) + doy) := by
    unfold marchStart
    omega
  have hera : (marchStart y + doy - 719468 + 719468) / 146097 = y / 400 := by omega
  have hday : (marchStart y + doy - 719468 + 719468) % 146097 = 36524 * (y % 400 / 100) +
      1461 * (y % 400 % 100 / 4) + 365 * (y % 400 % 100 % 4) + doy := by omega
  have hyear := @yearOfEra (y % 400 / 100) (y % 400 % 100 / 4) (y % 400 % 100 % 4) doy (by omega) (by omega) (by omega)
    (by omega) (by omega)
  rw [← hyoe] at hyear
  have hback : 36524 * (y % 400 / 100) + 1461 * (y % 400 % 100 / 4) + 365 * (y % 400 % 100 % 4) + doy -
      (365 * (y % 400) + y % 400 / 4 - y % 400 / 100) = doy := by omega
  have hyears : y % 400 + y / 400 * 400 = y := by omega
  rw [civil_of hera hday hyear hback]
  rw [hyears]

/-- A day is read back from its month and its place in the month. -/
theorem civil_monthStart {t d : ℤ} (hd : 0 ≤ d ∧ d < monthLength t) :
    civil (monthStart t + d) = (t / 12, t % 12 + 1, d + 1) := by
  have hmp : 0 ≤ (t - 2) % 12 ∧ (t - 2) % 12 < 12 := by omega
  have hindex : t = 12 * ((t - 2) / 12) + (t - 2) % 12 + 2 := by omega
  have hsucc := marchStart_succ ((t - 2) / 12)
  have hlength := monthLength_march hmp hindex
  have hday : monthStart t + d = marchStart ((t - 2) / 12) + ((153 * ((t - 2) % 12) + 2) / 5 + d) - 719468 := by
    rw [monthStart_march hmp hindex]
    omega
  have hmonth : (5 * ((153 * ((t - 2) % 12) + 2) / 5 + d) + 2) / 153 = (t - 2) % 12 := by omega
  rw [hday, civil_march (by omega)]
  simp only [hmonth]
  by_cases hlate : (t - 2) % 12 < 10
  · rw [if_pos hlate, if_neg (by omega)]
    refine Prod.ext ?_ (Prod.ext ?_ ?_) <;> dsimp only <;> omega
  · rw [if_neg hlate, if_pos (by omega)]
    refine Prod.ext ?_ (Prod.ext ?_ ?_) <;> dsimp only <;> omega

/-- Every day is of a month. -/
theorem exists_month (day : ℤ) : ∃ t d, (0 ≤ d ∧ d < monthLength t) ∧ day = monthStart t + d := by
  induction day with
  | zero => exact ⟨12 * 1970, 0, by decide, by decide⟩
  | succ n ih =>
    obtain ⟨t, d, hd, heq⟩ := ih
    by_cases hlast : d + 1 < monthLength t
    · exact ⟨t, d + 1, by omega, by omega⟩
    · have hbounds := monthLength_bounds (t + 1)
      refine ⟨t + 1, 0, by omega, ?_⟩
      rw [monthStart_succ]
      omega
  | pred n ih =>
    obtain ⟨t, d, hd, heq⟩ := ih
    by_cases hfirst : d = 0
    · have hbounds := monthLength_bounds (t - 1)
      have hsucc := monthStart_succ (t - 1)
      rw [Int.sub_add_cancel] at hsucc
      exact ⟨t - 1, monthLength (t - 1) - 1, by omega, by omega⟩
    · exact ⟨t, d - 1, by omega, by omega⟩

theorem monthOf_monthStart {t d : ℤ} (hd : 0 ≤ d ∧ d < monthLength t) : monthOf (monthStart t + d) = t := by
  unfold monthOf
  rw [civil_monthStart hd]
  dsimp only
  omega

theorem dayOfMonth_monthStart {t d : ℤ} (hd : 0 ≤ d ∧ d < monthLength t) : dayOfMonth (monthStart t + d) = d + 1 := by
  unfold dayOfMonth
  rw [civil_monthStart hd]

theorem day_eq (day : ℤ) : day = monthStart (monthOf day) + (dayOfMonth day - 1) := by
  obtain ⟨t, d, hd, rfl⟩ := exists_month day
  rw [monthOf_monthStart hd, dayOfMonth_monthStart hd]
  omega

theorem dayOfMonth_bounds (day : ℤ) : 1 ≤ dayOfMonth day ∧ dayOfMonth day ≤ monthLength (monthOf day) := by
  obtain ⟨t, d, hd, rfl⟩ := exists_month day
  rw [monthOf_monthStart hd, dayOfMonth_monthStart hd]
  omega

theorem civil_eq (day : ℤ) : civil day = (monthOf day / 12, monthOf day % 12 + 1, dayOfMonth day) := by
  obtain ⟨t, d, hd, rfl⟩ := exists_month day
  rw [monthOf_monthStart hd, dayOfMonth_monthStart hd, civil_monthStart hd]

theorem monthOf_mono {a b : ℤ} (h : a ≤ b) : monthOf a ≤ monthOf b := by
  by_contra hlt
  have hle := monthStart_strictMono.monotone (show monthOf b + 1 ≤ monthOf a by omega)
  have ha := dayOfMonth_bounds a
  have hb := dayOfMonth_bounds b
  have hda := day_eq a
  have hdb := day_eq b
  rw [monthStart_succ] at hle
  omega

end Mydon.Clock
