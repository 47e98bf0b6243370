import Mydon.Clock.Months

/-! ISO 8601 weeks: they run from Monday to Sunday, a week is of the year that its Thursday is of, and the weeks of
a year are numbered in the order of their Thursdays. -/

namespace Mydon.Clock

/-- The day 0 was a Thursday. -/
def monday (day : ℤ) : ℤ := day - (day + 3) % 7

def isoYear (day : ℤ) : ℤ := (civil (monday day + 3)).1

/-- Which Thursday of its year the week's Thursday is. -/
def isoWeek (day : ℤ) : ℤ := (monday day + 3 - ofCivil (isoYear day) 1 1) / 7 + 1

/-- The year has a week of this number. -/
def HasWeek (year week : ℤ) : Prop := ∃ day, isoYear day = year ∧ isoWeek day = week

theorem monday_bounds (day : ℤ) : monday day ≤ day ∧ day ≤ monday day + 6 ∧ (monday day + 3) % 7 = 0 := by
  unfold monday
  omega

theorem monday_eq {m day : ℤ} (hm : (m + 3) % 7 = 0) (hday : m ≤ day ∧ day ≤ m + 6) : monday day = m := by
  unfold monday
  omega

/-! Years by the first of January. -/

theorem newYear_eq (year : ℤ) : ofCivil year 1 1 = monthStart (12 * year) := by
  rw [ofCivil_eq, show 12 * year + 1 - 1 = 12 * year by omega]
  omega

theorem newYear_succ (year : ℤ) : ofCivil (year + 1) 1 1 = ofCivil year 1 1 + 365 ∨
    ofCivil (year + 1) 1 1 = ofCivil year 1 1 + 366 := by
  have hsucc := marchStart_succ (year - 1)
  rw [Int.sub_add_cancel] at hsucc
  rw [newYear_eq, newYear_eq, @monthStart_march (12 * year) (year - 1) 10 (by omega) (by omega),
    @monthStart_march (12 * (year + 1)) year 10 (by omega) (by omega)]
  omega

theorem newYear_strictMono : StrictMono fun year : ℤ => ofCivil year 1 1 :=
  strictMono_int_of_lt_succ fun year => by
    have hsucc := newYear_succ year
    omega

theorem year_bounds (day : ℤ) : ofCivil (civil day).1 1 1 ≤ day ∧ day < ofCivil ((civil day).1 + 1) 1 1 := by
  have hday := day_eq day
  have hbounds := dayOfMonth_bounds day
  have hlow := monthStart_strictMono.monotone (show 12 * (monthOf day / 12) ≤ monthOf day by omega)
  have hhigh := monthStart_strictMono.monotone (show monthOf day + 1 ≤ 12 * (monthOf day / 12 + 1) by omega)
  rw [monthStart_succ] at hhigh
  rw [civil_eq, newYear_eq, newYear_eq]
  dsimp only
  omega

theorem le_year {year day : ℤ} (h : ofCivil year 1 1 ≤ day) : year ≤ (civil day).1 :=
  Int.lt_add_one_iff.mp (newYear_strictMono.lt_iff_lt.mp (h.trans_lt (year_bounds day).2))

theorem year_lt {year day : ℤ} (h : day < ofCivil year 1 1) : (civil day).1 < year :=
  newYear_strictMono.lt_iff_lt.mp ((year_bounds day).1.trans_lt h)

theorem isoYear_bounds (day : ℤ) :
    ofCivil (isoYear day) 1 1 ≤ monday day + 3 ∧ monday day + 3 < ofCivil (isoYear day + 1) 1 1 :=
  year_bounds _

theorem isoWeek_bounds (day : ℤ) : 1 ≤ isoWeek day ∧ isoWeek day ≤ 53 := by
  have hyear := isoYear_bounds day
  have hlength := newYear_succ (isoYear day)
  unfold isoWeek
  omega

/-- The Thursday of the week of the fourth of January, the first one of the year. -/
def firstThursday (year : ℤ) : ℤ := monday (ofCivil year 1 4) + 3

theorem firstThursday_bounds (year : ℤ) :
    ofCivil year 1 1 ≤ firstThursday year ∧ firstThursday year < ofCivil year 1 1 + 7 := by
  have hday : ofCivil year 1 4 = ofCivil year 1 1 + 3 := by rw [ofCivil_eq, ofCivil_eq]; omega
  have hmonday := monday_bounds (ofCivil year 1 4)
  unfold firstThursday
  omega

theorem thursday_eq (day : ℤ) : monday day + 3 = firstThursday (isoYear day) + (isoWeek day - 1) * 7 := by
  have hyear := isoYear_bounds day
  have hfirst := firstThursday_bounds (isoYear day)
  have hmonday := monday_bounds day
  have hweek := monday_bounds (ofCivil (isoYear day) 1 4)
  unfold isoWeek
  unfold firstThursday at hfirst ⊢
  omega

/-- Days are of one week exactly when year and number are the same. -/
theorem monday_eq_iff {a b : ℤ} : monday a = monday b ↔ isoYear a = isoYear b ∧ isoWeek a = isoWeek b := by
  constructor
  · intro h
    simp only [isoWeek, isoYear, h, and_self]
  · rintro ⟨hyear, hweek⟩
    have ha := thursday_eq a
    have hb := thursday_eq b
    rw [hyear, hweek] at ha
    omega

/-- The days from a Thursday on: a week of the year, or none of it. -/
theorem hasWeek_iff {year week : ℤ} (hweek : 1 ≤ week) : HasWeek year week ↔
    isoYear (firstThursday year + (week - 1) * 7) = year ∧ isoWeek (firstThursday year + (week - 1) * 7) = week := by
  constructor
  · rintro ⟨day, rfl, rfl⟩
    rw [← thursday_eq]
    have hmonday := monday_bounds day
    exact monday_eq_iff.mp (monday_eq hmonday.2.2 ⟨by omega, by omega⟩)
  · exact fun h => ⟨_, h⟩

end Mydon.Clock
