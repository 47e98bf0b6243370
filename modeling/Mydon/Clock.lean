import Mathlib.Data.Rat.Defs

/-! Moments, in milliseconds since the epoch, and the Tashkent day they fall on,
counted from the same epoch. -/

namespace Mydon.Clock

def TASHKENT_OFFSET_MS : ℤ := 5 * 3600000

def DAY_MS : ℤ := 86400000

def tashkentDay (at_ : ℤ) : ℤ := (at_ + TASHKENT_OFFSET_MS) / DAY_MS

def tashkentDayStart (day : ℤ) : ℤ := day * DAY_MS - TASHKENT_OFFSET_MS

def tashkentDayStartOf (at_ : ℤ) : ℤ := tashkentDayStart (tashkentDay at_)

/-- A moment falls on a day when it lies between the day's bounds. -/
theorem tashkentDay_eq_iff (at_ : ℤ) (day : ℤ) :
    tashkentDay at_ = day ↔ tashkentDayStart day ≤ at_ ∧ at_ < tashkentDayStart day + DAY_MS := by
  unfold tashkentDay tashkentDayStart TASHKENT_OFFSET_MS DAY_MS
  omega

/-- Year, month and day of the month of the proleptic Gregorian calendar. -/
def civil (day : ℤ) : ℤ × ℤ × ℤ :=
  let z := day + 719468
  let era := z / 146097
  let doe := z % 146097
  let yoe := (doe - doe / 1460 + doe / 36524 - doe / 146096) / 365
  let doy := doe - (365 * yoe + yoe / 4 - yoe / 100)
  let mp := (5 * doy + 2) / 153
  let month := if mp < 10 then mp + 3 else mp - 9
  (yoe + era * 400 + (if month ≤ 2 then 1 else 0), month, doy - (153 * mp + 2) / 5 + 1)

/-- The day of a date; months and days beyond their range run over, as they do in `new Date(y, m, d)`. -/
def ofCivil (year month day : ℤ) : ℤ :=
  let year := year + (month - 1) / 12
  let month := (month - 1) % 12 + 1
  let y := if month ≤ 2 then year - 1 else year
  let era := y / 400
  let yoe := y % 400
  let doy := (153 * (if 2 < month then month - 3 else month + 9) + 2) / 5
  era * 146097 + (yoe * 365 + yoe / 4 - yoe / 100 + doy) - 719468 + (day - 1)

def padStart (width : ℕ) (n : ℤ) : String :=
  let digits := toString n.toNat
  String.ofList (List.replicate (width - digits.length) '0') ++ digits

/-- `YYYY-MM-DD`, the `date` of the database. -/
def dayText (day : ℤ) : String :=
  let (y, m, d) := civil day
  padStart 4 y ++ "-" ++ padStart 2 m ++ "-" ++ padStart 2 d

/-- `toISOString()`. -/
def isoText (at_ : ℤ) : String :=
  let ms := at_ % DAY_MS
  dayText (at_ / DAY_MS) ++ "T" ++ padStart 2 (ms / 3600000) ++ ":" ++ padStart 2 (ms / 60000 % 60) ++ ":" ++
    padStart 2 (ms / 1000 % 60) ++ "." ++ padStart 3 (ms % 1000) ++ "Z"

example : ofCivil 2026 (1 + 1) 31 = ofCivil 2026 3 3 ∧ civil (ofCivil 2026 (12 + 2) 28) = (2027, 2, 28) := by decide

example : isoText 1788300000123 = "2026-09-01T22:00:00.123Z" := by decide

end Mydon.Clock
