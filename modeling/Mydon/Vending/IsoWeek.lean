import Mydon.Clock.DayTexts
import Mydon.Clock.Weeks
import Mydon.Maintenance.Anchor

/-! The weeks of the reports: the ISO week of a moment's Tashkent day, and the week of a key. All the moments
that the arithmetic reads are midnights, so they are counted in days. -/

namespace Mydon.Vending

open Maintenance (IsoDay utc dayNumber isoOfDay)
open Clock (monday isoYear isoWeek HasWeek)

/-- `from_` and `to_` are missing when their texts are no `YYYY-MM-DD`. -/
structure IsoWeek where
  key : String
  year : ℤ
  week : ℤ
  from_ : Option IsoDay
  to_ : Option IsoDay
  deriving DecidableEq

/-- `getUTCDay()` of a day; the day 0 was a Thursday. -/
def getUTCDay (day : ℤ) : ℤ := (day + 4) % 7

def mondayOf (day : ℤ) : ℤ := day - (getUTCDay day + 6) % 7

def week1Thursday (year : ℤ) : ℤ := mondayOf (utc year 1 4) + 3

/-- `String(week).padStart(2, "0")`. -/
def weekText (week : ℤ) : String := if 0 ≤ week then Clock.padStart 2 week else toString week

def weekOfUtcDay (day : ℤ) : IsoWeek :=
  let monday := mondayOf day
  let thursday := monday + 3
  let year := (Clock.civil thursday).1
  let week := (thursday - week1Thursday year) / 7 + 1
  { key := toString year ++ "-" ++ weekText week
    year
    week
    from_ := isoOfDay monday
    to_ := isoOfDay (monday + 6) }

/-- The numbers of `tashkentDay(at).split("-")`. A year before 0 begins with a dash of its own, so that the first
number is empty; from 10000 on the text is cut before the day, and the week throws. -/
def dayParts (day : ℤ) : Option (ℤ × ℤ × ℤ) :=
  let (year, month, d) := Clock.civil day
  if year < 0 then some (0, -year, month) else if year ≤ 9999 then some (year, month, d) else none

def isoWeekTashkent (at_ : ℤ) : Option IsoWeek :=
  (dayParts (Clock.tashkentDay at_)).map fun (y, m, d) => weekOfUtcDay (utc y m d)

/-- `WEEK_KEY.exec(key.trim())`. -/
def readKey (key : String) : Option (ℤ × ℤ) :=
  match Js.trimChars key.toList with
  | [a, b, c, d, dash, e, f] =>
    if dash = '-' ∧ ∀ digit ∈ [a, b, c, d, e, f], Js.isDigit digit = true then
      some (Clock.digitsValue [a, b, c, d], Clock.digitsValue [e, f])
    else none
  | _ => none

def isoWeekFromKey (key : String) : Option IsoWeek :=
  match readKey key with
  | none => none
  | some (year, week) =>
    if week < 1 ∨ 53 < week then none
    else
      let found := weekOfUtcDay (week1Thursday year + (week - 1) * 7)
      if found.year = year ∧ found.week = week then some found else none

def previousIsoWeek (w : IsoWeek) : IsoWeek :=
  let monday := match w.from_ with
    | some day => dayNumber day
    | none => week1Thursday w.year + (w.week - 1) * 7 - 3
  weekOfUtcDay (monday - 7)

/-! The weeks that the arithmetic finds. -/

theorem mondayOf_eq (day : ℤ) : mondayOf day = monday day := by
  unfold mondayOf getUTCDay monday
  omega

theorem week1Thursday_eq {year : ℤ} (h : 100 ≤ year) : week1Thursday year = Clock.firstThursday year := by
  unfold week1Thursday utc Maintenance.utcYear
  rw [if_neg (by omega), mondayOf_eq]
  rfl

theorem weekOfUtcDay_from (day : ℤ) : (weekOfUtcDay day).from_ = isoOfDay (monday day) := by
  rw [← mondayOf_eq]
  rfl

theorem weekOfUtcDay_to (day : ℤ) : (weekOfUtcDay day).to_ = isoOfDay (monday day + 6) := by
  rw [← mondayOf_eq]
  rfl

theorem weekOfUtcDay_year (day : ℤ) : (weekOfUtcDay day).year = isoYear day := by
  unfold isoYear
  rw [← mondayOf_eq]
  rfl

/-- From the year 100 on the number is the standard's. -/
theorem weekOfUtcDay_week {day : ℤ} (h : 100 ≤ isoYear day) : (weekOfUtcDay day).week = isoWeek day := by
  have hthursday := Clock.thursday_eq day
  have hcode : (weekOfUtcDay day).week = (monday day + 3 - week1Thursday (isoYear day)) / 7 + 1 := by
    unfold isoYear
    rw [← mondayOf_eq]
    rfl
  rw [hcode, week1Thursday_eq h]
  omega

theorem weekOfUtcDay_key (day : ℤ) :
    (weekOfUtcDay day).key = toString (isoYear day) ++ "-" ++ weekText (weekOfUtcDay day).week := by
  rw [← weekOfUtcDay_year]
  rfl

theorem weekOfUtcDay_congr {a b : ℤ} (h : monday a = monday b) : weekOfUtcDay a = weekOfUtcDay b := by
  unfold weekOfUtcDay
  rw [mondayOf_eq, mondayOf_eq, h]

/-! Keys. -/

theorem length_trimChars_le (cs : List Char) : (Js.trimChars cs).length ≤ cs.length := by
  have hfront := (List.dropWhile_suffix Js.isSpace (l := cs)).length_le
  have hback := (List.dropWhile_suffix Js.isSpace (l := (cs.dropWhile Js.isSpace).reverse)).length_le
  rw [List.length_reverse] at hback
  rw [Js.trimChars, List.length_reverse]
  omega

theorem readKey_of_length {key : String} (h : key.toList.length < 7) : readKey key = none := by
  have hle := length_trimChars_le key.toList
  unfold readKey
  split
  · rename_i heq
    rw [heq] at hle
    simp only [List.length_cons, List.length_nil] at hle
    omega
  · rfl

theorem readKey_bounds {key : String} {year week : ℤ} (h : readKey key = some (year, week)) : 0 ≤ year := by
  unfold readKey at h
  split at h
  · split_ifs at h
    obtain ⟨rfl, -⟩ := Prod.mk.inj (Option.some.inj h)
    exact Int.natCast_nonneg _
  · cases h

theorem toList_key {year week : ℤ} (hyear : 0 ≤ year) (hweek : 0 ≤ week) :
    (toString year ++ "-" ++ weekText week).toList =
      Nat.toDigits 10 year.toNat ++ '-' :: (Clock.padStart 2 week).toList := by
  have htext : (toString year).toList = Nat.toDigits 10 year.toNat := by
    obtain ⟨n, rfl⟩ := Int.eq_ofNat_of_zero_le hyear
    exact Nat.toList_repr
  rw [weekText, if_pos hweek, String.toList_append, String.toList_append, htext, List.append_assoc]
  rfl

/-- A key with a year of four digits is read back. -/
theorem readKey_key {year week : ℤ} (hyear : 1000 ≤ year ∧ year ≤ 9999) (hweek : 0 ≤ week ∧ week ≤ 53) :
    readKey (toString year ++ "-" ++ weekText week) = some (year, week) := by
  have hfour : Nat.toDigits 10 year.toNat = (Clock.padStart 4 year).toList := by
    have h := (Clock.padStart_four_iff year.toNat).mpr (by omega)
    rw [Int.toNat_of_nonneg (by omega)] at h
    rw [← h]
    exact Nat.toList_repr.symm
  have hylength := Clock.length_padStart (by decide : 0 < 4) (show year.toNat < 10 ^ 4 by omega)
  have hwlength := Clock.length_padStart (by decide : 0 < 2) (show week.toNat < 10 ^ 2 by omega)
  have hyvalue := Clock.digitsValue_padStart 4 year
  have hwvalue := Clock.digitsValue_padStart 2 week
  have hydigits : ∀ c ∈ (Clock.padStart 4 year).toList, Js.isDigit c = true := fun c => Clock.isDigit_of_mem_padStart
  have hwdigits : ∀ c ∈ (Clock.padStart 2 week).toList, Js.isDigit c = true := fun c => Clock.isDigit_of_mem_padStart
  have htrim : Js.trimChars ((Clock.padStart 4 year).toList ++ '-' :: (Clock.padStart 2 week).toList) =
      (Clock.padStart 4 year).toList ++ '-' :: (Clock.padStart 2 week).toList := by
    apply Js.trimChars_eq_self
    intro c hc
    rcases List.mem_append.mp hc with hc | hc
    · exact Js.digit_not_space (hydigits c hc)
    · rcases List.mem_cons.mp hc with rfl | hc
      · rfl
      · exact Js.digit_not_space (hwdigits c hc)
  unfold readKey
  rw [toList_key (by omega) hweek.1, hfour, htrim]
  generalize (Clock.padStart 4 year).toList = ys at *
  generalize (Clock.padStart 2 week).toList = ws at *
  obtain ⟨a, b, c, d, rfl⟩ := List.length_eq_four.mp hylength
  obtain ⟨e, f, rfl⟩ := List.length_eq_two.mp hwlength
  have hdigits : ∀ digit ∈ [a, b, c, d, e, f], Js.isDigit digit = true := fun digit hdigit =>
    (List.mem_append.mp (show digit ∈ [a, b, c, d] ++ [e, f] from hdigit)).elim (hydigits digit) (hwdigits digit)
  simp only [List.cons_append, List.nil_append, true_and, if_pos hdigits, hyvalue, hwvalue]
  rw [Int.toNat_of_nonneg (by omega), Int.toNat_of_nonneg hweek.1]

/-- A year of fewer digits is not. -/
theorem readKey_short {year week : ℤ} (hyear : 0 ≤ year ∧ year < 1000) (hweek : 0 ≤ week ∧ week ≤ 53) :
    readKey (toString year ++ "-" ++ weekText week) = none := by
  have hylength := (Nat.length_toDigits_le_iff (by decide : 1 < 10) (by decide : 0 < 3)).mpr
    (show year.toNat < 10 ^ 3 by omega)
  have hwlength := Clock.length_padStart (by decide : 0 < 2) (show week.toNat < 10 ^ 2 by omega)
  apply readKey_of_length
  rw [toList_key hyear.1 hweek.1, List.length_append, List.length_cons]
  omega

/-! The week of a moment. -/

/-- `w` is the ISO week of the day. -/
def IsWeekOf (w : IsoWeek) (day : ℤ) : Prop :=
  w.year = isoYear day ∧ w.week = isoWeek day ∧ ∃ from_ to_ : IsoDay, w.from_ = some from_ ∧ w.to_ = some to_ ∧
    ((from_ : ℤ) + 3) % 7 = 0 ∧ (to_ : ℤ) = from_ + 6 ∧ from_ ≤ day ∧ day ≤ to_

/-- The week of a moment is that of its Tashkent day, is read back from its key, and has the week before it. -/
def WeekRight (at_ : ℤ) : Prop :=
  ∃ w, isoWeekTashkent at_ = some w ∧ IsWeekOf w (Clock.tashkentDay at_) ∧ isoWeekFromKey w.key = some w ∧
    ∀ from_ : IsoDay, w.from_ = some from_ → IsWeekOf (previousIsoWeek w) (from_ - 1) ∧
      (previousIsoWeek w).to_.map Subtype.val = some (from_ - 1 : ℤ)

/-- A key has no week exactly when it is malformed or its year has no week of the number. -/
def KeyRight (key : String) : Prop :=
  isoWeekFromKey key = none ↔ ∀ year week, readKey key = some (year, week) → ¬HasWeek year week

/-- The key has four digits for the year, and Sunday has four as well. -/
def InRange (at_ : ℤ) : Prop :=
  1000 ≤ isoYear (Clock.tashkentDay at_) ∧ monday (Clock.tashkentDay at_) + 6 ≤ Clock.ofCivil 9999 12 31

instance (at_ : ℤ) : Decidable (InRange at_) := by unfold InRange; infer_instance

theorem isoOfDay_of {n : ℤ} (h : Clock.ofCivil 0 1 1 ≤ n ∧ n ≤ Clock.ofCivil 9999 12 31) : isoOfDay n = some ⟨n, h⟩ :=
  dif_pos h

/-- The parts of the text are the day from the year 100 on; before it they are a day after 1899. -/
theorem dayParts_cases {day y m d : ℤ} (h : dayParts day = some (y, m, d)) :
    utc y m d = day ∨ day < Clock.ofCivil 100 1 1 ∧ Clock.ofCivil 1900 1 1 ≤ utc y m d := by
  have hyear := Clock.year_bounds day
  have hday := Clock.day_eq day
  have hfirst := Clock.dayOfMonth_bounds day
  have hearly : ∀ {year month dom : ℤ}, 0 ≤ year → 1 ≤ month → 1 ≤ dom →
      Clock.ofCivil 1900 1 1 ≤ Clock.ofCivil (1900 + year) month dom := by
    intro year month dom hyear hmonth hdom
    have hmono := Clock.monthStart_strictMono.monotone (show 12 * 1900 ≤ 12 * (1900 + year) + month - 1 by omega)
    rw [Clock.ofCivil_eq (1900 + year), Clock.newYear_eq]
    omega
  have hbefore : ∀ {year : ℤ}, year < 100 → Clock.ofCivil (year + 1) 1 1 ≤ Clock.ofCivil 100 1 1 := fun hlt =>
    Clock.newYear_strictMono.monotone (by omega)
  rw [Clock.civil_eq] at hyear
  unfold dayParts at h
  rw [Clock.civil_eq] at h
  dsimp only at h hyear
  unfold utc Maintenance.utcYear
  split_ifs at h with hneg hlast
  · obtain ⟨rfl, rfl, rfl⟩ : 0 = y ∧ _ = m ∧ _ = d := by simpa using h
    have hlow := hbefore (show Clock.monthOf day / 12 < 100 by omega)
    exact Or.inr ⟨by omega, hearly le_rfl (by omega) (by omega)⟩
  · obtain ⟨rfl, rfl, rfl⟩ : _ = y ∧ _ = m ∧ _ = d := by simpa using h
    split_ifs with hcentury
    · have hlow := hbefore (show Clock.monthOf day / 12 < 100 by omega)
      exact Or.inr ⟨by omega, hearly (by omega) (by omega) (by omega)⟩
    · left
      rw [Clock.ofCivil_eq, show 12 * (Clock.monthOf day / 12) + (Clock.monthOf day % 12 + 1) - 1 =
        Clock.monthOf day by omega]
      exact hday.symm

/-- The arithmetic is right on days whose week is of the year 100 or later and whose texts are whole. -/
theorem isWeekOf_weekOfUtcDay {day : ℤ} (hyear : 100 ≤ isoYear day)
    (hlast : monday day + 6 ≤ Clock.ofCivil 9999 12 31) : IsWeekOf (weekOfUtcDay day) day := by
  have hlow : Clock.ofCivil 0 1 1 + 7 ≤ Clock.ofCivil 100 1 1 := by decide
  have hnew := Clock.newYear_strictMono.monotone hyear
  have hthursday := Clock.isoYear_bounds day
  have hmonday := Clock.monday_bounds day
  refine ⟨weekOfUtcDay_year day, weekOfUtcDay_week hyear, ⟨monday day, by omega, by omega⟩,
    ⟨monday day + 6, by omega, by omega⟩, ?_, ?_, hmonday.2.2, rfl, hmonday.1, hmonday.2.1⟩
  · rw [weekOfUtcDay_from, isoOfDay_of]
  · rw [weekOfUtcDay_to, isoOfDay_of]

/-- What the key's branch finds from the year 100 on. -/
theorem weekOfUtcDay_thursday {year week : ℤ} (hyear : 100 ≤ year) (hweek : 1 ≤ week) :
    ((weekOfUtcDay (week1Thursday year + (week - 1) * 7)).year = year ∧
      (weekOfUtcDay (week1Thursday year + (week - 1) * 7)).week = week) ↔ HasWeek year week := by
  have hfirst := Clock.firstThursday_bounds year
  have hafter : 100 ≤ isoYear (Clock.firstThursday year + (week - 1) * 7) := by
    have hday := Clock.monday_bounds (Clock.ofCivil year 1 4)
    have hmonday : monday (Clock.firstThursday year + (week - 1) * 7) =
        monday (Clock.ofCivil year 1 4) + (week - 1) * 7 :=
      Clock.monday_eq (by omega) (by unfold Clock.firstThursday; omega)
    exact hyear.trans (Clock.le_year (by rw [hmonday]; unfold Clock.firstThursday at hfirst; omega))
  rw [week1Thursday_eq hyear, Clock.hasWeek_iff hweek, weekOfUtcDay_year, weekOfUtcDay_week hafter]

theorem isoWeekFromKey_key {day : ℤ} (hyear : 1000 ≤ isoYear day ∧ isoYear day ≤ 9999) :
    isoWeekFromKey (weekOfUtcDay day).key = some (weekOfUtcDay day) := by
  have hweek := Clock.isoWeek_bounds day
  have hthursday := Clock.thursday_eq day
  have hmonday := Clock.monday_bounds day
  have hsame : weekOfUtcDay (week1Thursday (isoYear day) + (isoWeek day - 1) * 7) = weekOfUtcDay day := by
    rw [week1Thursday_eq (by omega), ← hthursday]
    exact weekOfUtcDay_congr (Clock.monday_eq hmonday.2.2 ⟨by omega, by omega⟩)
  rw [isoWeekFromKey, weekOfUtcDay_key, weekOfUtcDay_week (by omega), readKey_key hyear ⟨by omega, hweek.2⟩]
  dsimp only
  rw [if_neg (by omega), hsame, if_pos ⟨weekOfUtcDay_year day, weekOfUtcDay_week (by omega)⟩]

theorem isoWeekTashkent_of_inRange {at_ : ℤ} (h : InRange at_) :
    isoWeekTashkent at_ = some (weekOfUtcDay (Clock.tashkentDay at_)) := by
  obtain ⟨hyear, hlast⟩ := h
  have hthursday := Clock.isoYear_bounds (Clock.tashkentDay at_)
  have hmonday := Clock.monday_bounds (Clock.tashkentDay at_)
  have hnew := Clock.newYear_strictMono.monotone hyear
  have hlow : Clock.ofCivil 100 1 1 + 7 ≤ Clock.ofCivil 1000 1 1 := by decide
  have hend : Clock.ofCivil 9999 12 31 < Clock.ofCivil 10000 1 1 := by decide
  have hge := @Clock.le_year 100 (Clock.tashkentDay at_) (by omega)
  have hle := @Clock.year_lt 10000 (Clock.tashkentDay at_) (by omega)
  have hparts : dayParts (Clock.tashkentDay at_) = some (Clock.civil (Clock.tashkentDay at_)) := by
    unfold dayParts
    dsimp only
    rw [if_neg (by omega), if_pos (by omega)]
  have hday : utc (Clock.civil (Clock.tashkentDay at_)).1 (Clock.civil (Clock.tashkentDay at_)).2.1
      (Clock.civil (Clock.tashkentDay at_)).2.2 = Clock.tashkentDay at_ :=
    (dayParts_cases hparts).resolve_right fun hbefore => by omega
  rw [isoWeekTashkent, hparts]
  exact congrArg (fun day => some (weekOfUtcDay day)) hday

theorem weekRight_of_inRange {at_ : ℤ} (h : InRange at_) : WeekRight at_ := by
  obtain ⟨hyear, hlast⟩ := h
  have hweek := isWeekOf_weekOfUtcDay (by omega) hlast
  have hthursday := Clock.isoYear_bounds (Clock.tashkentDay at_)
  have hmonday := Clock.monday_bounds (Clock.tashkentDay at_)
  have hend : Clock.ofCivil 9999 12 31 < Clock.ofCivil 10000 1 1 := by decide
  have hle : isoYear (Clock.tashkentDay at_) < 10000 := Clock.year_lt (by omega)
  refine ⟨_, isoWeekTashkent_of_inRange ⟨hyear, hlast⟩, hweek, isoWeekFromKey_key ⟨hyear, by omega⟩, ?_⟩
  intro from_ hfrom
  rw [weekOfUtcDay_from, Maintenance.isoOfDay_eq_some] at hfrom
  -- the Sunday before is of the Monday seven days back
  have hnew := Clock.newYear_strictMono.monotone hyear
  have hlow : Clock.ofCivil 100 1 1 + 11 ≤ Clock.ofCivil 1000 1 1 := by decide
  have hnumber : dayNumber from_ = from_ := Maintenance.dayNumber_of_le (by omega)
  have hsunday : monday ((from_ : ℤ) - 1) = from_ - 7 := Clock.monday_eq (by omega) ⟨by omega, by omega⟩
  have hprevious : previousIsoWeek (weekOfUtcDay (Clock.tashkentDay at_)) = weekOfUtcDay ((from_ : ℤ) - 1) := by
    unfold previousIsoWeek
    rw [weekOfUtcDay_from, Maintenance.isoOfDay_eq_some.mpr hfrom]
    dsimp only
    rw [hnumber]
    apply weekOfUtcDay_congr
    rw [hsunday]
    exact Clock.monday_eq (by omega) ⟨by omega, by omega⟩
  have hbefore : 100 ≤ isoYear ((from_ : ℤ) - 1) := Clock.le_year (by omega)
  rw [hprevious]
  refine ⟨isWeekOf_weekOfUtcDay hbefore (by omega), ?_⟩
  have hzero : Clock.ofCivil 0 1 1 ≤ Clock.ofCivil 100 1 1 := by decide
  rw [weekOfUtcDay_to, hsunday, isoOfDay_of ⟨by omega, by omega⟩]
  exact congrArg some (show (from_ : ℤ) - 7 + 6 = from_ - 1 by omega)

theorem inRange_of_weekRight {at_ : ℤ} (h : WeekRight at_) : InRange at_ := by
  obtain ⟨w, hw, ⟨hyear, hweek, from_, to_, hfrom, hto, -, hsix, hle, hge⟩, hkey, -⟩ := h
  unfold isoWeekTashkent at hw
  obtain ⟨⟨y, m, d⟩, hparts, rfl⟩ := Option.map_eq_some_iff.mp hw
  dsimp only at hyear hweek hfrom hto hkey
  rw [weekOfUtcDay_from, Maintenance.isoOfDay_eq_some] at hfrom
  have hmonday := Clock.monday_bounds (utc y m d)
  have hcentury : Clock.ofCivil 100 1 1 + 6 < Clock.ofCivil 1900 1 1 := by decide
  rcases dayParts_cases hparts with hday | ⟨hbefore, hafter⟩
  · rw [hday] at hyear hweek hfrom hkey
    refine ⟨?_, by rw [← hfrom]; have := to_.2.2; omega⟩
    by_contra hshort
    have hbounds := Clock.isoWeek_bounds (Clock.tashkentDay at_)
    have hzero : Clock.ofCivil 0 1 1 ≤ monday (Clock.tashkentDay at_) := hfrom ▸ from_.2.1
    have hlt : 0 ≤ isoYear (Clock.tashkentDay at_) := Clock.le_year (by omega)
    rw [isoWeekFromKey, weekOfUtcDay_key, hweek, readKey_short ⟨by omega, by omega⟩ ⟨by omega, hbounds.2⟩] at hkey
    cases hkey
  · omega

/-- The same key is the same week. -/
theorem key_eq_iff {at_ at' : ℤ} (h : InRange at_) (h' : InRange at') :
    (isoWeekTashkent at_).map (·.key) = (isoWeekTashkent at').map (·.key) ↔
      monday (Clock.tashkentDay at_) = monday (Clock.tashkentDay at') := by
  constructor
  · intro hkey
    obtain ⟨w, hw, ⟨hyear, hweek, -⟩, hread, -⟩ := weekRight_of_inRange h
    obtain ⟨w', hw', ⟨hyear', hweek', -⟩, hread', -⟩ := weekRight_of_inRange h'
    rw [hw, hw', Option.map_some, Option.map_some, Option.some.injEq] at hkey
    rw [hkey, hread', Option.some.injEq] at hread
    subst hread
    exact Clock.monday_eq_iff.mpr ⟨hyear.symm.trans hyear', hweek.symm.trans hweek'⟩
  · intro hmonday
    rw [isoWeekTashkent_of_inRange h, isoWeekTashkent_of_inRange h', weekOfUtcDay_congr hmonday]

/-- Below the year 100 `Date.UTC` answers for a year of the twentieth century, and no key is accepted. -/
theorem isoWeekFromKey_early {key : String} {year week : ℤ} (hkey : readKey key = some (year, week)) (h : year < 100) :
    isoWeekFromKey key = none := by
  have hzero := readKey_bounds hkey
  rw [isoWeekFromKey, hkey]
  dsimp only
  split_ifs with hweek hfound
  · rfl
  · have hfirst : week1Thursday year = Clock.firstThursday (1900 + year) := by
      unfold week1Thursday utc Maintenance.utcYear
      rw [if_pos ⟨hzero, by omega⟩, mondayOf_eq]
      rfl
    have hbounds := Clock.firstThursday_bounds (1900 + year)
    have hmonday := Clock.monday_bounds (week1Thursday year + (week - 1) * 7)
    have hnew := Clock.newYear_strictMono.monotone (show 1900 ≤ 1900 + year by omega)
    have hfar : Clock.ofCivil 100 1 1 + 7 < Clock.ofCivil 1900 1 1 := by decide
    have hlater : 100 ≤ isoYear (week1Thursday year + (week - 1) * 7) := Clock.le_year (by omega)
    rw [weekOfUtcDay_year] at hfound
    omega
  · rfl

theorem keyRight_iff (key : String) :
    KeyRight key ↔ ∀ year week, readKey key = some (year, week) → HasWeek year week → 100 ≤ year := by
  unfold KeyRight
  rcases hkey : readKey key with _ | ⟨year, week⟩
  · simp [isoWeekFromKey, hkey]
  · have hread : ∀ p : ℤ → ℤ → Prop, (∀ y w, some (year, week) = some (y, w) → p y w) ↔ p year week := fun p =>
      ⟨fun h => h year week rfl, fun h y w heq => by cases heq; exact h⟩
    have hrange : HasWeek year week → 1 ≤ week ∧ week ≤ 53 := by
      rintro ⟨day, -, rfl⟩
      exact Clock.isoWeek_bounds day
    rw [hread, hread]
    by_cases hearly : year < 100
    · rw [isoWeekFromKey_early hkey hearly]
      exact ⟨fun h hhas => absurd hhas (h.mp rfl), fun h => ⟨fun _ hhas => by have := h hhas; omega, fun _ => rfl⟩⟩
    · refine iff_of_true ?_ fun _ => by omega
      rw [isoWeekFromKey, hkey]
      dsimp only
      split_ifs with hweek hfound
      · exact ⟨fun _ hhas => by have := hrange hhas; omega, fun _ => rfl⟩
      · have hhas := (weekOfUtcDay_thursday (by omega) (by omega)).mp hfound
        exact iff_of_false (fun h => nomatch h) fun h => h hhas
      · exact ⟨fun _ hhas => hfound ((weekOfUtcDay_thursday (by omega) (by omega)).mpr hhas), fun _ => rfl⟩

/-- Both moments have the right weeks, and the same key exactly in the same week. -/
def PairRight (at_ at' : ℤ) : Prop :=
  WeekRight at_ ∧ WeekRight at' ∧ ((isoWeekTashkent at_).map (·.key) = (isoWeekTashkent at').map (·.key) ↔
    monday (Clock.tashkentDay at_) = monday (Clock.tashkentDay at'))

theorem iso_weeks_right_iff (at_ at' : ℤ) (key : String) :
    (PairRight at_ at' ↔ InRange at_ ∧ InRange at') ∧
      (KeyRight key ↔ ∀ year week, readKey key = some (year, week) → HasWeek year week → 100 ≤ year) := by
  refine ⟨⟨?_, ?_⟩, keyRight_iff key⟩
  · rintro ⟨h, h', -⟩
    exact ⟨inRange_of_weekRight h, inRange_of_weekRight h'⟩
  · rintro ⟨h, h'⟩
    exact ⟨weekRight_of_inRange h, weekRight_of_inRange h', key_eq_iff h h'⟩

/-- The first of June of 999: its key is `999-22`, which is read as no key. -/
theorem week_of_999_not_read_back : ¬∀ at_ at', PairRight at_ at' := fun h =>
  absurd (inRange_of_weekRight (h (Clock.ofCivil 999 6 1 * Clock.DAY_MS) 0).1) (by decide)

end Mydon.Vending
