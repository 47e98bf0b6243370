import Mydon.Clock.MonthTexts
import Mydon.Js.Trim

/-! `YYYY-MM-DD`, the texts of the days, and when digits spell one. -/

namespace Mydon.Clock

/-- A text of a day of the years from 0 on. -/
def IsDayText (s : String) : Prop := ∃ day : ℤ, 0 ≤ (civil day).1 ∧ s = dayText day

/-- The calendar has this day. -/
def Exists (year month day : ℤ) : Prop :=
  1 ≤ month ∧ month ≤ 12 ∧ 1 ≤ day ∧ day ≤ monthLength (12 * year + month - 1)

instance (year month day : ℤ) : Decidable (Exists year month day) := by unfold Exists; infer_instance

/-- The number that digits spell. -/
def digitsValue (cs : List Char) : ℕ := Nat.ofDigitChars 10 cs 0

theorem exists_iff {year month day : ℤ} : Exists year month day ↔ ∃ n : ℤ, civil n = (year, month, day) := by
  constructor
  · rintro ⟨hm, hm', hd, hd'⟩
    refine ⟨monthStart (12 * year + month - 1) + (day - 1), ?_⟩
    rw [civil_monthStart ⟨by omega, by omega⟩]
    refine Prod.ext ?_ (Prod.ext ?_ ?_) <;> dsimp only <;> omega
  · rintro ⟨n, hn⟩
    obtain ⟨hd, hd'⟩ := dayOfMonth_bounds n
    rw [civil_eq] at hn
    obtain ⟨rfl, hmonth⟩ := Prod.mk.inj hn
    obtain ⟨rfl, rfl⟩ := Prod.mk.inj hmonth
    have hindex : 12 * (monthOf n / 12) + (monthOf n % 12 + 1) - 1 = monthOf n := by omega
    refine ⟨by omega, by omega, hd, ?_⟩
    rw [hindex]
    exact hd'

theorem digits_ext {cs ds : List Char} {i j : ℕ} (hcs : ∀ c ∈ cs, Js.isDigit c = true) (hds : ∀ d ∈ ds, Js.isDigit d = true)
    (hlength : cs.length = ds.length) (h : Nat.ofDigitChars 10 cs i = Nat.ofDigitChars 10 ds j) : i = j ∧ cs = ds := by
  induction cs generalizing ds i j with
  | nil =>
    rcases ds with _ | ⟨d, ds⟩
    · exact ⟨h, rfl⟩
    · cases hlength
  | cons c cs ih =>
    rcases ds with _ | ⟨d, ds⟩
    · cases hlength
    · rw [Nat.ofDigitChars_cons, Nat.ofDigitChars_cons] at h
      obtain ⟨hc, hcs⟩ := List.forall_mem_cons.mp hcs
      obtain ⟨hd, hds⟩ := List.forall_mem_cons.mp hds
      obtain ⟨hvalue, rfl⟩ := ih hcs hds (Nat.succ.inj hlength) h
      have hc := Js.digit_bounds hc
      have hd := Js.digit_bounds hd
      have hzero : '0'.toNat = 48 := rfl
      have hchar : c.toNat = d.toNat := by omega
      exact ⟨by omega, by rw [Char.toNat_inj.mp hchar]⟩

theorem isDigit_of_mem_padStart {width : ℕ} {n : ℤ} {c : Char} (h : c ∈ (padStart width n).toList) : Js.isDigit c = true := by
  rw [toList_padStart, List.mem_append] at h
  rcases h with h | h
  · rw [List.eq_of_mem_replicate h]
    decide
  · have hdigit := Nat.isDigit_of_mem_toDigits (by decide) (by decide) h
    simp only [Char.isDigit, Bool.and_eq_true, decide_eq_true_eq] at hdigit
    simp only [Js.isDigit, Bool.and_eq_true, decide_eq_true_eq]
    exact hdigit

theorem digitsValue_lt {cs : List Char} (h : ∀ c ∈ cs, Js.isDigit c = true) (i : ℕ) :
    Nat.ofDigitChars 10 cs i < (i + 1) * 10 ^ cs.length := by
  induction cs generalizing i with
  | nil => rw [Nat.ofDigitChars_nil]; simp
  | cons c cs ih =>
    obtain ⟨hc, hcs⟩ := List.forall_mem_cons.mp h
    have hc := Js.digit_bounds hc
    have hzero : '0'.toNat = 48 := rfl
    rw [Nat.ofDigitChars_cons, List.length_cons, Nat.pow_succ, Nat.mul_comm _ 10, ← Nat.mul_assoc]
    exact (ih hcs _).trans_le (Nat.mul_le_mul_right _ (by omega))

theorem digitsValue_padStart (width : ℕ) (n : ℤ) : digitsValue (padStart width n).toList = n.toNat :=
  ofDigitChars_padStart width n

/-- Digits that fill their place are what their number is printed as. -/
theorem padStart_digitsValue {cs : List Char} {width : ℕ} (hwidth : 0 < width) (hlength : cs.length = width)
    (h : ∀ c ∈ cs, Js.isDigit c = true) : (padStart width (digitsValue cs)).toList = cs := by
  have hlt : digitsValue cs < 10 ^ width := by
    have := digitsValue_lt h 0
    rw [hlength] at this
    simpa [digitsValue] using this
  have hvalue := ofDigitChars_padStart width (digitsValue cs)
  rw [Int.toNat_natCast] at hvalue
  refine (digits_ext (fun c hc => isDigit_of_mem_padStart hc) h ?_ hvalue).2
  rw [length_padStart hwidth (by simpa using hlt), hlength]

theorem toList_dayText (day : ℤ) : (dayText day).toList = (padStart 4 (civil day).1).toList ++ '-' ::
    ((padStart 2 (civil day).2.1).toList ++ '-' :: (padStart 2 (civil day).2.2).toList) := by
  simp [dayText]

variable {ys ms ds : List Char}

/-- Digits in the places of a day spell one when the calendar has it. -/
theorem isDayText_iff (hys : ys.length = 4) (hms : ms.length = 2) (hds : ds.length = 2)
    (hy : ∀ c ∈ ys, Js.isDigit c = true) (hm : ∀ c ∈ ms, Js.isDigit c = true) (hd : ∀ c ∈ ds, Js.isDigit c = true) :
    IsDayText (String.ofList (ys ++ '-' :: (ms ++ '-' :: ds))) ↔
      Exists (digitsValue ys) (digitsValue ms) (digitsValue ds) := by
  have hdash : ∀ {cs : List Char}, (∀ c ∈ cs, Js.isDigit c = true) → '-' ∉ cs := by
    intro cs hcs hmem
    exact absurd (hcs _ hmem) (by decide)
  rw [exists_iff]
  constructor
  · rintro ⟨n, hyear, htext⟩
    have hlist := congrArg String.toList htext
    rw [String.toList_ofList, toList_dayText] at hlist
    obtain ⟨hys', hrest⟩ := Js.cut_inj (hdash hy) (hdash fun c hc => isDigit_of_mem_padStart hc) hlist
    obtain ⟨hms', hds'⟩ := Js.cut_inj (hdash hm) (hdash fun c hc => isDigit_of_mem_padStart hc) hrest
    have hbounds := dayOfMonth_bounds n
    have hcivil := civil_eq n
    refine ⟨n, Prod.ext ?_ (Prod.ext ?_ ?_)⟩
    · rw [hys', digitsValue_padStart, Int.toNat_of_nonneg hyear]
    · rw [hms', digitsValue_padStart, Int.toNat_of_nonneg (by rw [hcivil]; dsimp only; omega)]
    · rw [hds', digitsValue_padStart, Int.toNat_of_nonneg (by rw [hcivil]; dsimp only; omega)]
  · rintro ⟨n, hn⟩
    refine ⟨n, by rw [hn]; exact Int.natCast_nonneg _, String.toList_inj.mp ?_⟩
    rw [String.toList_ofList, toList_dayText, hn, padStart_digitsValue (by decide) hys hy,
      padStart_digitsValue (by decide) hms hm, padStart_digitsValue (by decide) hds hd]

end Mydon.Clock
