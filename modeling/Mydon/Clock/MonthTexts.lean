import Mydon.Clock.Months
import Mydon.Js.Text

/-! `YYYY-MM`, the texts of the months. -/

namespace Mydon.Clock

/-- The text of a month counted from January of the year 0. -/
def monthText (t : ℤ) : String := padStart 4 (t / 12) ++ "-" ++ padStart 2 (t % 12 + 1)

theorem toList_padStart (width : ℕ) (n : ℤ) : (padStart width n).toList =
    List.replicate (width - (Nat.toDigits 10 n.toNat).length) '0' ++ Nat.toDigits 10 n.toNat := by
  unfold padStart
  simp [String.length]

theorem ofDigitChars_padStart (width : ℕ) (n : ℤ) : Nat.ofDigitChars 10 (padStart width n).toList 0 = n.toNat := by
  rw [toList_padStart, Nat.ofDigitChars_append, Nat.ofDigitChars_replicate_zero, Nat.mul_zero,
    Nat.ofDigitChars_ten_toDigits]

/-- A number of at most `width` digits fills its place. -/
theorem length_padStart {width : ℕ} {n : ℤ} (hwidth : 0 < width) (h : n.toNat < 10 ^ width) :
    (padStart width n).toList.length = width := by
  have hle := (Nat.length_toDigits_le_iff (by decide : 1 < 10) hwidth).mpr h
  rw [toList_padStart, List.length_append, List.length_replicate]
  omega

theorem padStart_inj {width : ℕ} {m n : ℤ} (hm : 0 ≤ m) (hn : 0 ≤ n) (h : padStart width m = padStart width n) : m = n := by
  have hval := ofDigitChars_padStart width m
  rw [h, ofDigitChars_padStart] at hval
  omega

theorem toList_monthText (t : ℤ) :
    (monthText t).toList = (padStart 4 (t / 12)).toList ++ '-' :: (padStart 2 (t % 12 + 1)).toList := by
  unfold monthText
  rw [String.toList_append, String.toList_append, List.append_assoc]
  rfl

/-- The months of the years 0 to 9999 are told apart by their texts. -/
theorem monthText_inj {s t : ℤ} (hs : 0 ≤ s ∧ s < 120000) (ht : 0 ≤ t ∧ t < 120000) (h : monthText s = monthText t) :
    s = t := by
  have htext := congrArg String.toList h
  rw [toList_monthText, toList_monthText] at htext
  have hlen : (padStart 4 (s / 12)).toList.length = (padStart 4 (t / 12)).toList.length := by
    rw [length_padStart (by decide) (show _ < 10000 by omega), length_padStart (by decide) (show _ < 10000 by omega)]
  obtain ⟨hyear, hmonth⟩ := List.append_inj htext hlen
  have hy := padStart_inj (by omega) (by omega) (String.toList_inj.mp hyear)
  have hm := padStart_inj (by omega) (by omega) (String.toList_inj.mp (List.cons.inj hmonth).2)
  omega

/-- A year is printed without padding as it is with it from the year 1000 on. -/
theorem padStart_four_iff (n : ℕ) : toString n = padStart 4 n ↔ 1000 ≤ n := by
  have hlist : (toString n).toList = Nat.toDigits 10 n := Nat.toList_repr
  rw [← String.toList_inj, hlist, toList_padStart, Int.toNat_natCast]
  have hshort := Nat.length_toDigits_le_iff (by decide : 1 < 10) (by decide : 0 < 3) (n := n)
  constructor
  · intro h
    have hlen := congrArg List.length h
    rw [List.length_append, List.length_replicate] at hlen
    by_contra hlt
    have := hshort.mpr (by omega)
    omega
  · intro h
    have hlong : ¬(Nat.toDigits 10 n).length ≤ 3 := fun hle => by
      have := hshort.mp hle
      omega
    rw [Nat.sub_eq_zero_of_le (by omega), List.replicate_zero, List.nil_append]

end Mydon.Clock
