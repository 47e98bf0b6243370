import Mathlib.Algebra.Order.Round
import Mathlib.Tactic.Positivity
import Mathlib.Tactic.Ring

/-! Rounding to the multiples of `1 / n`, halves up. -/

namespace Mydon.Lib

variable {R : Type*} [Field R] {n : ℕ} {x y : R}

def OnGrid (n : ℕ) (x : R) : Prop := ∃ k : ℤ, x = k / n

theorem onGrid_zero : OnGrid n (0 : R) := ⟨0, by simp⟩

theorem OnGrid.sub (hx : OnGrid n x) (hy : OnGrid n y) : OnGrid n (x - y) := by
  obtain ⟨k, rfl⟩ := hx
  obtain ⟨l, rfl⟩ := hy
  exact ⟨k - l, by push_cast; ring⟩

theorem OnGrid.int_mul (k : ℤ) (hx : OnGrid n x) : OnGrid n (k * x) := by
  obtain ⟨l, rfl⟩ := hx
  exact ⟨k * l, by push_cast; ring⟩

variable [LinearOrder R] [FloorRing R]

def roundTo (n : ℕ) (x : R) : R := round (x * n) / n

theorem onGrid_roundTo (n : ℕ) (x : R) : OnGrid n (roundTo n x) := ⟨_, rfl⟩

variable [IsStrictOrderedRing R]

/-- A number within half a step of a multiple is rounded to it. -/
theorem roundTo_of_near (hn : 0 < n) (hx : OnGrid n x) (hnear : |y - x| < 1 / (2 * n)) : roundTo n y = x := by
  obtain ⟨k, rfl⟩ := hx
  have hpos : (0 : R) < n := Nat.cast_pos.mpr hn
  have hround : round (y * n) = k := by
    rw [round_eq_iff, Set.mem_Ico]
    have hscaled : |y * n - k| < 1 / 2 := by
      have heq : y * n - k = (y - k / n) * n := by field_simp
      rw [heq, abs_mul, abs_of_pos hpos]
      calc |y - k / n| * n < 1 / (2 * n) * n := mul_lt_mul_of_pos_right hnear hpos
        _ = 1 / 2 := by field_simp
    obtain ⟨hlow, hhigh⟩ := abs_lt.mp hscaled
    constructor <;> linarith
  rw [roundTo, hround]

theorem roundTo_of_onGrid (hn : 0 < n) (hx : OnGrid n x) : roundTo n x = x := by
  have hpos : (0 : R) < n := Nat.cast_pos.mpr hn
  exact roundTo_of_near hn hx (by rw [sub_self, abs_zero]; positivity)

/-- No positive multiple is less than a step. -/
theorem OnGrid.one_div_le (hx : OnGrid n x) (hpos : 0 < x) : 1 / (n : R) ≤ x := by
  obtain ⟨k, rfl⟩ := hx
  have hk : 0 < k := by
    by_contra hno
    have hle : (k : R) ≤ 0 := by exact_mod_cast not_lt.mp hno
    exact absurd hpos (not_lt.mpr (div_nonpos_of_nonpos_of_nonneg hle (Nat.cast_nonneg n)))
  exact div_le_div_of_nonneg_right (by exact_mod_cast hk) (Nat.cast_nonneg n)

theorem abs_roundTo_sub (hn : 0 < n) (x : R) : |roundTo n x - x| ≤ 1 / (2 * n) := by
  have hpos : (0 : R) < n := Nat.cast_pos.mpr hn
  have heq : roundTo n x - x = (round (x * n) - x * n) / n := by
    unfold roundTo
    field_simp
  rw [heq, abs_div, abs_of_pos hpos, abs_sub_comm, div_le_div_iff₀ hpos (by positivity)]
  have hhalf := abs_sub_round (x * n)
  calc |x * n - round (x * n)| * (2 * n) ≤ 1 / 2 * (2 * n) := mul_le_mul_of_nonneg_right hhalf (by positivity)
    _ = 1 * n := by ring

end Mydon.Lib
