import Mathlib.Algebra.Field.GeomSum
import Mathlib.Tactic.Linarith
import Mathlib.Tactic.LinearCombination
import Mathlib.Tactic.Positivity
import Mathlib.Tactic.FieldSimp
import Mathlib.Tactic.Ring

/-! Debts repaid by equal payments. A debt grows by the factor `1 + r` in a period, and a payment comes in at
the end of each; the payments cover the debt when both are worth the same at the end of the last period. -/

namespace Mydon.Lib

section

variable {K : Type*} [Field K]

/-- What `left` payments of 1 are worth at the moment of the last one. -/
def annuityWorth (r : K) (left : ℕ) : K :=
  ∑ i ∈ Finset.range left, (1 + r) ^ i

/-- `left` payments of `a` repay the debt `b` exactly. -/
def Repays (a r b : K) (left : ℕ) : Prop :=
  b * (1 + r) ^ left = a * annuityWorth r left

theorem annuityWorth_succ (r : K) (left : ℕ) :
    annuityWorth r (left + 1) = annuityWorth r left + (1 + r) ^ left :=
  Finset.sum_range_succ _ _

theorem annuityWorth_mul (r : K) (left : ℕ) : annuityWorth r left * r = (1 + r) ^ left - 1 := by
  have h := geom_sum_mul (1 + r) left
  rwa [add_sub_cancel_left] at h

variable {a r b : K} {left : ℕ}

/-- With no payment to come there is no debt. -/
theorem Repays.closed (h : Repays a r b 0) : b = 0 := by
  simpa [Repays, annuityWorth] using h

/-- After a payment the others repay what is left. -/
theorem Repays.next (h : Repays a r b (left + 1)) : Repays a r (b - (a - b * r)) left := by
  have hworth : b * (1 + r) ^ (left + 1) = a * (annuityWorth r left + (1 + r) ^ left) := by
    rw [← annuityWorth_succ]
    exact h
  unfold Repays
  linear_combination hworth

end

section

variable {K : Type*} [Field K] [LinearOrder K] [IsStrictOrderedRing K] {a r b : K} {left : ℕ}

theorem annuityWorth_nonneg (hr : 0 ≤ r) : 0 ≤ annuityWorth r left :=
  Finset.sum_nonneg fun _ _ => by positivity

theorem annuityWorth_pos (hr : 0 ≤ r) (hleft : 0 < left) : 0 < annuityWorth r left :=
  Finset.sum_pos (fun _ _ => by positivity) (Finset.nonempty_range_iff.mpr (by omega))

theorem Repays.nonneg (h : Repays a r b left) (hr : 0 ≤ r) (ha : 0 ≤ a) : 0 ≤ b := by
  have hpow : 0 < (1 + r) ^ left := by positivity
  have hworth : 0 ≤ b * (1 + r) ^ left := by
    rw [show b * (1 + r) ^ left = a * annuityWorth r left from h]
    exact mul_nonneg ha (annuityWorth_nonneg hr)
  exact nonneg_of_mul_nonneg_left hworth hpow

/-- The interest of a period does not exceed the payment. -/
theorem Repays.interest_le (h : Repays a r b left) (hr : 0 ≤ r) (ha : 0 ≤ a) : b * r ≤ a := by
  have hpow : 0 < (1 + r) ^ left := by positivity
  have hworth : b * r * (1 + r) ^ left = a * (1 + r) ^ left - a := by
    calc b * r * (1 + r) ^ left = a * (annuityWorth r left * r) := by
          rw [mul_right_comm, show b * (1 + r) ^ left = a * annuityWorth r left from h, mul_assoc]
      _ = a * (1 + r) ^ left - a := by rw [annuityWorth_mul, mul_sub_one]
  exact le_of_mul_le_mul_right (by linarith) hpow

/-- The annuity formula. -/
theorem repays_annuity (hr : 0 < r) (hleft : 0 < left) :
    Repays (b * (r * (1 + r) ^ left) / ((1 + r) ^ left - 1)) r b left := by
  have hworth := annuityWorth_pos hr.le hleft
  rw [Repays, ← annuityWorth_mul]
  field_simp

/-- Equal shares repay a debt that does not grow. -/
theorem repays_share (hleft : 0 < left) : Repays (b / left) 0 b left := by
  have hne : (left : K) ≠ 0 := by positivity
  simp [Repays, annuityWorth, hne]

end

end Mydon.Lib
