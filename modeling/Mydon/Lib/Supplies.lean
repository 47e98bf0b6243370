import Mathlib.Algebra.Order.Field.Basic
import Mathlib.Algebra.Order.BigOperators.Group.List
import Mathlib.Tactic.Linarith
import Mathlib.Tactic.Ring

/-! Demands served in turn from two supplies, the second of them for what the first does not reach. -/

namespace Mydon.Lib.Supplies

variable {K : Type*} [Field K] [LinearOrder K]

/-- What one demand takes of either supply. -/
def portion (need p s : K) : K × K := (min need p, min (need - min need p) s)

/-- What each demand in turn takes. -/
def serve : List K → K → K → List (K × K)
  | [], _, _ => []
  | need :: rest, p, s =>
    portion need p s :: serve rest (p - (portion need p s).1) (s - (portion need p s).2)

/-- A demand takes nothing below zero, and not more than it is. -/
structure Fits (need : K) (a : K × K) : Prop where
  first : 0 ≤ a.1
  second : 0 ≤ a.2
  within : a.1 + a.2 ≤ need

variable [IsStrictOrderedRing K] {need p s : K} {needs : List K}

theorem fits_portion (hneed : 0 ≤ need) (hp : 0 ≤ p) (hs : 0 ≤ s) : Fits need (portion need p s) where
  first := le_min hneed hp
  second := le_min (sub_nonneg.mpr (min_le_left _ _)) hs
  within := by
    have hsecond : (portion need p s).2 ≤ need - min need p := min_le_left _ _
    change min need p + _ ≤ need
    linarith

theorem rest_nonneg (need p s : K) : 0 ≤ p - (portion need p s).1 ∧ 0 ≤ s - (portion need p s).2 :=
  ⟨sub_nonneg.mpr (min_le_right _ _), sub_nonneg.mpr (min_le_right _ _)⟩

/-- The first supply is used up, as far as the demands go. -/
theorem sum_fst_serve (hneeds : ∀ need ∈ needs, 0 ≤ need) (hp : 0 ≤ p) :
    ((serve needs p s).map Prod.fst).sum = min needs.sum p := by
  induction needs generalizing p s with
  | nil => simp [serve, hp]
  | cons need rest ih =>
    obtain ⟨hhead, hrest⟩ := List.forall_mem_cons.mp hneeds
    have hsum : 0 ≤ rest.sum := List.sum_nonneg hrest
    rw [serve, List.map_cons, List.sum_cons, List.sum_cons, ih hrest (rest_nonneg need p s).1]
    change min need p + min rest.sum (p - min need p) = min (need + rest.sum) p
    rcases le_total need p with h | h
    · rw [min_eq_left h, ← min_add_add_left, add_sub_cancel]
    · rw [min_eq_right h, sub_self, min_eq_right hsum, add_zero, min_eq_right]
      linarith

/-- So is the second one, as far as the first leaves demands open. -/
theorem sum_snd_serve (hneeds : ∀ need ∈ needs, 0 ≤ need) (hp : 0 ≤ p) (hs : 0 ≤ s) :
    ((serve needs p s).map Prod.snd).sum = min (needs.sum - min needs.sum p) s := by
  induction needs generalizing p s with
  | nil => simp [serve, hp, hs]
  | cons need rest ih =>
    obtain ⟨hhead, hrest⟩ := List.forall_mem_cons.mp hneeds
    have hsum : 0 ≤ rest.sum := List.sum_nonneg hrest
    obtain ⟨hp', hs'⟩ := rest_nonneg need p s
    rw [serve, List.map_cons, List.sum_cons, List.sum_cons, ih hrest hp' hs']
    change min (need - min need p) s + min (rest.sum - min rest.sum (p - min need p)) (s - min (need - min need p) s) =
      min (need + rest.sum - min (need + rest.sum) p) s
    rcases le_total need p with h | h
    · -- the first supply covers this demand
      have hopen : need + rest.sum - min (need + rest.sum) p = rest.sum - min rest.sum (p - need) := by
        have hmin : min (need + rest.sum) p = need + min rest.sum (p - need) := by
          rw [← min_add_add_left, add_sub_cancel]
        rw [hmin]
        ring
      rw [min_eq_left h, sub_self, min_eq_left hs, sub_zero, zero_add, hopen]
    · have hopen : need + rest.sum - min (need + rest.sum) p = (need - p) + rest.sum := by
        rw [min_eq_right (by linarith)]
        ring
      rw [min_eq_right h, sub_self, min_eq_right hsum, sub_zero, hopen]
      rcases le_total (need - p) s with h' | h'
      · rw [min_eq_left h', ← min_add_add_left, add_sub_cancel]
      · rw [min_eq_right h', sub_self, min_eq_right hsum, add_zero, min_eq_right]
        linarith

/-- Supplies that the demands can take are handed out whole. -/
theorem sum_serve (hneeds : ∀ need ∈ needs, 0 ≤ need) (hp : 0 ≤ p) (hs : 0 ≤ s) (hfits : p + s ≤ needs.sum) :
    ((serve needs p s).map Prod.fst).sum = p ∧ ((serve needs p s).map Prod.snd).sum = s := by
  have hfirst : min needs.sum p = p := min_eq_right (by linarith)
  rw [sum_fst_serve hneeds hp, sum_snd_serve hneeds hp hs, hfirst]
  exact ⟨rfl, min_eq_right (by linarith)⟩

end Mydon.Lib.Supplies
