import Mathlib.Algebra.Order.Ring.Rat
import Mathlib.Data.List.Sort
import Mathlib.Tactic.Ring
import Mydon.Lib.Tally

/-! A line cut at the points of a sorted list: what lies up to the first cut, in one of the intervals between
neighbouring cuts, or after the last one, and sums that are taken piece by piece. -/

namespace Mydon.Lib.Timeline

variable {ρ τ ι : Type*} [LinearOrder τ]

/-- Neighbouring cuts. -/
def intervals (cuts : List ρ) : List (ρ × ρ) := cuts.zip cuts.tail

/-- A point is in the half-open interval between two cuts. -/
def inside (at_ : ρ → τ) (t : τ) (w : ρ × ρ) : Bool := at_ w.1 < t && t ≤ at_ w.2

/-- A point is not after the first cut. -/
def first (at_ : ρ → τ) (t : τ) (cuts : List ρ) : Bool := cuts.head?.any fun c => t ≤ at_ c

variable {at_ : ρ → τ} {t : τ} {cuts : List ρ}

/-- A point that is not after the last cut is before the first one or in one interval; any other is in none. -/
theorem first_add_inside (h : cuts.Pairwise fun c d => at_ c < at_ d) :
    (first at_ t cuts).toNat + (intervals cuts).countP (inside at_ t) = (cuts.any fun c => t ≤ at_ c).toNat := by
  induction cuts with
  | nil => rfl
  | cons c cuts ih =>
    rcases cuts with _ | ⟨d, cuts⟩
    · simp [first, intervals]
    · have hcd : at_ c < at_ d := List.rel_of_pairwise_cons h List.mem_cons_self
      have hrest := ih h.of_cons
      have hstep : intervals (c :: d :: cuts) = (c, d) :: intervals (d :: cuts) := rfl
      rw [hstep, List.countP_cons, List.any_cons]
      unfold first at hrest ⊢
      simp only [List.head?_cons, Option.any_some, inside, Bool.and_eq_true, decide_eq_true_eq] at hrest ⊢
      by_cases hc : t ≤ at_ c
      · have hd : t ≤ at_ d := hc.trans hcd.le
        have hnot : ¬ at_ c < t := not_lt.mpr hc
        simp only [hc, hd, hnot, decide_true, Bool.toNat_true, Bool.true_or, false_and, if_false, List.any_cons] at hrest ⊢
        omega
      · have hlt : at_ c < t := not_le.mp hc
        by_cases hd : t ≤ at_ d
        · simp only [hc, hd, hlt, decide_true, decide_false, Bool.toNat_true, Bool.toNat_false, Bool.false_or,
            true_and, if_true] at hrest ⊢
          omega
        · simp only [hc, hd, hlt, decide_false, Bool.toNat_false, Bool.false_or, and_false, if_false] at hrest ⊢
          omega

/-- Summed piece by piece, an element weighs once for each piece that it is in. -/
theorem sum_pieces {α : Type*} (p : ι → α → Bool) (weight : α → ℚ) (pieces : List ι) (xs : List α) :
    (pieces.map fun i => ((xs.filter (p i)).map weight).sum).sum =
      (xs.map fun x => weight x * (pieces.countP fun i => p i x : ℕ)).sum := by
  induction xs with
  | nil => simp
  | cons x xs ih =>
    have hone : ∀ pieces : List ι, (pieces.map fun i => (((x :: xs).filter (p i)).map weight).sum).sum =
        weight x * (pieces.countP fun i => p i x : ℕ) + (pieces.map fun i => ((xs.filter (p i)).map weight).sum).sum := by
      intro pieces
      induction pieces with
      | nil => simp
      | cons i pieces ihp =>
        rw [List.map_cons, List.sum_cons, ihp, List.map_cons, List.sum_cons, List.countP_cons, List.filter_cons]
        by_cases hp : p i x = true
        · simp only [hp, if_true, List.map_cons, List.sum_cons]
          push_cast
          ring
        · simp only [hp, if_false, Bool.false_eq_true]
          push_cast
          ring
    rw [hone, ih, List.map_cons, List.sum_cons]

/-- The weight of what a test keeps. -/
theorem sum_filter {α : Type*} (p : α → Bool) (weight : α → ℚ) (xs : List α) :
    ((xs.filter p).map weight).sum = (xs.map fun x => weight x * ((p x).toNat : ℕ)).sum := by
  induction xs with
  | nil => rfl
  | cons x xs ih =>
    rw [List.filter_cons, List.map_cons, List.sum_cons, ← ih]
    cases p x <;> simp

theorem sum_split {α : Type*} (p : α → Bool) (g : α → ℚ) (xs : List α) :
    (xs.map g).sum = ((xs.filter p).map g).sum + ((xs.filter fun x => !p x).map g).sum := by
  induction xs with
  | nil => simp
  | cons x xs ih =>
    rw [List.map_cons, List.sum_cons, ih, List.filter_cons, List.filter_cons]
    rcases hp : p x <;> simp <;> ring

/-- Summed group by group, every element is in one group. -/
theorem sum_groups {α κ : Type*} [DecidableEq κ] (key : α → κ) (weight : α → ℚ) (xs : List α) :
    ((OrderedMap.keySet (xs.map key)).map fun k => ((xs.filter fun x => key x = k).map weight).sum).sum =
      (xs.map weight).sum := by
  rw [sum_pieces (fun k x => decide (key x = k))]
  refine congrArg List.sum (List.map_congr_left fun x hx => ?_)
  have hcount : (OrderedMap.keySet (xs.map key)).countP (fun k => key x = k) = 1 := by
    rw [← List.count_eq_one_of_mem (nodup_keySet (xs.map key)) (OrderedMap.mem_keySet.mpr (List.mem_map_of_mem hx))]
    unfold List.count
    refine List.countP_congr fun k _ => ?_
    rw [decide_eq_true_eq, beq_iff_eq, eq_comm]
  rw [hcount, Nat.cast_one, mul_one]

end Mydon.Lib.Timeline
