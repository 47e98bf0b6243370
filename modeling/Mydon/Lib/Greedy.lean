import Mathlib.Algebra.BigOperators.Group.List.Basic
import Mathlib.Algebra.Order.Group.Defs

/-! Greedy allocation. A demand is served by the sources in turn, each giving all it
has until the demand is met; amounts up to a threshold count as nothing. -/

namespace Mydon.Lib.Greedy

variable {ι K : Type*} [AddCommGroup K] [LinearOrder K] (cap : ι → K) (ε : K)

/-- What a source gives of the demand. -/
def take (i : ι) (rem : K) : K := if rem ≤ ε ∨ cap i ≤ ε then 0 else min rem (cap i)

/-- What each source in turn gives. -/
def takes : List ι → K → List (ι × K)
  | [], _ => []
  | i :: rest, rem => (i, take cap ε i rem) :: takes rest (rem - take cap ε i rem)

/-- What remains of the demand. -/
def left (items : List ι) (rem : K) : K := rem - ((takes cap ε items rem).map Prod.snd).sum

/-- The source has no more than the threshold, or has given all. -/
def Spent (a : ι × K) : Prop := cap a.1 ≤ ε ∨ a.2 = cap a.1

variable {cap ε}

theorem take_of_le (i : ι) {rem : K} (h : rem ≤ ε) : take cap ε i rem = 0 := if_pos (.inl h)

theorem take_bounds (hε : 0 ≤ ε) (i : ι) (rem : K) :
    take cap ε i rem = 0 ∨ 0 < take cap ε i rem ∧ take cap ε i rem ≤ cap i := by
  unfold take
  by_cases hnone : rem ≤ ε ∨ cap i ≤ ε
  · exact .inl (if_pos hnone)
  · rw [if_neg hnone]
    rw [not_or, not_le, not_le] at hnone
    exact .inr ⟨lt_min (hε.trans_lt hnone.1) (hε.trans_lt hnone.2), min_le_right _ _⟩

/-- After a source either it is spent or the demand is met. -/
theorem spent_or_met (hε : 0 ≤ ε) (i : ι) (rem : K) :
    Spent cap ε (i, take cap ε i rem) ∨ rem - take cap ε i rem ≤ ε := by
  unfold Spent take
  by_cases hcap : cap i ≤ ε
  · exact .inl (.inl hcap)
  · by_cases hrem : rem ≤ ε
    · right
      rw [if_pos (.inl hrem)]
      rwa [sub_zero]
    · rw [if_neg (not_or.mpr ⟨hrem, hcap⟩)]
      rcases le_total rem (cap i) with hle | hle
      · right
        rw [min_eq_left hle]
        rwa [sub_self]
      · exact .inl (.inr (min_eq_right hle))

theorem takes_fst (items : List ι) (rem : K) : (takes cap ε items rem).map Prod.fst = items := by
  induction items generalizing rem with
  | nil => rfl
  | cons i rest ih => rw [takes, List.map_cons, ih]

theorem left_cons (i : ι) (rest : List ι) (rem : K) :
    left cap ε (i :: rest) rem = left cap ε rest (rem - take cap ε i rem) := by
  unfold left
  rw [takes, List.map_cons, List.sum_cons, sub_sub]

/-- A source gives nothing, or a positive amount it has. -/
theorem takes_bounds (hε : 0 ≤ ε) (items : List ι) (rem : K) :
    ∀ a ∈ takes cap ε items rem, a.2 = 0 ∨ 0 < a.2 ∧ a.2 ≤ cap a.1 := by
  induction items generalizing rem with
  | nil => exact List.forall_mem_nil _
  | cons i rest ih => exact List.forall_mem_cons.mpr ⟨take_bounds hε i rem, ih _⟩

/-- Of a demand within the threshold nothing is given. -/
theorem takes_of_le (items : List ι) {rem : K} (h : rem ≤ ε) : ∀ a ∈ takes cap ε items rem, a.2 = 0 := by
  induction items with
  | nil => exact List.forall_mem_nil _
  | cons i rest ih =>
    rw [takes, take_of_le i h, sub_zero]
    exact List.forall_mem_cons.mpr ⟨rfl, ih⟩

theorem left_of_le (items : List ι) {rem : K} (h : rem ≤ ε) : left cap ε items rem = rem := by
  have hsum : ((takes cap ε items rem).map Prod.snd).sum = 0 := by
    apply List.sum_eq_zero
    intro q hq
    obtain ⟨a, ha, rfl⟩ := List.mem_map.mp hq
    exact takes_of_le items h a ha
  rw [left, hsum, sub_zero]

theorem left_nonneg [IsOrderedAddMonoid K] (items : List ι) {rem : K} (h : 0 ≤ rem) : 0 ≤ left cap ε items rem := by
  induction items generalizing rem with
  | nil => simpa [left, takes] using h
  | cons i rest ih =>
    rw [left_cons]
    apply ih
    unfold take
    split_ifs
    · rwa [sub_zero]
    · exact sub_nonneg.mpr (min_le_left _ _)

/-- A demand is left over only when every source is spent. -/
theorem spent_of_left (hε : 0 ≤ ε) (items : List ι) {rem : K} (h : ε < left cap ε items rem) :
    ∀ a ∈ takes cap ε items rem, Spent cap ε a := by
  induction items generalizing rem with
  | nil => exact List.forall_mem_nil _
  | cons i rest ih =>
    rw [left_cons] at h
    refine List.forall_mem_cons.mpr ⟨?_, ih h⟩
    rcases spent_or_met hε i rem with hspent | hmet
    · exact hspent
    · rw [left_of_le rest hmet] at h
      exact absurd hmet (not_le.mpr h)

/-- While a source is not spent, no later one gives anything. -/
theorem takes_pairwise (hε : 0 ≤ ε) (items : List ι) (rem : K) :
    (takes cap ε items rem).Pairwise fun a b => b.2 ≠ 0 → Spent cap ε a := by
  induction items generalizing rem with
  | nil => exact List.Pairwise.nil
  | cons i rest ih =>
    refine List.pairwise_cons.mpr ⟨?_, ih _⟩
    intro b hb hgives
    rcases spent_or_met hε i rem with hspent | hmet
    · exact hspent
    · exact absurd (takes_of_le rest hmet b hb) hgives

end Mydon.Lib.Greedy
