import Mathlib.Data.List.Nodup
import Mathlib.Data.List.Perm.Basic

/-! The elements of a list with their ranks: an element's rank is one more than the number of elements of its key
before it. -/

namespace Mydon.Lib

variable {α κ : Type*} [DecidableEq κ] {key : α → κ}

/-- The ranks after keys that were seen before. -/
def ranksFrom (key : α → κ) (seen : List κ) : List α → List (α × ℕ)
  | [] => []
  | x :: xs => (x, seen.count (key x) + 1) :: ranksFrom key (key x :: seen) xs

def ranks (key : α → κ) (xs : List α) : List (α × ℕ) := ranksFrom key [] xs

variable {seen seen' : List κ} {xs ys : List α} {x : α} {n : ℕ} {k : κ}

theorem map_fst_ranksFrom (seen : List κ) (xs : List α) : (ranksFrom key seen xs).map Prod.fst = xs := by
  induction xs generalizing seen with
  | nil => rfl
  | cons x xs ih => rw [ranksFrom, List.map_cons, ih]

/-- The ranks depend on how often the keys were seen only. -/
theorem ranksFrom_congr (h : ∀ k, seen.count k = seen'.count k) : ranksFrom key seen xs = ranksFrom key seen' xs := by
  induction xs generalizing seen seen' with
  | nil => rfl
  | cons x xs ih =>
    rw [ranksFrom, ranksFrom, h]
    congr 1
    apply ih
    intro k
    rw [List.count_cons, List.count_cons, h]

/-- The keys and ranks of a list are those of its elements, in some order. -/
theorem keys_ranks_perm (h : xs.Perm ys) : ((ranksFrom key seen xs).map fun p => (key p.1, p.2)).Perm
    ((ranksFrom key seen ys).map fun p => (key p.1, p.2)) := by
  induction h generalizing seen with
  | nil => exact List.Perm.refl _
  | cons x _ ih => exact ih.cons _
  | swap x y l =>
    by_cases heq : key x = key y
    · simp only [ranksFrom, List.map_cons, heq]
      exact List.Perm.refl _
    · simp only [ranksFrom, List.map_cons, List.count_cons_of_ne (Ne.symm heq), List.count_cons_of_ne heq]
      have hrest : ranksFrom key (key x :: key y :: seen) l = ranksFrom key (key y :: key x :: seen) l := by
        apply ranksFrom_congr
        intro k
        simp only [List.count_cons]
        omega
      rw [hrest]
      exact List.Perm.swap _ _ _
  | trans _ _ ih ih' => exact ih.trans ih'

theorem mem_ranksFrom : (∃ x, (x, n) ∈ ranksFrom key seen xs ∧ key x = k) ↔
    seen.count k < n ∧ n ≤ seen.count k + (xs.map key).count k := by
  induction xs generalizing seen with
  | nil =>
    simp [ranksFrom]
  | cons x xs ih =>
    have hstep : (∃ y, (y, n) ∈ ranksFrom key seen (x :: xs) ∧ key y = k) ↔
        (n = seen.count (key x) + 1 ∧ key x = k) ∨ ∃ y, (y, n) ∈ ranksFrom key (key x :: seen) xs ∧ key y = k := by
      simp only [ranksFrom, List.mem_cons, Prod.mk.injEq]
      constructor
      · rintro ⟨y, ⟨rfl, hn⟩ | hy, hk⟩
        · exact .inl ⟨hn, hk⟩
        · exact .inr ⟨y, hy, hk⟩
      · rintro (⟨hn, hk⟩ | ⟨y, hy, hk⟩)
        · exact ⟨x, .inl ⟨rfl, hn⟩, hk⟩
        · exact ⟨y, .inr hy, hk⟩
    rw [hstep, ih, List.map_cons]
    by_cases hk : key x = k
    · subst hk
      rw [List.count_cons_self, List.count_cons_self]
      simp only [and_true]
      omega
    · rw [List.count_cons_of_ne hk, List.count_cons_of_ne hk]
      simp only [hk, and_false, false_or]

/-- No two elements of one key have one rank. -/
theorem nodup_keys_ranksFrom (seen : List κ) (xs : List α) :
    ((ranksFrom key seen xs).map fun p => (key p.1, p.2)).Nodup := by
  induction xs generalizing seen with
  | nil => exact List.nodup_nil
  | cons x xs ih =>
    rw [ranksFrom, List.map_cons, List.nodup_cons]
    refine ⟨fun hmem => ?_, ih _⟩
    obtain ⟨⟨y, n⟩, hy, heq⟩ := List.mem_map.mp hmem
    obtain ⟨hkey, rfl⟩ := Prod.mk.inj heq
    dsimp only at hkey
    have hrank := (mem_ranksFrom.mp ⟨y, hy, hkey⟩).1
    rw [List.count_cons_self] at hrank
    omega

/-- There is an element of a key and a rank when the key comes so often. -/
theorem mem_ranks : (∃ x, (x, n) ∈ ranks key xs ∧ key x = k) ↔ 0 < n ∧ n ≤ (xs.map key).count k := by
  rw [ranks, mem_ranksFrom, List.count_nil, Nat.zero_add]

/-- Keys of other things, taken over. -/
theorem ranksFrom_map {β : Type*} (f : β → α) (seen : List κ) (ys : List β) :
    ranksFrom key seen (ys.map f) = (ranksFrom (fun y => key (f y)) seen ys).map fun p => (f p.1, p.2) := by
  induction ys generalizing seen with
  | nil => rfl
  | cons y ys ih => rw [List.map_cons, ranksFrom, ranksFrom, List.map_cons, ih]

theorem ranks_map {β : Type*} (f : β → α) (ys : List β) :
    ranks key (ys.map f) = (ranks (fun y => key (f y)) ys).map fun p => (f p.1, p.2) := ranksFrom_map f [] ys

theorem mem_of_mem_ranks {p : α × ℕ} (h : p ∈ ranks key xs) : p.1 ∈ xs := by
  have hmem := List.mem_map_of_mem (f := Prod.fst) h
  rw [ranks, map_fst_ranksFrom] at hmem
  exact hmem

theorem ranksFrom_congr_key {key' : α → κ} (h : ∀ x ∈ xs, key x = key' x) : ranksFrom key seen xs = ranksFrom key' seen xs := by
  induction xs generalizing seen with
  | nil => rfl
  | cons x xs ih =>
    obtain ⟨hx, hxs⟩ := List.forall_mem_cons.mp h
    rw [ranksFrom, ranksFrom, hx, ih hxs]

end Mydon.Lib
