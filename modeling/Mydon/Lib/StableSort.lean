import Mathlib.Data.List.Sort

/-! A stable sort: elements that the order does not tell apart stay as they stood. -/

namespace Mydon.Lib

variable {α : Type*} {r : α → α → Prop} {l : List α} {a b : α}

/-- `a` is first by the order, or else by its place in the list. -/
def Precedes (r : α → α → Prop) (l : List α) (a b : α) : Prop := r a b ∧ (¬r b a ∨ [a, b].Sublist l)

theorem pair_sublist_or (ha : a ∈ l) (hb : b ∈ l) (hne : a ≠ b) : [a, b].Sublist l ∨ [b, a].Sublist l := by
  obtain ⟨front, back, rfl⟩ := List.append_of_mem ha
  rw [List.mem_append, List.mem_cons] at hb
  rcases hb with hb | hb | hb
  · right
    exact (List.singleton_sublist.mpr hb).append (List.singleton_sublist.mpr List.mem_cons_self)
  · exact absurd hb.symm hne
  · left
    exact ((List.singleton_sublist.mpr hb).cons_cons a).trans (List.sublist_append_right front _)

theorem not_pair_sublist (hnd : l.Nodup) (h : [a, b].Sublist l) : ¬[b, a].Sublist l := by
  intro h'
  have hrel : l.Pairwise fun x y => ¬[y, x].Sublist l := by
    rw [List.pairwise_iff_getElem]
    intro i j hi hj hij hsub
    obtain ⟨is, his, hlt⟩ := List.sublist_eq_map_getElem hsub
    obtain ⟨m, n, rfl⟩ : ∃ m n, is = [m, n] := by
      have hlength := congrArg List.length his
      rw [List.length_map] at hlength
      exact List.length_eq_two.mp hlength.symm
    simp only [List.map_cons, List.map_nil, List.cons.injEq, and_true] at his
    have hm : j = m := (List.Nodup.getElem_inj_iff hnd).mp his.1
    have hn : i = n := (List.Nodup.getElem_inj_iff hnd).mp his.2
    rw [List.pairwise_pair] at hlt
    have hmn : (m : ℕ) < n := hlt
    omega
  exact List.pairwise_iff_forall_sublist.mp hrel h h'

theorem precedes_asymm (hnd : l.Nodup) (h : Precedes r l a b) : ¬Precedes r l b a := by
  rintro ⟨hba, hlater⟩
  obtain ⟨hab, hfirst⟩ := h
  rcases hfirst with hfirst | hfirst
  · exact hfirst hba
  · rcases hlater with hlater | hlater
    · exact hlater hab
    · exact not_pair_sublist hnd hfirst hlater

variable [DecidableRel r] [Std.Total r] [IsTrans α r]

/-- The sorted list is in the order of `Precedes`. -/
theorem pairwise_precedes (hnd : l.Nodup) : (l.insertionSort r).Pairwise (Precedes r l) := by
  have hsorted : (l.insertionSort r).Pairwise r := List.pairwise_insertionSort r l
  have hnd' : (l.insertionSort r).Nodup := (List.perm_insertionSort r l).nodup_iff.mpr hnd
  rw [List.pairwise_iff_forall_sublist] at hsorted ⊢
  intro a b hsub
  refine ⟨hsorted hsub, ?_⟩
  by_cases hba : r b a
  · right
    have ha : a ∈ l := (List.mem_insertionSort r).mp (hsub.subset (by simp))
    have hb : b ∈ l := (List.mem_insertionSort r).mp (hsub.subset (by simp))
    have hne : a ≠ b := by
      have hpair := hnd'.sublist hsub
      simpa using hpair
    rcases pair_sublist_or ha hb hne with h | h
    · exact h
    · exact absurd hsub (not_pair_sublist hnd' (List.pair_sublist_insertionSort hba h))
  · exact .inl hba

/-- The places of two elements in the sorted list. -/
theorem idxOf_lt_iff [DecidableEq α] (hnd : l.Nodup) (ha : a ∈ l) (hb : b ∈ l) (hne : a ≠ b) :
    (l.insertionSort r).idxOf a < (l.insertionSort r).idxOf b ↔ Precedes r l a b := by
  have hlt : ∀ {a b : α}, a ∈ l → b ∈ l → (l.insertionSort r).idxOf a < (l.insertionSort r).idxOf b → Precedes r l a b := by
    intro a b ha hb hlt
    have hrel := List.pairwise_iff_getElem.mp (pairwise_precedes (r := r) hnd) _ _
      (List.idxOf_lt_length_of_mem ((List.mem_insertionSort r).mpr ha))
      (List.idxOf_lt_length_of_mem ((List.mem_insertionSort r).mpr hb)) hlt
    rw [List.getElem_idxOf, List.getElem_idxOf] at hrel
    exact hrel
  constructor
  · exact hlt ha hb
  · intro hprec
    by_contra hge
    have hidx : (l.insertionSort r).idxOf b ≠ (l.insertionSort r).idxOf a := by
      intro heq
      exact hne ((List.idxOf_inj ((List.mem_insertionSort r).mpr hb)).mp heq).symm
    exact precedes_asymm hnd hprec (hlt hb ha (by omega))

/-! Places by a key. -/

theorem idxOf_map {β : Type*} [DecidableEq α] [DecidableEq β] {f : α → β} (hnd : (l.map f).Nodup) (ha : a ∈ l) :
    (l.map f).idxOf (f a) = l.idxOf a := by
  induction l with
  | nil => cases ha
  | cons x l ih =>
    obtain ⟨hx, hnd⟩ := List.nodup_cons.mp hnd
    rw [List.map_cons]
    by_cases hxa : x = a
    · rw [hxa, List.idxOf_cons_self, List.idxOf_cons_self]
    · have ha' : a ∈ l := (List.mem_cons.mp ha).resolve_left (Ne.symm hxa)
      have hf : f x ≠ f a := by
        intro heq
        exact hx (heq ▸ List.mem_map_of_mem ha')
      rw [List.idxOf_cons_ne _ hf, List.idxOf_cons_ne _ hxa, ih hnd ha']

/-- The places of a list's elements are its indices. -/
theorem map_idxOf [DecidableEq α] (hnd : l.Nodup) : l.map l.idxOf = List.range l.length := by
  apply List.ext_getElem
  · rw [List.length_map, List.length_range]
  · intro i hi _
    rw [List.getElem_map, List.getElem_range, List.Nodup.idxOf_getElem hnd]

end Mydon.Lib
