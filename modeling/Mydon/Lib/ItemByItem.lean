import Mathlib.Data.List.Forall2

/-! Two lists that agree item by item. -/

namespace Mydon.Lib

variable {α β : Type*} {R : α → β → Prop} {l : List α} {l' : List β}

theorem exists_of_mem_right (h : List.Forall₂ R l l') {b : β} (hb : b ∈ l') : ∃ a ∈ l, R a b := by
  induction h with
  | nil => cases hb
  | @cons a b' l l' hab _ ih =>
    rcases List.mem_cons.mp hb with rfl | hb
    · exact ⟨a, List.mem_cons_self, hab⟩
    · obtain ⟨a', ha', hab'⟩ := ih hb
      exact ⟨a', List.mem_cons_of_mem _ ha', hab'⟩

theorem exists_of_mem_left (h : List.Forall₂ R l l') {a : α} (ha : a ∈ l) : ∃ b ∈ l', R a b :=
  exists_of_mem_right h.flip ha

/-- A test that goes by what the lists agree on keeps them in agreement. -/
theorem forall₂_filter {p : α → Bool} {q : β → Bool} (h : List.Forall₂ R l l') (hpq : ∀ a b, R a b → q b = p a) :
    List.Forall₂ R (l.filter p) (l'.filter q) := by
  induction h with
  | nil => exact .nil
  | @cons a b _ _ hab _ ih =>
    have heq := hpq a b hab
    rw [List.filter_cons, List.filter_cons, heq]
    split_ifs
    · exact .cons hab ih
    · exact ih

theorem map_eq_map_of_forall₂ {γ : Type*} {f : α → γ} {g : β → γ} (h : List.Forall₂ R l l')
    (hfg : ∀ a b, R a b → g b = f a) : l'.map g = l.map f := by
  induction h with
  | nil => rfl
  | @cons a b _ _ hab _ ih => rw [List.map_cons, List.map_cons, hfg a b hab, ih]

theorem forall₂_filter_filterMap {p : α → Bool} {f : α → Option β} (h : ∀ a, (f a).isSome = p a) (l : List α) :
    List.Forall₂ R (l.filter p) (l.filterMap f) ↔ ∀ a ∈ l.filter p, ∀ b, f a = some b → R a b := by
  induction l with
  | nil => simp
  | cons a l ih =>
    have ha := h a
    rcases hfa : f a with _ | b
    · rw [hfa] at ha
      rw [List.filterMap_cons_none hfa, List.filter_cons_of_neg (by rw [← ha]; exact Bool.false_ne_true)]
      exact ih
    · rw [hfa] at ha
      rw [List.filterMap_cons_some hfa, List.filter_cons_of_pos ha.symm, List.forall₂_cons, ih, List.forall_mem_cons, hfa]
      simp

end Mydon.Lib
