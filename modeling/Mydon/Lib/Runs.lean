import Mathlib.Data.List.Chain
import Mydon.Lib.Tally

/-! Neighbours with one key joined into one element, and what the joined list tells of the elements. -/

namespace Mydon.Lib.Runs

variable {α κ : Type*} [DecidableEq κ] {key : α → κ} {join : α → α → α}

/-- The elements after `last`, each joined to its predecessor when both have the same key. -/
def mergeInto (key : α → κ) (join : α → α → α) (last : α) : List α → List α
  | [] => [last]
  | s :: rest =>
    if key last = key s then mergeInto key join (join last s) rest else last :: mergeInto key join s rest

def merge (key : α → κ) (join : α → α → α) : List α → List α
  | [] => []
  | s :: rest => mergeInto key join s rest

section sums
variable {M : Type*} [AddCommMonoid M] {f : α → M}

theorem sum_mergeInto (hf : ∀ a x, f (join a x) = f a + f x) (last : α) (rest : List α) :
    ((mergeInto key join last rest).map f).sum = f last + (rest.map f).sum := by
  induction rest generalizing last with
  | nil => rfl
  | cons s rest ih =>
    unfold mergeInto
    split_ifs with h
    · rw [ih, hf, List.map_cons, List.sum_cons, add_assoc]
    · rw [List.map_cons, List.sum_cons, ih, List.map_cons, List.sum_cons]

theorem sum_merge (hf : ∀ a x, f (join a x) = f a + f x) (l : List α) :
    ((merge key join l).map f).sum = (l.map f).sum := by
  cases l with
  | nil => rfl
  | cons s rest => exact sum_mergeInto hf s rest

end sums

section kept
variable {β : Type*} {f : α → β}

/-- What joining keeps stands in the joined list as it stood before, with the joined elements left out. -/
theorem mergeInto_sublist (hf : ∀ a x, f (join a x) = f a) (last : α) (rest : List α) :
    ((mergeInto key join last rest).map f).Sublist (f last :: rest.map f) := by
  induction rest generalizing last with
  | nil => exact List.Sublist.refl _
  | cons s rest ih =>
    unfold mergeInto
    split_ifs with h
    · refine (ih (join last s)).trans ?_
      rw [hf]
      exact List.cons_sublist_cons.mpr (List.sublist_cons_self _ _)
    · exact List.cons_sublist_cons.mpr (ih s)

theorem merge_sublist (hf : ∀ a x, f (join a x) = f a) (l : List α) : ((merge key join l).map f).Sublist (l.map f) := by
  cases l with
  | nil => exact List.Sublist.refl _
  | cons s rest => exact mergeInto_sublist hf s rest

end kept

theorem mergeInto_ne_nil (last : α) (rest : List α) : mergeInto key join last rest ≠ [] := by
  induction rest generalizing last with
  | nil => exact List.cons_ne_nil _ _
  | cons s rest ih =>
    unfold mergeInto
    split_ifs
    · exact ih _
    · exact List.cons_ne_nil _ _

variable (hkey : ∀ a x, key (join a x) = key a)

include hkey

theorem head_mergeInto (last : α) (rest : List α) :
    (mergeInto key join last rest).head?.map key = some (key last) := by
  induction rest generalizing last with
  | nil => rfl
  | cons s rest ih =>
    unfold mergeInto
    split_ifs with h
    · rw [ih, hkey]
    · rfl

theorem head_merge (l : List α) : (merge key join l).head?.map key = l.head?.map key := by
  cases l with
  | nil => rfl
  | cons s rest => exact head_mergeInto hkey s rest

theorem last_mergeInto (last : α) (rest : List α) :
    (mergeInto key join last rest).getLast?.map key = (last :: rest).getLast?.map key := by
  induction rest generalizing last with
  | nil => rfl
  | cons s rest ih =>
    unfold mergeInto
    split_ifs with h
    · rw [ih, List.getLast?_cons_cons]
      cases rest with
      | nil => simp only [List.getLast?_singleton, Option.map_some, hkey, h]
      | cons t rest => rfl
    · rw [List.getLast?_cons_cons, ← ih s, List.getLast?_cons]
      obtain ⟨e, he⟩ := Option.ne_none_iff_exists'.mp (mt List.getLast?_eq_none_iff.mp
        (@mergeInto_ne_nil _ _ _ key join s rest))
      rw [he]
      rfl

theorem last_merge (l : List α) : (merge key join l).getLast?.map key = l.getLast?.map key := by
  cases l with
  | nil => rfl
  | cons s rest => exact last_mergeInto hkey s rest

/-- Joined neighbours differ. -/
theorem isChain_mergeInto (last : α) (rest : List α) :
    (mergeInto key join last rest).IsChain fun a b => key a ≠ key b := by
  induction rest generalizing last with
  | nil => exact List.isChain_singleton _
  | cons s rest ih =>
    unfold mergeInto
    split_ifs with h
    · exact ih _
    · refine List.isChain_cons.mpr ⟨fun b hb => ?_, ih s⟩
      have hhead := @head_mergeInto _ _ _ key join hkey s rest
      rw [Option.mem_def.mp hb] at hhead
      rw [Option.some.inj hhead]
      exact h

theorem isChain_merge (l : List α) : (merge key join l).IsChain fun a b => key a ≠ key b := by
  cases l with
  | nil => exact List.isChain_nil
  | cons s rest => exact isChain_mergeInto hkey s rest

/-- Every key is still there. -/
theorem key_mem_mergeInto {last : α} {rest : List α} {x : α} (hx : x ∈ last :: rest) :
    ∃ b ∈ mergeInto key join last rest, key b = key x := by
  induction rest generalizing last x with
  | nil => exact ⟨last, List.mem_singleton_self _, by rw [List.mem_singleton.mp hx]⟩
  | cons s rest ih =>
    unfold mergeInto
    split_ifs with h
    · rcases List.mem_cons.mp hx with rfl | hx
      · obtain ⟨b, hb, hkb⟩ := @ih (join x s) (join x s) List.mem_cons_self
        exact ⟨b, hb, hkb.trans (hkey _ _)⟩
      · rcases List.mem_cons.mp hx with rfl | hx
        · obtain ⟨b, hb, hkb⟩ := @ih (join last x) (join last x) List.mem_cons_self
          exact ⟨b, hb, hkb.trans ((hkey _ _).trans h)⟩
        · exact ih (List.mem_cons_of_mem _ hx)
    · rcases List.mem_cons.mp hx with rfl | hx
      · exact ⟨x, List.mem_cons_self, rfl⟩
      · obtain ⟨b, hb, hkb⟩ := ih hx
        exact ⟨b, List.mem_cons_of_mem _ hb, hkb⟩

theorem key_mem_merge {l : List α} {x : α} (hx : x ∈ l) : ∃ b ∈ merge key join l, key b = key x := by
  cases l with
  | nil => exact absurd hx List.not_mem_nil
  | cons s rest => exact key_mem_mergeInto hkey hx

/-- Lists that differ where they meet are merged apart. -/
theorem mergeInto_append {last : α} {rest r : List α}
    (h : ∀ b ∈ r.head?, ((last :: rest).getLast?.map key) ≠ some (key b)) :
    mergeInto key join last (rest ++ r) = mergeInto key join last rest ++ merge key join r := by
  induction rest generalizing last with
  | nil =>
    cases r with
    | nil => rfl
    | cons b r =>
      have hne : key last ≠ key b := fun heq => h b rfl (congrArg some heq)
      rw [List.nil_append]
      unfold mergeInto
      rw [if_neg hne]
      rfl
  | cons s rest ih =>
    rw [List.cons_append]
    unfold mergeInto
    split_ifs with heq
    · refine ih fun b hb => ?_
      have hb' := h b hb
      cases rest with
      | nil =>
        rw [List.getLast?_singleton, Option.map_some, hkey, heq]
        exact hb'
      | cons t rest => exact hb'
    · rw [List.cons_append, ih h]

theorem merge_append {l r : List α} (h : ∀ b ∈ r.head?, l.getLast?.map key ≠ some (key b)) :
    merge key join (l ++ r) = merge key join l ++ merge key join r := by
  cases l with
  | nil => rfl
  | cons s rest => exact mergeInto_append hkey h

omit hkey in
/-- What a list was merged to is parted where the list can be parted. -/
theorem mergeInto_eq_append {last : α} {rest xs ys : List α} (hxs : xs ≠ [])
    (h : mergeInto key join last rest = xs ++ ys) :
    ∃ r r', rest = r ++ r' ∧ mergeInto key join last r = xs ∧ merge key join r' = ys := by
  induction rest generalizing last xs with
  | nil =>
    obtain ⟨x, xs, rfl⟩ := List.exists_cons_of_ne_nil hxs
    obtain ⟨rfl, hnil⟩ := List.cons.inj h
    obtain ⟨rfl, rfl⟩ := List.append_eq_nil_iff.mp hnil.symm
    exact ⟨[], [], rfl, rfl, rfl⟩
  | cons s rest ih =>
    unfold mergeInto at h
    split_ifs at h with heq
    · obtain ⟨r, r', rfl, hr, hr'⟩ := ih hxs h
      refine ⟨s :: r, r', rfl, ?_, hr'⟩
      unfold mergeInto
      rw [if_pos heq, hr]
    · obtain ⟨x, xs, rfl⟩ := List.exists_cons_of_ne_nil hxs
      obtain ⟨rfl, htail⟩ := List.cons.inj h
      rcases xs with _ | ⟨y, xs⟩
      · exact ⟨[], s :: rest, rfl, rfl, htail⟩
      · obtain ⟨r, r', rfl, hr, hr'⟩ := ih (List.cons_ne_nil y xs) htail
        refine ⟨s :: r, r', rfl, ?_, hr'⟩
        unfold mergeInto
        rw [if_neg heq, hr]

omit hkey in
theorem merge_eq_append {l xs ys : List α} (hxs : xs ≠ []) (h : merge key join l = xs ++ ys) :
    ∃ r r', l = r ++ r' ∧ merge key join r = xs ∧ merge key join r' = ys := by
  cases l with
  | nil => exact absurd (List.append_eq_nil_iff.mp h.symm).1 hxs
  | cons s rest =>
    obtain ⟨r, r', rfl, hr, hr'⟩ := mergeInto_eq_append hxs h
    exact ⟨s :: r, r', rfl, hr, hr'⟩

omit hkey in
/-- Elements of one key become one. -/
theorem merge_of_const (hkey : ∀ a x, key (join a x) = key a) {l : List α} {k : κ} (hl : l ≠ [])
    (h : ∀ x ∈ l, key x = k) : ∃ b, merge key join l = [b] ∧ key b = k := by
  obtain ⟨s, rest, rfl⟩ := List.exists_cons_of_ne_nil hl
  have hall : ∀ (last : α), key last = k → (∀ x ∈ rest, key x = k) →
      ∃ b, mergeInto key join last rest = [b] ∧ key b = k := by
    clear h hl
    induction rest with
    | nil => exact fun last hlast _ => ⟨last, rfl, hlast⟩
    | cons t rest ih =>
      intro last hlast hrest
      unfold mergeInto
      rw [if_pos (hlast.trans (hrest t List.mem_cons_self).symm)]
      exact ih _ ((hkey _ _).trans hlast) fun x hx => hrest x (List.mem_cons_of_mem _ hx)
  exact hall s (h s List.mem_cons_self) fun x hx => h x (List.mem_cons_of_mem _ hx)

end Mydon.Lib.Runs
