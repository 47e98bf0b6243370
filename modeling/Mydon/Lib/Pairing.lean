import Mathlib.Data.List.Count
import Mathlib.Data.List.Nodup

/-! Closings paired with openings in one scan: the openings of each key stand in a list, a cursor
for each key says how many of them are used up, and a rule picks one of the others or none. -/

namespace Mydon.Lib

section Counts

variable {α : Type*} {p : α → Bool} {l : List α}

/-- Where `p` holds on a beginning of the list, its count is the length of that beginning. -/
theorem lt_countP_iff (h : l.Pairwise fun a b => p b → p a) {i : ℕ} {a : α} (ha : l[i]? = some a) :
    i < l.countP p ↔ p a := by
  induction l generalizing i with
  | nil => simp at ha
  | cons b l ih =>
    rw [List.pairwise_cons] at h
    by_cases hb : p b
    · rw [List.countP_cons_of_pos hb]
      cases i with
      | zero =>
        obtain rfl : b = a := by simpa using ha
        simp [hb]
      | succ i =>
        rw [Nat.add_lt_add_iff_right]
        exact ih h.2 (by simpa using ha)
    · have hnone : ∀ c ∈ l, ¬ p c := fun c hc hp => hb (h.1 c hc hp)
      rw [List.countP_cons_of_neg hb, List.countP_eq_zero.mpr hnone]
      have hmem : a ∈ b :: l := List.mem_of_getElem? ha
      rcases List.mem_cons.mp hmem with rfl | hm
      · simp [hb]
      · simp [hnone a hm]

theorem countP_drop (h : l.Pairwise fun a b => p b → p a) (n : ℕ) : (l.drop n).countP p = l.countP p - n := by
  induction l generalizing n with
  | nil => simp
  | cons b l ih =>
    cases n with
    | zero => simp
    | succ n =>
      rw [List.pairwise_cons] at h
      rw [List.drop_succ_cons, ih h.2]
      by_cases hb : p b
      · rw [List.countP_cons_of_pos hb]
        omega
      · have hnone : l.countP p = 0 := List.countP_eq_zero.mpr fun c hc hp => hb (h.1 c hc hp)
        rw [List.countP_cons_of_neg hb, hnone]
        omega

end Counts

variable {α α' β β' K : Type*} [DecidableEq K]

/-- The pairs that the rule makes, in the order of the closings. -/
def pairUp (openings : K → List α) (keyOf : β → K) (pick : List α → ℕ → β → Option ℕ) :
    (K → ℕ) → List β → List (α × β)
  | _, [] => []
  | used, r :: rest =>
    match (pick (openings (keyOf r)) (used (keyOf r)) r).bind fun i => (openings (keyOf r))[i]?.map (i, ·) with
    | none => pairUp openings keyOf pick used rest
    | some (i, opening) => (opening, r) :: pairUp openings keyOf pick (Function.update used (keyOf r) (i + 1)) rest

variable {openings : K → List α} {keyOf : β → K} {pick pick' : List α → ℕ → β → Option ℕ} {used : K → ℕ}
  {r : β} {rest : List β}

theorem pairUp_of_none (h : pick (openings (keyOf r)) (used (keyOf r)) r = none) :
    pairUp openings keyOf pick used (r :: rest) = pairUp openings keyOf pick used rest := by
  simp only [pairUp, h, Option.bind_none]

theorem pairUp_of_some {i : ℕ} {opening : α} (h : pick (openings (keyOf r)) (used (keyOf r)) r = some i)
    (hget : (openings (keyOf r))[i]? = some opening) : pairUp openings keyOf pick used (r :: rest) =
      (opening, r) :: pairUp openings keyOf pick (Function.update used (keyOf r) (i + 1)) rest := by
  simp only [pairUp, h, Option.bind_some, hget, Option.map_some]

/-- Each pair is of a closing, and of an opening of its key. -/
theorem mem_of_mem_pairUp {pair : α × β} {rs : List β} (h : pair ∈ pairUp openings keyOf pick used rs) :
    pair.2 ∈ rs ∧ pair.1 ∈ openings (keyOf pair.2) := by
  induction rs generalizing used with
  | nil => cases h
  | cons r rs ih =>
    unfold pairUp at h
    split at h
    · exact (ih h).imp_left (List.mem_cons_of_mem _)
    · rename_i i opening hpick
      rcases List.mem_cons.mp h with rfl | hrest
      · obtain ⟨j, -, hj⟩ := Option.bind_eq_some_iff.mp hpick
        obtain ⟨_, hget, heq⟩ := Option.map_eq_some_iff.mp hj
        obtain ⟨rfl, rfl⟩ := Prod.mk.inj heq
        exact ⟨List.mem_cons_self, List.mem_of_getElem? hget⟩
      · exact (ih hrest).imp_left (List.mem_cons_of_mem _)

/-- The scan of one key: a list of openings, and the rule that picks from those behind the cursor. -/
def pairOne (list : List α) (pick : ℕ → β → Option ℕ) : ℕ → List β → List (α × β)
  | _, [] => []
  | used, r :: rest =>
    match (pick used r).bind fun i => list[i]?.map (i, ·) with
    | none => pairOne list pick used rest
    | some (i, opening) => (opening, r) :: pairOne list pick (i + 1) rest

/-- The keys do not meet: the pairs of a key are those that the scan of its closings alone makes. -/
theorem pairUp_filter_key (k : K) (used : K → ℕ) (rs : List β) :
    (pairUp openings keyOf pick used rs).filter (fun pair => keyOf pair.2 = k) =
      pairOne (openings k) (fun start r => pick (openings k) start r) (used k) (rs.filter fun r => keyOf r = k) := by
  induction rs generalizing used with
  | nil => rfl
  | cons r rs ih =>
    unfold pairUp
    rcases hp : (pick (openings (keyOf r)) (used (keyOf r)) r).bind fun i => (openings (keyOf r))[i]?.map (i, ·) with
      _ | ⟨i, opening⟩
    · dsimp only
      rw [ih]
      by_cases hk : keyOf r = k
      · subst hk
        simp only [List.filter_cons, decide_true, if_true, pairOne, hp]
      · simp only [List.filter_cons, hk, decide_false, Bool.false_eq_true, if_false]
    · by_cases hk : keyOf r = k
      · subst hk
        simp only [List.filter_cons, decide_true, if_true, pairOne, hp, ih, Function.update_self]
      · simp only [List.filter_cons, hk, decide_false, Bool.false_eq_true, if_false]
        rw [ih, Function.update_of_ne (Ne.symm hk)]

theorem pairUp_snd_sublist (used : K → ℕ) (rs : List β) :
    ((pairUp openings keyOf pick used rs).map Prod.snd).Sublist rs := by
  induction rs generalizing used with
  | nil => exact List.Sublist.refl _
  | cons r rs ih =>
    unfold pairUp
    rcases (pick (openings (keyOf r)) (used (keyOf r)) r).bind fun i => (openings (keyOf r))[i]?.map (i, ·) with
      _ | ⟨i, opening⟩
    · exact (ih used).cons _
    · exact (ih _).cons_cons _

/-- A rule that never looks behind the cursor takes the openings of a key in their order. -/
theorem pairOne_fst_sublist {list : List α} {pick : ℕ → β → Option ℕ} (hpick : ∀ n r i, pick n r = some i → n ≤ i)
    (used : ℕ) (rs : List β) : ((pairOne list pick used rs).map Prod.fst).Sublist (list.drop used) := by
  induction rs generalizing used with
  | nil => exact List.nil_sublist _
  | cons r rs ih =>
    unfold pairOne
    rcases hp : (pick used r).bind fun i => list[i]?.map (i, ·) with _ | ⟨i, opening⟩
    · exact ih used
    · obtain ⟨j, hj, hget⟩ := Option.bind_eq_some_iff.mp hp
      obtain ⟨o, ho, heq⟩ := Option.map_eq_some_iff.mp hget
      obtain ⟨rfl, rfl⟩ := Prod.mk.inj heq
      have hlt : j < list.length := (List.getElem?_eq_some_iff.mp ho).1
      have hfirst : list.drop j = o :: list.drop (j + 1) := by
        rw [List.drop_eq_getElem_cons hlt, (List.getElem?_eq_some_iff.mp ho).2]
      have hskip : (list.drop j).Sublist (list.drop used) := by
        rw [← Nat.add_sub_cancel' (hpick used r j hj), ← List.drop_drop]
        exact List.drop_sublist _ _
      refine List.Sublist.trans ?_ hskip
      rw [hfirst]
      exact (ih (j + 1)).cons_cons _

/-- No opening is used twice, where the rule never looks behind the cursor and an opening has one key. -/
theorem pairUp_fst_nodup {keyOf' : α → K} (hpick : ∀ l n r i, pick l n r = some i → n ≤ i)
    (hkey : ∀ k, ∀ o ∈ openings k, keyOf' o = k) (hnd : ∀ k, (openings k).Nodup) (used : K → ℕ) (rs : List β) :
    ((pairUp openings keyOf pick used rs).map Prod.fst).Nodup := by
  induction rs generalizing used with
  | nil => exact List.nodup_nil
  | cons r rs ih =>
    unfold pairUp
    rcases hp : (pick (openings (keyOf r)) (used (keyOf r)) r).bind fun i => (openings (keyOf r))[i]?.map (i, ·) with
      _ | ⟨i, opening⟩
    · exact ih used
    · obtain ⟨j, -, hget⟩ := Option.bind_eq_some_iff.mp hp
      obtain ⟨o, ho, heq⟩ := Option.map_eq_some_iff.mp hget
      obtain ⟨rfl, rfl⟩ := Prod.mk.inj heq
      refine List.nodup_cons.mpr ⟨fun hmem => ?_, ih _⟩
      obtain ⟨⟨o', r'⟩, hpair, rfl⟩ := List.mem_map.mp hmem
      have hsame : keyOf r' = keyOf r :=
        (hkey _ _ (mem_of_mem_pairUp hpair).2).symm.trans (hkey _ _ (List.mem_of_getElem? ho))
      have hfiltered : (o', r') ∈ (pairUp openings keyOf pick (Function.update used (keyOf r) (j + 1)) rs).filter
          fun pair => keyOf pair.2 = keyOf r := List.mem_filter.mpr ⟨hpair, decide_eq_true hsame⟩
      rw [pairUp_filter_key, Function.update_self] at hfiltered
      have hown := List.mem_map_of_mem (f := Prod.fst) hfiltered
      have hlater : o' ∈ (openings (keyOf r)).drop (j + 1) :=
        (pairOne_fst_sublist (fun n r i => hpick _ n r i) (j + 1) _).subset hown
      have hearlier : o' ∈ (openings (keyOf r)).take (j + 1) := by
        refine List.mem_of_getElem? (i := j) ?_
        rw [List.getElem?_take_of_lt (Nat.lt_succ_self j)]
        exact ho
      have hsplit := hnd (keyOf r)
      rw [← List.take_append_drop (j + 1) (openings (keyOf r)), List.nodup_append] at hsplit
      exact hsplit.2.2 _ hearlier _ hlater rfl

/-- Pairs of what the openings and the closings are read as. -/
theorem pairUp_map {keyOf' : β' → K} {pick' : List α' → ℕ → β' → Option ℕ} (f : α → α') (g : β → β')
    (hkey : ∀ r, keyOf' (g r) = keyOf r) (hpick : ∀ l n r, pick' (l.map f) n (g r) = pick l n r)
    (used : K → ℕ) (rs : List β) : pairUp (fun k => (openings k).map f) keyOf' pick' used (rs.map g) =
      (pairUp openings keyOf pick used rs).map (Prod.map f g) := by
  induction rs generalizing used with
  | nil => rfl
  | cons r rs ih =>
    rw [List.map_cons]
    rcases hp : (pick (openings (keyOf r)) (used (keyOf r)) r).bind fun i => (openings (keyOf r))[i]?.map (i, ·) with
      _ | ⟨i, opening⟩
    · have hp' : (pick' ((openings (keyOf r)).map f) (used (keyOf r)) (g r)).bind (fun i =>
          ((openings (keyOf r)).map f)[i]?.map (i, ·)) = none := by
        rw [hpick, Option.bind_eq_none_iff] at *
        intro i hi
        simpa using hp i hi
      simp only [pairUp, hkey, hp, hp', ih]
    · have hp' : (pick' ((openings (keyOf r)).map f) (used (keyOf r)) (g r)).bind (fun i =>
          ((openings (keyOf r)).map f)[i]?.map (i, ·)) = some (i, f opening) := by
        rw [hpick]
        obtain ⟨j, hj, hget⟩ := Option.bind_eq_some_iff.mp hp
        obtain ⟨o, ho, heq⟩ := Option.map_eq_some_iff.mp hget
        obtain ⟨rfl, rfl⟩ := Prod.mk.inj heq
        simp [hj, ho]
      simp only [pairUp, hkey, hp, hp', ih, List.map_cons, Prod.map_apply]

end Mydon.Lib
