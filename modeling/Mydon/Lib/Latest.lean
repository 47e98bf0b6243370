import Mathlib.Data.List.TakeWhile
import Mydon.Lib.Matching

/-! The latest item of a kind. Items are sorted by time, stably, and the last of a kind is
read: it is the latest, of those of one moment the last one in the list. -/

namespace Mydon.Lib.Latest

variable {α κ τ : Type*} [LinearOrder τ] (time : α → τ) (p : α → Bool)

def sorted (l : List α) : List α := l.insertionSort fun a b => time a ≤ time b

/-- The last item of the kind in the sorted list. -/
def latest (l : List α) : Option α := ((sorted time l).filter p).getLast?

/-- No item of the kind is later; one of the same moment stands before. -/
def IsLatest (l : List α) (x : α) : Prop :=
  p x = true ∧ ∃ front back, l = front ++ x :: back ∧ (∀ y ∈ front, p y = true → time y ≤ time x) ∧
    ∀ y ∈ back, p y = true → time y < time x

variable {time p} {l : List α} {x y : α}

theorem sorted_pairwise (l : List α) : (sorted time l).Pairwise fun a b => time a ≤ time b := by
  have htotal : Std.Total fun a b : α => time a ≤ time b := ⟨fun a b => le_total _ _⟩
  have htrans : IsTrans α fun a b => time a ≤ time b := ⟨fun a b c => le_trans⟩
  exact List.pairwise_insertionSort _ _

theorem sorted_perm (l : List α) : (sorted time l).Perm l := List.perm_insertionSort _ _

/-- An item put into a sorted list comes after the earlier ones and before the others. -/
theorem getLast?_filter_orderedInsert (hl : l.Pairwise fun a b => time a ≤ time b) (hx : p x = true) :
    ((l.orderedInsert (fun a b => time a ≤ time b) x).filter p).getLast? =
      match (l.filter p).getLast? with
      | none => some x
      | some b => if time x ≤ time b then some b else some x := by
  induction l with
  | nil => simp [hx]
  | cons c l ih =>
    obtain ⟨hc, hl'⟩ := List.pairwise_cons.mp hl
    rw [List.orderedInsert_cons]
    by_cases hle : time x ≤ time c
    · rw [if_pos hle, List.filter_cons_of_pos hx]
      rcases hlast : ((c :: l).filter p).getLast? with _ | b
      · rw [List.getLast?_eq_none_iff.mp hlast]
        rfl
      · have hb : b ∈ c :: l := List.mem_of_mem_filter (List.mem_of_getLast? hlast)
        have hxb : time x ≤ time b := by
          rcases List.mem_cons.mp hb with rfl | hb
          · exact hle
          · exact hle.trans (hc b hb)
        rw [List.getLast?_cons, hlast]
        simp [hxb]
    · rw [if_neg hle]
      by_cases hp : p c = true
      · rw [List.filter_cons_of_pos hp, List.filter_cons_of_pos hp, List.getLast?_cons, List.getLast?_cons, ih hl']
        rcases (l.filter p).getLast? with _ | b
        · simp [hle]
        · simp only [Option.getD_some]
          split_ifs <;> rfl
      · rw [List.filter_cons_of_neg hp, List.filter_cons_of_neg hp, ih hl']

theorem latest_cons (x : α) (l : List α) :
    latest time p (x :: l) =
      if p x then
        match latest time p l with
        | none => some x
        | some b => if time x ≤ time b then some b else some x
      else latest time p l := by
  have hcons : sorted time (x :: l) = (sorted time l).orderedInsert (fun a b => time a ≤ time b) x := rfl
  unfold latest
  rw [hcons]
  by_cases hx : p x = true
  · rw [if_pos hx, getLast?_filter_orderedInsert (sorted_pairwise l) hx]
  · rw [if_neg hx, List.orderedInsert_eq_take_drop, List.filter_append, List.filter_cons_of_neg hx, ← List.filter_append,
      List.takeWhile_append_dropWhile]

theorem latest_eq_none_iff : latest time p l = none ↔ ∀ x ∈ l, p x = false := by
  unfold latest
  rw [List.getLast?_eq_none_iff, List.filter_eq_nil_iff]
  simp only [(sorted_perm l).mem_iff, Bool.not_eq_true]

theorem IsLatest.mem (h : IsLatest time p l x) : x ∈ l := by
  obtain ⟨-, front, back, rfl, -⟩ := h
  exact List.mem_append_right _ List.mem_cons_self

theorem IsLatest.le (h : IsLatest time p l x) (hy : y ∈ l) (hp : p y = true) : time y ≤ time x := by
  obtain ⟨-, front, back, rfl, hfront, hback⟩ := h
  rcases List.mem_append.mp hy with hy | hy
  · exact hfront y hy hp
  · rcases List.mem_cons.mp hy with rfl | hy
    · exact le_refl _
    · exact (hback y hy hp).le

/-- The last of the kind in the sorted list is the latest. -/
theorem isLatest_of_latest (h : latest time p l = some x) : IsLatest time p l x := by
  induction l generalizing x with
  | nil => simp [latest, sorted] at h
  | cons c l ih =>
    rw [latest_cons] at h
    by_cases hc : p c = true
    · rw [if_pos hc] at h
      rcases hlast : latest time p l with _ | b
      · rw [hlast] at h
        obtain rfl := Option.some.inj h
        refine ⟨hc, [], l, rfl, List.forall_mem_nil _, ?_⟩
        intro y hy hp
        exact absurd hp (by simp [latest_eq_none_iff.mp hlast y hy])
      · have hb := ih hlast
        simp only [hlast] at h
        by_cases hle : time c ≤ time b
        · rw [if_pos hle] at h
          obtain rfl := Option.some.inj h
          obtain ⟨hpb, front, back, rfl, hfront, hback⟩ := hb
          refine ⟨hpb, c :: front, back, rfl, ?_, hback⟩
          intro y hy hp
          rcases List.mem_cons.mp hy with rfl | hy
          · exact hle
          · exact hfront y hy hp
        · rw [if_neg hle] at h
          obtain rfl := Option.some.inj h
          refine ⟨hc, [], l, rfl, List.forall_mem_nil _, ?_⟩
          intro y hy hp
          exact (hb.le hy hp).trans_lt (not_le.mp hle)
    · rw [if_neg hc] at h
      obtain ⟨hx, front, back, rfl, hfront, hback⟩ := ih h
      refine ⟨hx, c :: front, back, rfl, ?_, hback⟩
      intro y hy hp
      rcases List.mem_cons.mp hy with rfl | hy
      · exact absurd hp hc
      · exact hfront y hy hp

/-- A kind has at most one latest item. -/
theorem IsLatest.unique (hx : IsLatest time p l x) (hy : IsLatest time p l y) : x = y := by
  obtain ⟨hpx, front, back, rfl, hfront, hback⟩ := hx
  obtain ⟨hpy, front', back', heq, hfront', hback'⟩ := hy
  rcases List.append_eq_append_iff.mp heq with ⟨c, rfl, hc⟩ | ⟨c, rfl, hc⟩
  · rcases c with _ | ⟨d, c⟩
    · exact (List.cons.inj hc).1
    · obtain ⟨rfl, rfl⟩ := List.cons.inj hc
      have hle : time x ≤ time y := hfront' x (by simp) hpx
      exact absurd (hback y (by simp) hpy) (not_lt.mpr hle)
  · rcases c with _ | ⟨d, c⟩
    · exact (List.cons.inj hc).1.symm
    · obtain ⟨rfl, rfl⟩ := List.cons.inj hc
      have hle : time y ≤ time x := hfront y (by simp) hpy
      exact absurd (hback' x (by simp) hpx) (not_lt.mpr hle)

theorem latest_eq_some_iff : latest time p l = some x ↔ IsLatest time p l x := by
  refine ⟨isLatest_of_latest, ?_⟩
  intro hx
  rcases hlast : latest time p l with _ | y
  · exact absurd hx.1 (by simp [latest_eq_none_iff.mp hlast x hx.mem])
  · rw [(isLatest_of_latest hlast).unique hx]

/-- Among items of distinct moments the order of the list does not matter. -/
theorem latest_eq_of_perm {others : List α} (hperm : others.Perm l)
    (hdistinct : l.Pairwise fun a b => p a = true → p b = true → time a ≠ time b) :
    latest time p others = latest time p l := by
  rcases hlast : latest time p l with _ | x
  · rw [latest_eq_none_iff] at hlast ⊢
    intro x hx
    exact hlast x (hperm.subset hx)
  · have hx := isLatest_of_latest hlast
    rcases hother : latest time p others with _ | y
    · exact absurd hx.1 (by simp [latest_eq_none_iff.mp hother x (hperm.symm.subset hx.mem)])
    · have hy := isLatest_of_latest hother
      have hle := hy.le (hperm.symm.subset hx.mem) hx.1
      have hge := hx.le (hperm.subset hy.mem) hy.1
      have heq : ∀ ⦃a⦄, a ∈ l → ∀ ⦃b⦄, b ∈ l → p a = true → p b = true → time a = time b → a = b := by
        apply List.Pairwise.forall_of_forall_of_flip
        · intro a _ _ _ _
          rfl
        · refine hdistinct.imp ?_
          intro a b hab ha hb heq
          exact absurd heq (hab ha hb)
        · refine hdistinct.imp ?_
          intro a b hab hb ha heq
          exact absurd heq.symm (hab ha hb)
      rw [heq hx.mem (hperm.subset hy.mem) hx.1 hy.1 (le_antisymm hle hge)]

/-! The newest items first. Through a window of the first `n` the latest of a kind is seen when fewer than `n`
items stand before it. -/

def newestFirst (time : α → τ) (l : List α) : List α := (sorted time l).reverse

/-- The items before the first of the kind. -/
def ahead (time : α → τ) (p : α → Bool) (l : List α) : ℕ := ((newestFirst time l).takeWhile fun x => !p x).length

theorem find?_newestFirst : (newestFirst time l).find? p = latest time p l := by
  unfold newestFirst latest
  rw [← List.head?_filter, List.filter_reverse, List.head?_reverse]

theorem find?_take_of_lt {n : ℕ} (h : (l.takeWhile fun x => !p x).length < n) : (l.take n).find? p = l.find? p := by
  induction l generalizing n with
  | nil => rw [List.take_nil]
  | cons x l ih =>
    rcases n with _ | n
    · exact absurd h (Nat.not_lt_zero _)
    · rw [List.take_succ_cons, List.find?_cons, List.find?_cons]
      rcases hx : p x with _ | _
      · rw [List.takeWhile_cons_of_pos (by rw [hx]; rfl), List.length_cons] at h
        exact ih (Nat.lt_of_succ_lt_succ h)
      · rfl

theorem find?_take_of_ge {n : ℕ} (h : n ≤ (l.takeWhile fun x => !p x).length) : (l.take n).find? p = none := by
  rw [List.find?_eq_none]
  intro x hx
  have hfront : l.take n <+: l.takeWhile fun x => !p x :=
    List.prefix_of_prefix_length_le (List.take_prefix n l) (List.takeWhile_prefix _) ((List.length_take_le n l).trans h)
  simpa using List.mem_takeWhile_imp (hfront.subset hx)

theorem find?_window {n : ℕ} :
    ((newestFirst time l).take n).find? p = if ahead time p l < n then latest time p l else none := by
  by_cases h : ahead time p l < n
  · rw [if_pos h, find?_take_of_lt h, find?_newestFirst]
  · rw [if_neg h, find?_take_of_ge (not_lt.mp h)]

/-- Items that are not earlier than the others, and in order, stand at the end of the sorted list. -/
theorem sorted_append {new : List α} (horder : new.Pairwise fun a b => time a ≤ time b)
    (hnew : ∀ x ∈ l, ∀ y ∈ new, time x ≤ time y) : sorted time (l ++ new) = sorted time l ++ new := by
  induction l with
  | nil => exact List.Pairwise.insertionSort_eq horder
  | cons x l ih =>
    have hcons : ∀ l : List α, sorted time (x :: l) = (sorted time l).orderedInsert (fun a b => time a ≤ time b) x :=
      fun _ => rfl
    rw [List.cons_append, hcons, hcons, ih fun x hx => hnew x (List.mem_cons_of_mem _ hx)]
    have hx := hnew x List.mem_cons_self
    generalize sorted time l = s
    induction s with
    | nil =>
      rcases new with _ | ⟨y, new⟩
      · rfl
      · exact List.orderedInsert_cons_of_le _ _ (hx y List.mem_cons_self)
    | cons y s ihs =>
      rw [List.cons_append, List.orderedInsert_cons, List.orderedInsert_cons, ihs]
      split_ifs <;> rfl

theorem newestFirst_append {new : List α} (horder : new.Pairwise fun a b => time a ≤ time b)
    (hnew : ∀ x ∈ l, ∀ y ∈ new, time x ≤ time y) :
    newestFirst time (l ++ new) = new.reverse ++ newestFirst time l := by
  unfold newestFirst
  rw [sorted_append horder hnew, List.reverse_append]

/-- New items of other kinds push the latest of a kind down by their number. -/
theorem ahead_append_of_other {new : List α} (horder : new.Pairwise fun a b => time a ≤ time b)
    (hnew : ∀ x ∈ l, ∀ y ∈ new, time x ≤ time y) (hother : ∀ y ∈ new, p y = false) :
    ahead time p (l ++ new) = new.length + ahead time p l := by
  unfold ahead
  rw [newestFirst_append horder hnew, List.takeWhile_append_of_pos, List.length_append, List.length_reverse]
  intro y hy
  rw [hother y (List.mem_reverse.mp hy)]
  rfl

/-- A new item is seen above all the older ones. -/
theorem ahead_append_lt {new : List α} (horder : new.Pairwise fun a b => time a ≤ time b)
    (hnew : ∀ x ∈ l, ∀ y ∈ new, time x ≤ time y) (hy : y ∈ new) (hp : p y = true) :
    ahead time p (l ++ new) < new.length := by
  have hstop : (new.reverse.takeWhile fun x => !p x).length < new.reverse.length := by
    refine lt_of_le_of_ne (List.takeWhile_prefix _).length_le ?_
    intro hlen
    have hall := List.takeWhile_eq_self_iff.mp ((List.takeWhile_prefix _).eq_of_length hlen) y (List.mem_reverse.mpr hy)
    rw [hp] at hall
    exact Bool.noConfusion hall
  unfold ahead
  rw [newestFirst_append horder hnew, List.takeWhile_append, if_neg hstop.ne]
  exact hstop.trans_eq List.length_reverse

/-- The latest of the new items of a kind is the latest of all. -/
theorem latest_append {new : List α} (horder : new.Pairwise fun a b => time a ≤ time b)
    (hnew : ∀ x ∈ l, ∀ y ∈ new, time x ≤ time y) :
    latest time p (l ++ new) = ((new.filter p).getLast?).or (latest time p l) := by
  unfold latest
  rw [sorted_append horder hnew, List.filter_append, List.getLast?_append]

/-- An item beyond the first `n` has at least `n` others that are not older. -/
theorem lt_countP_of_mem_drop {n : ℕ} (h : x ∈ (newestFirst time l).drop n) :
    n < l.countP fun y => time x ≤ time y := by
  have hdesc : (newestFirst time l).Pairwise fun a b => time b ≤ time a := List.pairwise_reverse.mpr (sorted_pairwise l)
  have hperm : (newestFirst time l).Perm l := (List.reverse_perm _).trans (sorted_perm l)
  rw [← hperm.countP_eq]
  generalize newestFirst time l = s at h hdesc
  have hlen : n < s.length := by
    by_contra hle
    rw [List.drop_eq_nil_of_le (not_lt.mp hle)] at h
    cases h
  have htake : (s.take n).countP (fun y => time x ≤ time y) = n := by
    rw [List.countP_eq_length.mpr, List.length_take, Nat.min_eq_left hlen.le]
    intro y hy
    rw [← List.take_append_drop n s] at hdesc
    exact decide_eq_true ((List.pairwise_append.mp hdesc).2.2 y hy x h)
  have hdrop : 0 < (s.drop n).countP fun y => time x ≤ time y :=
    List.countP_pos_iff.mpr ⟨x, h, decide_eq_true le_rfl⟩
  rw [← List.take_append_drop n s, List.countP_append, htake]
  omega

/-- Of the items that are not older the first in the list comes last. -/
theorem newestFirst_cons (x : α) (l : List α) :
    ∃ newer older, newestFirst time (x :: l) = newer ++ x :: older ∧
      newer.length = l.countP (fun y => time x ≤ time y) ∧ (newer ++ older).Perm l := by
  have hsplit : sorted time (x :: l) = ((sorted time l).takeWhile fun y => ¬time x ≤ time y) ++
      x :: (sorted time l).dropWhile fun y => ¬time x ≤ time y := List.orderedInsert_eq_take_drop _ x (sorted time l)
  have hdrop : ∀ s : List α, (s.Pairwise fun a b => time a ≤ time b) →
      (s.dropWhile fun y => ¬time x ≤ time y).length = s.countP fun y => time x ≤ time y := by
    intro s hs
    induction s with
    | nil => rfl
    | cons y s ih =>
      obtain ⟨hy, hs⟩ := List.pairwise_cons.mp hs
      by_cases hle : time x ≤ time y
      · rw [List.dropWhile_cons_of_neg (by simpa using hle), List.countP_eq_length.mpr]
        intro z hz
        rcases List.mem_cons.mp hz with rfl | hz
        · exact decide_eq_true hle
        · exact decide_eq_true (hle.trans (hy z hz))
      · rw [List.dropWhile_cons_of_pos (by simpa using hle), ih hs, List.countP_cons_of_neg (by simpa using hle)]
  refine ⟨((sorted time l).dropWhile fun y => ¬time x ≤ time y).reverse,
    ((sorted time l).takeWhile fun y => ¬time x ≤ time y).reverse, ?_, ?_, ?_⟩
  · unfold newestFirst
    rw [hsplit, List.reverse_append, List.reverse_cons, List.append_assoc, List.singleton_append]
  · rw [List.length_reverse, hdrop _ (sorted_pairwise l), (sorted_perm l).countP_eq]
  · rw [← List.reverse_append, List.takeWhile_append_dropWhile]
    exact (List.reverse_perm _).trans (sorted_perm l)

/-! A map by key keeps the last item of each key. -/

theorem get_foldl_byKey [DecidableEq κ] (key : α → κ) (l : List α) (m : List (κ × α)) (k : κ) :
    OrderedMap.get (l.foldl (fun m x => OrderedMap.alter (fun _ => x) (key x) m) m) k =
      (l.filter fun x => key x = k).getLast?.or (OrderedMap.get m k) := by
  induction l generalizing m with
  | nil => simp
  | cons x l ih =>
    rw [List.foldl_cons, ih, OrderedMap.get_alter]
    by_cases hx : key x = k
    · rw [List.filter_cons_of_pos (by simpa using hx), if_pos hx, List.getLast?_cons]
      rcases (l.filter fun x => key x = k).getLast? with _ | b <;> rfl
    · rw [List.filter_cons_of_neg (by simpa using hx), if_neg hx]

/-- The map by key of the sorted items holds the latest item of each key. -/
theorem get_byKey_sorted [DecidableEq κ] (key : α → κ) (l : List α) (k : κ) :
    OrderedMap.get (Matching.byKey key (sorted time l)) k = latest time (fun x => key x = k) l := by
  unfold Matching.byKey latest
  rw [get_foldl_byKey, OrderedMap.get_nil, Option.or_none]
end Mydon.Lib.Latest
