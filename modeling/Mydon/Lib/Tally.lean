import Mydon.Lib.OrderedMap
import Mathlib.Algebra.BigOperators.Group.List.Basic
import Mathlib.Data.List.Induction

/-! Elements folded key by key into an ordered map, and the keys in the order in which they first come. -/

namespace Mydon.Lib

variable {α κ σ ι : Type*} [DecidableEq κ]

/-- The keys that were seen, and then each new one at its first place. -/
def distinctFrom (seen ks : List κ) : List κ := ks.foldl OrderedMap.addKey seen

def tally (key : α → κ) (start : κ → σ) (add : σ → α → σ) (xs : List α) : List (κ × σ) :=
  xs.foldl (fun m x => OrderedMap.alter (fun own => add (own.getD (start (key x))) x) (key x) m) []

section distinct
variable {seen ks ls : List κ} {k : κ}

theorem distinctFrom_cons (l : κ) :
    distinctFrom seen (l :: ks) = distinctFrom (if l ∈ seen then seen else seen ++ [l]) ks := rfl

theorem distinctFrom_append : distinctFrom seen (ks ++ ls) = distinctFrom (distinctFrom seen ks) ls := by
  simp [distinctFrom]

theorem mem_distinctFrom : k ∈ distinctFrom seen ks ↔ k ∈ seen ∨ k ∈ ks := by
  induction ks generalizing seen with
  | nil => simp [distinctFrom]
  | cons l ks ih =>
    rw [distinctFrom_cons, ih, List.mem_cons]
    split_ifs with h
    · refine ⟨fun hk => hk.imp_right .inr, fun hk => ?_⟩
      rcases hk with hk | rfl | hk
      · exact .inl hk
      · exact .inl h
      · exact .inr hk
    · simp [or_assoc]

theorem nodup_distinctFrom (h : seen.Nodup) : (distinctFrom seen ks).Nodup := by
  induction ks generalizing seen with
  | nil => exact h
  | cons l ks ih =>
    rw [distinctFrom_cons]
    refine ih ?_
    split_ifs with hl
    · exact h
    · exact h.append (List.nodup_singleton l) (by simpa using hl)

theorem distinctFrom_of_subset (h : ∀ k ∈ ks, k ∈ seen) : distinctFrom seen ks = seen := by
  induction ks with
  | nil => rfl
  | cons l ks ih =>
    rw [distinctFrom_cons, if_pos (h l List.mem_cons_self)]
    exact ih fun k hk => h k (List.mem_cons_of_mem _ hk)

/-- Keys that come again change nothing. -/
theorem distinctFrom_repeat {again : List κ} (h : ∀ k ∈ again, k ∈ ks) :
    distinctFrom seen (ks ++ again ++ ls) = distinctFrom seen (ks ++ ls) := by
  have hseen : distinctFrom (distinctFrom seen ks) again = distinctFrom seen ks :=
    distinctFrom_of_subset fun k hk => mem_distinctFrom.mpr (.inr (h k hk))
  rw [distinctFrom_append, distinctFrom_append, distinctFrom_append, hseen]

theorem distinctFrom_flatMap {f g : ι → List κ} {is : List ι}
    (h : ∀ i ∈ is, ∀ seen, distinctFrom seen (f i) = distinctFrom seen (g i)) :
    distinctFrom seen (is.flatMap f) = distinctFrom seen (is.flatMap g) := by
  induction is generalizing seen with
  | nil => rfl
  | cons i is ih =>
    rw [List.flatMap_cons, List.flatMap_cons, distinctFrom_append, distinctFrom_append, h i List.mem_cons_self]
    exact ih fun j hj => h j (List.mem_cons_of_mem _ hj)

/-- The keys seen before stay in front. -/
theorem distinctFrom_eq_append (seen ks : List κ) :
    ∃ extra, distinctFrom seen ks = seen ++ extra ∧ ∀ k ∈ extra, k ∈ ks ∧ k ∉ seen := by
  induction ks generalizing seen with
  | nil => exact ⟨[], (List.append_nil seen).symm, List.forall_mem_nil _⟩
  | cons l ks ih =>
    rw [distinctFrom_cons]
    split_ifs with hl
    · obtain ⟨extra, heq, hextra⟩ := ih seen
      exact ⟨extra, heq, fun k hk => (hextra k hk).imp_left (List.mem_cons_of_mem _)⟩
    · obtain ⟨extra, heq, hextra⟩ := ih (seen ++ [l])
      refine ⟨l :: extra, by rw [heq, List.append_assoc, List.singleton_append], fun k hk => ?_⟩
      rcases List.mem_cons.mp hk with rfl | hk
      · exact ⟨List.mem_cons_self, hl⟩
      · obtain ⟨hks, hseen⟩ := hextra k hk
        exact ⟨List.mem_cons_of_mem _ hks, fun h => hseen (List.mem_append_left _ h)⟩

theorem filter_distinctFrom (p : κ → Bool) :
    (distinctFrom seen ks).filter p = distinctFrom (seen.filter p) (ks.filter p) := by
  induction ks generalizing seen with
  | nil => rfl
  | cons l ks ih =>
    rw [distinctFrom_cons, ih]
    by_cases hp : p l = true
    · rw [List.filter_cons_of_pos hp, distinctFrom_cons]
      by_cases hl : l ∈ seen
      · simp [hl, hp]
      · simp [hl, hp, List.filter_append]
    · rw [List.filter_cons_of_neg hp]
      congr 1
      split_ifs
      · rfl
      · simp [List.filter_append, hp]

@[simp] theorem mem_keySet : k ∈ OrderedMap.keySet ks ↔ k ∈ ks := by
  have h : k ∈ OrderedMap.keySet ks ↔ k ∈ [] ∨ k ∈ ks := mem_distinctFrom
  simpa using h

theorem nodup_keySet (ks : List κ) : (OrderedMap.keySet ks).Nodup := nodup_distinctFrom List.nodup_nil

theorem filter_keySet (p : κ → Bool) : (OrderedMap.keySet ks).filter p = OrderedMap.keySet (ks.filter p) :=
  filter_distinctFrom p

theorem keySet_repeat {again : List κ} (h : ∀ k ∈ again, k ∈ ks) :
    OrderedMap.keySet (ks ++ again ++ ls) = OrderedMap.keySet (ks ++ ls) := distinctFrom_repeat h

theorem keySet_flatMap {f g : ι → List κ} {is : List ι}
    (h : ∀ i ∈ is, ∀ seen, distinctFrom seen (f i) = distinctFrom seen (g i)) :
    OrderedMap.keySet (is.flatMap f) = OrderedMap.keySet (is.flatMap g) := distinctFrom_flatMap h

theorem keySet_snoc : OrderedMap.keySet (ks ++ [k]) =
    if k ∈ ks then OrderedMap.keySet ks else OrderedMap.keySet ks ++ [k] := by
  have hstep : OrderedMap.keySet (ks ++ [k]) =
      if k ∈ OrderedMap.keySet ks then OrderedMap.keySet ks else OrderedMap.keySet ks ++ [k] := by
    unfold OrderedMap.keySet
    rw [List.foldl_append]
    rfl
  simpa only [mem_keySet] using hstep

end distinct

section tally
variable {key : α → κ} {start : κ → σ} {add : σ → α → σ}

theorem alter_map_pair (f : Option σ → σ) (g : κ → σ) (k : κ) {ks : List κ} (hnd : ks.Nodup) :
    OrderedMap.alter f k (ks.map fun l => (l, g l)) =
      (if k ∈ ks then ks else ks ++ [k]).map fun l =>
        (l, if l = k then f (if k ∈ ks then some (g l) else none) else g l) := by
  induction ks with
  | nil => simp [OrderedMap.alter]
  | cons l ks ih =>
    rw [List.nodup_cons] at hnd
    by_cases hl : l = k
    · subst hl
      have hrest : ∀ l' ∈ ks, l' ≠ l := fun l' hl' heq => hnd.1 (heq ▸ hl')
      simp only [List.map_cons, OrderedMap.alter, if_true, List.mem_cons_self]
      refine congrArg _ (List.map_congr_left fun l' hl' => ?_)
      rw [if_neg (hrest l' hl')]
    · by_cases hk : k ∈ ks
      · simp [OrderedMap.alter, hl, ih hnd.2, hk]
      · simp [OrderedMap.alter, hl, ih hnd.2, hk, Ne.symm hl]

/-- The keys of a tally come in the order of their first elements, each with its own elements folded. -/
theorem tally_eq (xs : List α) : tally key start add xs =
    (OrderedMap.keySet (xs.map key)).map fun k => (k, (xs.filter fun x => key x = k).foldl add (start k)) := by
  induction xs using List.reverseRecOn with
  | nil => rfl
  | append_singleton xs x ih =>
    have hstep : tally key start add (xs ++ [x]) =
        OrderedMap.alter (fun own => add (own.getD (start (key x))) x) (key x) (tally key start add xs) := by
      simp [tally]
    rw [hstep, ih, alter_map_pair _ _ _ (nodup_keySet _), List.map_append, List.map_singleton, keySet_snoc]
    simp only [mem_keySet]
    refine List.map_congr_left fun k hk => ?_
    rw [List.filter_append, List.foldl_append]
    by_cases hkx : k = key x
    · subst hkx
      by_cases hin : key x ∈ xs.map key
      · simp [hin]
      · have hnone : xs.filter (fun y => key y = key x) = [] := by
          rw [List.filter_eq_nil_iff]
          intro y hy heq
          exact hin (List.mem_map.mpr ⟨y, hy, of_decide_eq_true heq⟩)
        simp [hin, hnone]
    · simp [hkx, Ne.symm hkx]

theorem keys_tally (xs : List α) : OrderedMap.keys (tally key start add xs) = OrderedMap.keySet (xs.map key) := by
  rw [tally_eq, OrderedMap.keys, List.map_map]
  exact List.map_id _

theorem get_tally (xs : List α) (k : κ) : OrderedMap.get (tally key start add xs) k =
    if k ∈ xs.map key then some ((xs.filter fun x => key x = k).foldl add (start k)) else none := by
  split_ifs with h
  · refine OrderedMap.get_of_mem ?_ ?_
    · rw [keys_tally]
      exact nodup_keySet _
    · rw [tally_eq]
      exact List.mem_map.mpr ⟨k, mem_keySet.mpr h, rfl⟩
  · rw [OrderedMap.get_eq_none_iff, keys_tally, mem_keySet]
    exact h

theorem tally_concat (key : α → κ) (start : κ → σ) (add : σ → α → σ) (xs : List α) (x : α) :
    tally key start add (xs ++ [x]) =
      OrderedMap.alter (fun own => add (own.getD (start (key x))) x) (key x) (tally key start add xs) := by
  unfold tally
  rw [List.foldl_append]
  rfl

/-- What a tally holds of a key, or the start. -/
theorem getD_tally (xs : List α) (k : κ) :
    (OrderedMap.get (tally key start add xs) k).getD (start k) = (xs.filter fun x => key x = k).foldl add (start k) := by
  rw [get_tally]
  split_ifs with h
  · rfl
  · have hnil : xs.filter (fun x => key x = k) = [] := by
      rw [List.filter_eq_nil_iff]
      intro x hx heq
      exact h (List.mem_map.mpr ⟨x, hx, of_decide_eq_true heq⟩)
    rw [hnil]
    rfl

/-- The elements of each key. -/
def group (key : α → κ) (xs : List α) : List (κ × List α) := tally key (fun _ => []) (fun own x => own ++ [x]) xs

theorem group_eq (key : α → κ) (xs : List α) :
    group key xs = (OrderedMap.keySet (xs.map key)).map fun k => (k, xs.filter fun x => key x = k) := by
  have happend : ∀ l own : List α, l.foldl (fun own x => own ++ [x]) own = own ++ l := by
    intro l
    induction l with
    | nil => simp
    | cons x l ih => intro own; simp [ih]
  rw [group, tally_eq]
  simp [happend]

end tally

/-- What every element adds to the weights of a tally. -/
theorem sum_tally {key : α → κ} {start : κ → σ} {add : σ → α → σ} {g : σ → ℕ} {f : α → ℕ} (hstart : ∀ k, g (start k) = 0)
    (hadd : ∀ s x, g (add s x) = g s + f x) (xs : List α) :
    ((tally key start add xs).map fun e => g e.2).sum = (xs.map f).sum := by
  induction xs using List.reverseRecOn with
  | nil => rfl
  | append_singleton xs x ih =>
    have hstep : tally key start add (xs ++ [x]) =
        OrderedMap.alter (fun own => add (own.getD (start (key x))) x) (key x) (tally key start add xs) := by
      simp [tally]
    rw [hstep, OrderedMap.sum_alter (fun own => ?_) (key x), ih, List.map_append, List.sum_append, List.map_singleton,
      List.sum_singleton]
    cases own with
    | none => rw [Option.getD_none, hadd, hstart, Option.map_none, Option.getD_none]
    | some own => rw [Option.getD_some, hadd, Option.map_some, Option.getD_some]

/-- A weight of the values that the change raises by `n` rises by `n` in all. -/
theorem sum_alter_add {M : Type*} [AddCommMonoid M] {c : σ → M} {f : Option σ → σ} {n : M}
    (hf : ∀ o, c (f o) = (o.map c).getD 0 + n) (k : κ) (m : List (κ × σ)) :
    ((OrderedMap.alter f k m).map fun e => c e.2).sum = (m.map fun e => c e.2).sum + n := by
  induction m with
  | nil => simp [OrderedMap.alter, hf]
  | cons e m ih =>
    by_cases h : e.1 = k
    · simp [OrderedMap.alter, h, hf, add_right_comm]
    · simp [OrderedMap.alter, h, ih, add_assoc]

/-- A sum taken key by key. -/
theorem sum_by_key {M : Type*} [AddCommMonoid M] {key : α → κ} (f : α → M) {ks : List κ} (hnd : ks.Nodup)
    {xs : List α} (hxs : ∀ x ∈ xs, key x ∈ ks) :
    (ks.map fun k => ((xs.filter fun x => key x = k).map f).sum).sum = (xs.map f).sum := by
  induction xs with
  | nil => simp
  | cons x xs ih =>
    obtain ⟨hx, hrest⟩ := List.forall_mem_cons.mp hxs
    have hcons : ∀ k, (((x :: xs).filter fun x => key x = k).map f).sum =
        (if key x = k then f x else 0) + ((xs.filter fun x => key x = k).map f).sum := by
      intro k
      by_cases h : key x = k <;> simp [h]
    have hone : (ks.map fun k => if key x = k then f x else 0).sum = f x := by
      rw [List.sum_map_eq_nsmul_single (key x) _ fun k hk _ => if_neg (Ne.symm hk), List.count_eq_one_of_mem hnd hx,
        one_nsmul, if_pos rfl]
    rw [List.map_congr_left fun k _ => hcons k, List.sum_map_add, hone, ih hrest, List.map_cons, List.sum_cons]

section merge
variable {key : α → κ} {join : α → α → α}

/-- The elements of a key joined one after another to the first of them. -/
def mergeByKey (key : α → κ) (join : α → α → α) (xs : List α) : List (κ × α) :=
  xs.foldl (fun m x => OrderedMap.alter (fun own => own.elim x (join · x)) (key x) m) []

def joined (join : α → α → α) : List α → Option α
  | [] => none
  | x :: xs => some (xs.foldl join x)

theorem foldl_joined (xs : List α) (x : α) :
    xs.foldl (fun own y => some (own.elim y (join · y))) (some x) = some (xs.foldl join x) := by
  induction xs generalizing x with
  | nil => rfl
  | cons y xs ih => exact ih (join x y)

theorem foldl_none_joined (xs : List α) : xs.foldl (fun own y => some (own.elim y (join · y))) none = joined join xs := by
  cases xs with
  | nil => rfl
  | cons x xs => exact foldl_joined xs x

theorem alter_map_some (x : α) (k : κ) (m : List (κ × α)) :
    OrderedMap.alter (fun own : Option (Option α) => some ((own.getD none).elim x (join · x))) k
        (m.map fun e => (e.1, some e.2)) =
      (OrderedMap.alter (fun own => own.elim x (join · x)) k m).map fun e => (e.1, some e.2) := by
  induction m with
  | nil => rfl
  | cons e m ih =>
    by_cases h : e.1 = k
    · simp [OrderedMap.alter, h]
    · simp [OrderedMap.alter, h, ih]

theorem mergeByKey_map_some (xs : List α) : (mergeByKey key join xs).map (fun e => (e.1, some e.2)) =
    tally key (fun _ => none) (fun own x => some (own.elim x (join · x))) xs := by
  induction xs using List.reverseRecOn with
  | nil => rfl
  | append_singleton xs x ih =>
    unfold mergeByKey tally at ih ⊢
    rw [List.foldl_append, List.foldl_append, List.foldl_cons, List.foldl_nil, List.foldl_cons, List.foldl_nil, ← ih,
      alter_map_some]

/-- A key holds the joined elements of its own, and the keys come in the order of their first elements. -/
theorem mem_mergeByKey {xs : List α} {k : κ} {v : α} :
    (k, v) ∈ mergeByKey key join xs ↔ joined join (xs.filter fun x => key x = k) = some v := by
  have hmem : (k, v) ∈ mergeByKey key join xs ↔
      (k, some v) ∈ tally key (fun _ => none) (fun own x => some (own.elim x (join · x))) xs := by
    rw [← mergeByKey_map_some, List.mem_map]
    constructor
    · exact fun h => ⟨(k, v), h, rfl⟩
    · rintro ⟨⟨k', v'⟩, h, heq⟩
      obtain ⟨rfl, hv⟩ := Prod.mk.inj heq
      obtain rfl := Option.some.inj hv
      exact h
  rw [hmem, tally_eq, List.mem_map]
  simp only [mem_keySet, foldl_none_joined]
  constructor
  · rintro ⟨k', _, heq⟩
    obtain ⟨rfl, hv⟩ := Prod.mk.inj heq
    exact hv
  · intro h
    refine ⟨k, ?_, by rw [h]⟩
    rcases hxs : xs.filter (fun x => key x = k) with _ | ⟨x, rest⟩
    · rw [hxs] at h
      exact nomatch h
    · have hx : x ∈ xs.filter fun x => key x = k := hxs ▸ List.mem_cons_self
      obtain ⟨hin, hkey⟩ := List.mem_filter.mp hx
      exact List.mem_map.mpr ⟨x, hin, of_decide_eq_true hkey⟩

/-- The joined elements, in the order of the first of each key. -/
theorem mergeByKey_eq (xs : List α) : mergeByKey key join xs =
    (OrderedMap.keySet (xs.map key)).filterMap fun k => (joined join (xs.filter fun x => key x = k)).map (k, ·) := by
  have hsome : ((mergeByKey key join xs).map fun e => (e.1, some e.2)).filterMap (fun e => e.2.map (e.1, ·)) =
      mergeByKey key join xs := by
    rw [List.filterMap_map]
    exact List.filterMap_some
  rw [← hsome, mergeByKey_map_some, tally_eq, List.filterMap_map]
  refine List.filterMap_congr fun k _ => ?_
  simp only [Function.comp_apply, foldl_none_joined]

/-- What is the same in joined elements as in their first one. -/
theorem joined_kept {β : Type*} {f : α → β} (hf : ∀ a x, f (join a x) = f a) {xs : List α} {v : α} {b : β}
    (hxs : ∀ x ∈ xs, f x = b) (h : joined join xs = some v) : f v = b := by
  cases xs with
  | nil => exact nomatch h
  | cons x xs =>
    obtain rfl := Option.some.inj h
    have hall : ∀ ys : List α, ∀ a, f (ys.foldl join a) = f a := by
      intro ys
      induction ys with
      | nil => exact fun _ => rfl
      | cons y ys ih => exact fun a => (ih _).trans (hf a y)
    rw [hall, hxs x List.mem_cons_self]

/-- What joining takes from one of the two. -/
theorem joined_from {β : Type*} {f : α → β} (hf : ∀ a x, f (join a x) = f a ∨ f (join a x) = f x) {xs : List α} {v : α}
    (h : joined join xs = some v) : ∃ x ∈ xs, f x = f v := by
  cases xs with
  | nil => exact nomatch h
  | cons x xs =>
    obtain rfl := Option.some.inj h
    clear h
    induction xs generalizing x with
    | nil => exact ⟨x, List.mem_cons_self, rfl⟩
    | cons y xs ih =>
      obtain ⟨z, hz, heq⟩ := ih (join x y)
      rcases List.mem_cons.mp hz with rfl | hz
      · rcases hf x y with hx | hy
        · exact ⟨x, List.mem_cons_self, hx.symm.trans heq⟩
        · exact ⟨y, List.mem_cons_of_mem _ List.mem_cons_self, hy.symm.trans heq⟩
      · exact ⟨z, List.mem_cons_of_mem _ (List.mem_cons_of_mem _ hz), heq⟩

end merge

/-- A table of the values of the keys seen, asked for one more key. -/
theorem get_remember {V : Type*} {ks : List κ} {m : List (κ × V)} {value : κ → V} {key : κ} {v : V}
    (h : ∀ k, OrderedMap.get m k = if k ∈ ks then some (value k) else none) (hnew : key ∉ ks → v = value key) :
    (OrderedMap.get m key).getD v = value key ∧
      ∀ k, OrderedMap.get (if (OrderedMap.get m key).isSome then m else OrderedMap.set key v m) k =
        if k ∈ ks ++ [key] then some (value k) else none := by
  simp only [List.mem_append, List.mem_singleton, h key]
  by_cases hin : key ∈ ks
  · rw [if_pos hin]
    refine ⟨rfl, fun k => ?_⟩
    rw [Option.isSome_some, if_pos rfl, h]
    by_cases hk : k = key
    · rw [if_pos (hk ▸ hin), if_pos (.inr hk)]
    · simp only [hk, or_false]
  · rw [if_neg hin]
    refine ⟨hnew hin, fun k => ?_⟩
    rw [Option.isSome_none, if_neg Bool.false_ne_true, OrderedMap.get_set, h]
    by_cases hk : key = k
    · rw [if_pos hk, if_pos (.inr hk.symm), hnew hin, hk]
    · simp only [hk, Ne.symm hk, if_false, or_false]

/-- A piece whose elements name it is found again in the whole. -/
theorem filter_flatMap_of_tag {β : Type*} (tag : β → κ) {is : List κ} {f : κ → List β} (hnd : is.Nodup)
    (hf : ∀ i ∈ is, ∀ x ∈ f i, tag x = i) {i : κ} (hi : i ∈ is) : (is.flatMap f).filter (fun x => tag x = i) = f i := by
  obtain ⟨front, back, rfl⟩ := List.append_of_mem hi
  have hother : ∀ js : List κ, i ∉ js → (∀ j ∈ js, j ∈ front ++ i :: back) →
      (js.flatMap f).filter (fun x => tag x = i) = [] := by
    intro js hno hsub
    rw [List.filter_eq_nil_iff]
    intro x hx heq
    obtain ⟨j, hj, hxj⟩ := List.mem_flatMap.mp hx
    have hji := (hf j (hsub j hj) x hxj).symm.trans (of_decide_eq_true heq)
    exact hno (hji ▸ hj)
  have hnd' := List.nodup_middle.mp hnd
  rw [List.nodup_cons, List.mem_append, not_or] at hnd'
  rw [List.flatMap_append, List.flatMap_cons, List.filter_append, List.filter_append,
    hother front hnd'.1.1 (fun j hj => by simp [hj]), hother back hnd'.1.2 (fun j hj => by simp [hj]),
    List.nil_append, List.append_nil, List.filter_eq_self]
  exact fun x hx => decide_eq_true (hf i hi x hx)

/-- Pieces whose elements name them can be told apart in the whole. -/
theorem flatMap_eq_iff_of_tag {β : Type*} (tag : β → κ) {is : List κ} {f g : κ → List β} (hnd : is.Nodup)
    (hf : ∀ i ∈ is, ∀ x ∈ f i, tag x = i) (hg : ∀ i ∈ is, ∀ x ∈ g i, tag x = i) :
    is.flatMap f = is.flatMap g ↔ ∀ i ∈ is, f i = g i := by
  constructor
  · intro heq i hi
    rw [← filter_flatMap_of_tag tag hnd hf hi, heq, filter_flatMap_of_tag tag hnd hg hi]
  · intro h
    exact List.flatMap_congr h

theorem filterMap_eq_iff_of_tag {β : Type*} (tag : β → κ) {is : List κ} {f g : κ → Option β} (hnd : is.Nodup)
    (hf : ∀ i ∈ is, ∀ x, f i = some x → tag x = i) (hg : ∀ i ∈ is, ∀ x, g i = some x → tag x = i) :
    is.filterMap f = is.filterMap g ↔ ∀ i ∈ is, f i = g i := by
  have htoList : ∀ a b : Option β, a.toList = b.toList ↔ a = b := by
    rintro (_ | a) (_ | b) <;> simp
  rw [List.filterMap_eq_flatMap_toList, List.filterMap_eq_flatMap_toList, flatMap_eq_iff_of_tag tag hnd]
  · simp only [htoList]
  · exact fun i hi x hx => hf i hi x (Option.mem_toList.mp hx)
  · exact fun i hi x hx => hg i hi x (Option.mem_toList.mp hx)

/-- A mark that the results take over from their sources. -/
theorem map_filterMap_sublist {β γ : Type*} {f : α → Option β} {g : β → γ} {h : α → γ}
    (hfg : ∀ x y, f x = some y → g y = h x) (l : List α) : ((l.filterMap f).map g).Sublist (l.map h) := by
  induction l with
  | nil => exact List.Sublist.refl _
  | cons x l ih =>
    rw [List.filterMap_cons]
    rcases hx : f x with _ | y
    · exact ih.cons _
    · simp only [List.map_cons, hfg x y hx]
      exact ih.cons_cons _

end Mydon.Lib
