import Mathlib.Data.List.Sort
import Mydon.Lib.OrderedMap

/-! Observations matched by key against the records kept of earlier ones. An observation starts a
record, refreshes one or reopens one; an open record that is not observed is resolved or retained. -/

namespace Mydon.Lib.Matching

section
variable {κ α : Type*} [DecidableEq κ]

/-- A map from the keys of the items; of the items with one key the last stays. -/
def byKey (key : α → κ) (items : List α) : List (κ × α) :=
  items.foldl (fun m x => OrderedMap.alter (fun _ => x) (key x) m) []

def values (m : List (κ × α)) : List α := m.map Prod.snd

def erase (m : List (κ × α)) (k : κ) : List (κ × α) := m.filter fun e => e.1 ≠ k

variable {key : α → κ} {items : List α}

theorem nodup_byKey_from (m : List (κ × α)) (hm : (OrderedMap.keys m).Nodup) :
    (OrderedMap.keys (items.foldl (fun m x => OrderedMap.alter (fun _ => x) (key x) m) m)).Nodup := by
  induction items generalizing m with
  | nil => exact hm
  | cons x items ih => exact ih _ (OrderedMap.nodup_keys_alter _ _ hm)

theorem nodup_byKey : (OrderedMap.keys (byKey key items)).Nodup := nodup_byKey_from [] List.nodup_nil

theorem mem_alter_of {f : Option α → α} {k : κ} {m : List (κ × α)} {e : κ × α}
    (he : e ∈ OrderedMap.alter f k m) : e ∈ m ∨ e.1 = k ∧ e.2 = f (OrderedMap.get m k) := by
  induction m with
  | nil =>
    rw [OrderedMap.alter, List.mem_singleton] at he
    subst he
    exact .inr ⟨rfl, rfl⟩
  | cons head m ih =>
    obtain ⟨k', v⟩ := head
    unfold OrderedMap.alter at he
    unfold OrderedMap.get
    split_ifs at he ⊢ with hk
    · rcases List.mem_cons.mp he with rfl | hm
      · exact .inr ⟨hk, rfl⟩
      · exact .inl (List.mem_cons_of_mem _ hm)
    · rcases List.mem_cons.mp he with rfl | hm
      · exact .inl List.mem_cons_self
      · exact (ih hm).imp_left (List.mem_cons_of_mem _)

/-- Every entry is an item under its own key. -/
theorem mem_byKey {e : κ × α} (he : e ∈ byKey key items) : e.1 = key e.2 ∧ e.2 ∈ items := by
  suffices h : ∀ m : List (κ × α), (∀ e ∈ m, e.1 = key e.2 ∧ e.2 ∈ items) → ∀ xs : List α, (∀ x ∈ xs, x ∈ items) →
      ∀ e ∈ xs.foldl (fun m x => OrderedMap.alter (fun _ => x) (key x) m) m, e.1 = key e.2 ∧ e.2 ∈ items from
    h [] (List.forall_mem_nil _) items (fun _ hx => hx) e he
  intro m hm xs
  induction xs generalizing m with
  | nil => exact fun _ => hm
  | cons x xs ih =>
    intro hxs
    refine ih _ (fun e he => ?_) fun y hy => hxs y (List.mem_cons_of_mem _ hy)
    rcases mem_alter_of he with hold | ⟨hk, hv⟩
    · exact hm e hold
    · rw [hk, hv]
      exact ⟨rfl, hxs x List.mem_cons_self⟩

/-- Every key of an item is there. -/
theorem mem_keys_byKey {x : α} (hx : x ∈ items) : key x ∈ OrderedMap.keys (byKey key items) := by
  suffices h : ∀ (xs : List α) (m : List (κ × α)), x ∈ xs ∨ key x ∈ OrderedMap.keys m →
      key x ∈ OrderedMap.keys (xs.foldl (fun m x => OrderedMap.alter (fun _ => x) (key x) m) m) from
    h items [] (.inl hx)
  intro xs
  induction xs with
  | nil => exact fun m h => h.resolve_left List.not_mem_nil
  | cons y xs ih =>
    intro m h
    refine ih _ ?_
    rw [OrderedMap.keys_alter]
    rcases h with h | h
    · rcases List.mem_cons.mp h with rfl | h
      · right
        split_ifs with hmem
        · exact hmem
        · exact List.mem_append_right _ (List.mem_singleton_self _)
      · exact .inl h
    · right
      split_ifs
      · exact h
      · exact List.mem_append_left _ h

theorem keys_values_byKey : (values (byKey key items)).map key = OrderedMap.keys (byKey key items) := by
  unfold values OrderedMap.keys
  rw [List.map_map]
  exact List.map_congr_left fun e he => (mem_byKey he).1.symm

/-- Under unique keys a map holds exactly the items. -/
theorem mem_values_byKey (hnd : (items.map key).Nodup) {x : α} : x ∈ values (byKey key items) ↔ x ∈ items := by
  constructor
  · intro hx
    obtain ⟨e, he, rfl⟩ := List.mem_map.mp hx
    exact (mem_byKey he).2
  · intro hx
    have hkeys : key x ∈ OrderedMap.keys (byKey key items) := mem_keys_byKey hx
    obtain ⟨e, he, hk⟩ := List.mem_map.mp hkeys
    obtain ⟨hkey, hmem⟩ := mem_byKey he
    have hsame : e.2 = x := List.inj_on_of_nodup_map hnd hmem hx (hkey.symm.trans hk)
    exact List.mem_map.mpr ⟨e, he, hsame⟩

theorem get_byKey (hnd : (items.map key).Nodup) {k : κ} {x : α} :
    OrderedMap.get (byKey key items) k = some x ↔ x ∈ items ∧ key x = k := by
  constructor
  · intro h
    obtain ⟨hk, hx⟩ := mem_byKey (OrderedMap.mem_of_get h)
    exact ⟨hx, hk.symm⟩
  · rintro ⟨hx, rfl⟩
    have hvalue : x ∈ values (byKey key items) := (mem_values_byKey hnd).mpr hx
    obtain ⟨e, he, rfl⟩ := List.mem_map.mp hvalue
    refine OrderedMap.get_of_mem nodup_byKey ?_
    rw [← (mem_byKey he).1]
    exact he

theorem get_erase (m : List (κ × α)) (k k' : κ) :
    OrderedMap.get (erase m k) k' = if k' = k then none else OrderedMap.get m k' := by
  induction m with
  | nil => simp [erase]
  | cons e m ih =>
    obtain ⟨k₀, v⟩ := e
    unfold erase at ih ⊢
    by_cases h : k₀ = k
    · rw [List.filter_cons_of_neg (by simp [h]), ih]
      split_ifs with hk
      · rfl
      · rw [OrderedMap.get, if_neg (by rintro rfl; exact hk h)]
    · rw [List.filter_cons_of_pos (by simp [h]), OrderedMap.get, ih, OrderedMap.get]
      split_ifs with h₁ h₂ <;> simp_all

/-! Items with what is remembered of earlier ones. -/

/-- An old item is taken where the map has none of its key. -/
def rememberOne (key : α → κ) (m : List (κ × α)) (x : α) : List (κ × α) :=
  if (OrderedMap.get m (key x)).isSome then m else OrderedMap.alter (fun _ => x) (key x) m

/-- The items by key, and of the old ones those whose key is not among them. -/
def remember (key : α → κ) (items old : List α) : List α := values (old.foldl (rememberOne key) (byKey key items))

theorem mem_keys_rememberOne {k : κ} (x : α) (m : List (κ × α)) :
    k ∈ OrderedMap.keys (rememberOne key m x) ↔ k ∈ OrderedMap.keys m ∨ k = key x := by
  unfold rememberOne
  split_ifs with h
  · refine ⟨.inl, ?_⟩
    rintro (hk | rfl)
    · exact hk
    · exact OrderedMap.mem_keys_iff.mpr h
  · have hnot : key x ∉ OrderedMap.keys m := fun hk => h (OrderedMap.mem_keys_iff.mp hk)
    rw [OrderedMap.keys_alter, if_neg hnot, List.mem_append, List.mem_singleton]

theorem mem_keys_foldl_remember {k : κ} (old : List α) (m : List (κ × α)) :
    k ∈ OrderedMap.keys (old.foldl (rememberOne key) m) ↔ k ∈ OrderedMap.keys m ∨ k ∈ old.map key := by
  induction old generalizing m with
  | nil => simp
  | cons x old ih => rw [List.foldl_cons, ih, mem_keys_rememberOne, List.map_cons, List.mem_cons, or_assoc]

/-- Every entry stays under the key of its item. -/
theorem key_foldl_remember (old : List α) (m : List (κ × α)) (hm : ∀ e ∈ m, e.1 = key e.2) :
    ∀ e ∈ old.foldl (rememberOne key) m, e.1 = key e.2 := by
  induction old generalizing m with
  | nil => exact hm
  | cons x old ih =>
    refine ih _ fun e he => ?_
    unfold rememberOne at he
    split_ifs at he with h
    · exact hm e he
    · rcases mem_alter_of he with he | ⟨hk, hv⟩
      · exact hm e he
      · rw [hk, hv]

theorem mem_map_remember {old : List α} {k : κ} :
    k ∈ (remember key items old).map key ↔ k ∈ items.map key ∨ k ∈ old.map key := by
  have hentries := key_foldl_remember old (byKey key items) fun e he => (mem_byKey he).1
  have hkeys : (remember key items old).map key = OrderedMap.keys (old.foldl (rememberOne key) (byKey key items)) := by
    unfold remember values OrderedMap.keys
    rw [List.map_map]
    exact List.map_congr_left fun e he => (hentries e he).symm
  have hitems : k ∈ OrderedMap.keys (byKey key items) ↔ k ∈ items.map key := by
    constructor
    · intro hk
      obtain ⟨e, he, rfl⟩ := List.mem_map.mp hk
      obtain ⟨hkey, hmem⟩ := mem_byKey he
      exact List.mem_map.mpr ⟨e.2, hmem, hkey.symm⟩
    · intro hk
      obtain ⟨x, hx, rfl⟩ := List.mem_map.mp hk
      exact mem_keys_byKey hx
  rw [hkeys, mem_keys_foldl_remember, hitems]

end

/-- What is to be done with the observations and with the records. -/
structure Plan (ω ι ρ : Type*) where
  create : List ω
  refresh : List (ι × ω)
  reopen : List (ι × ω)
  resolve : List (ι × ρ)
  retained : List ι

/-- How observations and records are read. -/
structure Rules (κ ω ι ρ : Type*) where
  keyOf : ω → κ
  recordKey : ι → κ
  le : κ → κ → Bool
  /-- What is kept of an observation, beside what its record remembers. -/
  merge : ω → ι → ω
  isOpen : ι → Bool
  /-- The record is resolved, or its work was ended by hand. -/
  isOver : ι → Bool
  verdict : ι → Option ρ

namespace Rules

variable {κ ω ι ρ : Type*} [DecidableEq κ] (R : Rules κ ω ι ρ)

/-- One observation: the record that it matches is taken out of the map. -/
def place (acc : Plan ω ι ρ × List (κ × ι)) (o : ω) : Plan ω ι ρ × List (κ × ι) :=
  match OrderedMap.get acc.2 (R.keyOf o) with
  | none => ({ acc.1 with create := acc.1.create ++ [o] }, acc.2)
  | some i =>
    let left := erase acc.2 (R.keyOf o)
    if R.isOver i then ({ acc.1 with reopen := acc.1.reopen ++ [(i, R.merge o i)] }, left)
    else ({ acc.1 with refresh := acc.1.refresh ++ [(i, R.merge o i)] }, left)

/-- One record that no observation has taken. -/
def conclude (p : Plan ω ι ρ) (i : ι) : Plan ω ι ρ :=
  if R.isOpen i then
    match R.verdict i with
    | some r => { p with resolve := p.resolve ++ [(i, r)] }
    | none => { p with retained := p.retained ++ [i] }
  else p

def sortObservations (os : List ω) : List ω := os.insertionSort fun a b => R.le (R.keyOf a) (R.keyOf b) = true

def sortRecords (is : List ι) : List ι := is.insertionSort fun a b => R.le (R.recordKey a) (R.recordKey b) = true

def plan (observations : List ω) (records : List ι) : Plan ω ι ρ :=
  let current := R.sortObservations (values (byKey R.keyOf observations))
  let placed := current.foldl R.place (⟨[], [], [], [], []⟩, byKey R.recordKey records)
  (R.sortRecords (values placed.2)).foldl R.conclude placed.1

/-- Where an observation goes. -/
def refreshed (m : List (κ × ι)) (o : ω) : Option (ι × ω) :=
  ((OrderedMap.get m (R.keyOf o)).filter fun i => !R.isOver i).map fun i => (i, R.merge o i)

def reopened (m : List (κ × ι)) (o : ω) : Option (ι × ω) :=
  ((OrderedMap.get m (R.keyOf o)).filter fun i => R.isOver i).map fun i => (i, R.merge o i)

def resolved (i : ι) : Option (ι × ρ) := if R.isOpen i then (R.verdict i).map fun r => (i, r) else none

variable {R}

theorem refreshed_erase (m : List (κ × ι)) {k : κ} {o : ω} (h : R.keyOf o ≠ k) :
    R.refreshed (erase m k) o = R.refreshed m o ∧ R.reopened (erase m k) o = R.reopened m o ∧
      OrderedMap.get (erase m k) (R.keyOf o) = OrderedMap.get m (R.keyOf o) := by
  have hget : OrderedMap.get (erase m k) (R.keyOf o) = OrderedMap.get m (R.keyOf o) := by
    rw [get_erase, if_neg h]
  unfold refreshed reopened
  rw [hget]
  exact ⟨rfl, rfl, rfl⟩

/-- Observations with distinct keys do not see what the others take out. -/
theorem foldl_place (os : List ω) (hnd : (os.map R.keyOf).Nodup) (p : Plan ω ι ρ) (m : List (κ × ι)) :
    os.foldl R.place (p, m) =
      ({ p with
          create := p.create ++ os.filter fun o => (OrderedMap.get m (R.keyOf o)).isNone
          refresh := p.refresh ++ os.filterMap (R.refreshed m)
          reopen := p.reopen ++ os.filterMap (R.reopened m) },
        m.filter fun e => e.1 ∉ os.map R.keyOf) := by
  induction os generalizing p m with
  | nil => simp
  | cons o os ih =>
    rw [List.map_cons, List.nodup_cons] at hnd
    have hne : ∀ o' ∈ os, R.keyOf o' ≠ R.keyOf o := fun o' ho' h => hnd.1 (List.mem_map.mpr ⟨o', ho', h⟩)
    rw [List.foldl_cons]
    rcases hget : OrderedMap.get m (R.keyOf o) with _ | i
    · have hplace : R.place (p, m) o = ({ p with create := p.create ++ [o] }, m) := by
        unfold place
        simp only [hget]
      have habsent : ∀ e ∈ m, e.1 ≠ R.keyOf o := by
        intro e he hk
        exact OrderedMap.get_eq_none_iff.mp hget (List.mem_map.mpr ⟨e, he, hk⟩)
      rw [hplace, ih hnd.2]
      congr 1
      · simp [refreshed, reopened, hget]
      · refine List.filter_congr fun e he => ?_
        simp [habsent e he]
    · have hfilter : os.filter (fun o' => (OrderedMap.get (erase m (R.keyOf o)) (R.keyOf o')).isNone) =
          os.filter fun o' => (OrderedMap.get m (R.keyOf o')).isNone :=
        List.filter_congr fun o' ho' => by rw [(refreshed_erase m (hne o' ho')).2.2]
      have hrefresh : os.filterMap (R.refreshed (erase m (R.keyOf o))) = os.filterMap (R.refreshed m) :=
        List.filterMap_congr fun o' ho' => (refreshed_erase m (hne o' ho')).1
      have hreopen : os.filterMap (R.reopened (erase m (R.keyOf o))) = os.filterMap (R.reopened m) :=
        List.filterMap_congr fun o' ho' => (refreshed_erase m (hne o' ho')).2.1
      have hleft : (erase m (R.keyOf o)).filter (fun e => e.1 ∉ os.map R.keyOf) =
          m.filter fun e => e.1 ∉ (o :: os).map R.keyOf := by
        unfold erase
        rw [List.filter_filter]
        refine List.filter_congr fun e _ => ?_
        simp only [List.map_cons, List.mem_cons, not_or, Bool.decide_and]
        exact Bool.and_comm _ _
      by_cases hover : R.isOver i
      · have hplace : R.place (p, m) o =
            ({ p with reopen := p.reopen ++ [(i, R.merge o i)] }, erase m (R.keyOf o)) := by
          unfold place
          simp only [hget, hover, if_true]
        rw [hplace, ih hnd.2, hfilter, hrefresh, hreopen, hleft]
        simp [refreshed, reopened, hget, hover]
      · have hplace : R.place (p, m) o =
            ({ p with refresh := p.refresh ++ [(i, R.merge o i)] }, erase m (R.keyOf o)) := by
          unfold place
          simp only [hget, hover, if_false, Bool.false_eq_true]
        rw [hplace, ih hnd.2, hfilter, hrefresh, hreopen, hleft]
        simp [refreshed, reopened, hget, hover]

omit [DecidableEq κ] in
theorem foldl_conclude (is : List ι) (p : Plan ω ι ρ) :
    is.foldl R.conclude p =
      { p with
        resolve := p.resolve ++ is.filterMap R.resolved
        retained := p.retained ++ is.filter fun i => R.isOpen i && (R.verdict i).isNone } := by
  induction is generalizing p with
  | nil => simp
  | cons i is ih =>
    rw [List.foldl_cons, ih]
    unfold conclude
    by_cases hopen : R.isOpen i
    · rcases hv : R.verdict i with _ | r <;> simp [hopen, hv, resolved]
    · simp [hopen, resolved]

/-! The plan, list by list. -/

section
variable {observations : List ω} {records : List ι}

/-- The observations that count: the last of each key. -/
def current (R : Rules κ ω ι ρ) (observations : List ω) : List ω := values (byKey R.keyOf observations)

theorem nodup_current : ((R.current observations).map R.keyOf).Nodup := by
  unfold current
  rw [keys_values_byKey]
  exact nodup_byKey

omit [DecidableEq κ] in
theorem perm_sortObservations (os : List ω) : (R.sortObservations os).Perm os := List.perm_insertionSort _ _

omit [DecidableEq κ] in
theorem perm_sortRecords (is : List ι) : (R.sortRecords is).Perm is := List.perm_insertionSort _ _

theorem plan_eq : R.plan observations records =
    { create := (R.sortObservations (R.current observations)).filter fun o =>
        (OrderedMap.get (byKey R.recordKey records) (R.keyOf o)).isNone
      refresh := (R.sortObservations (R.current observations)).filterMap (R.refreshed (byKey R.recordKey records))
      reopen := (R.sortObservations (R.current observations)).filterMap (R.reopened (byKey R.recordKey records))
      resolve := (R.sortRecords (values ((byKey R.recordKey records).filter fun e =>
        e.1 ∉ (R.current observations).map R.keyOf))).filterMap R.resolved
      retained := (R.sortRecords (values ((byKey R.recordKey records).filter fun e =>
        e.1 ∉ (R.current observations).map R.keyOf))).filter fun i => R.isOpen i && (R.verdict i).isNone } := by
  have hperm := perm_sortObservations (R := R) (R.current observations)
  have hnd : ((R.sortObservations (R.current observations)).map R.keyOf).Nodup :=
    (hperm.map R.keyOf).nodup_iff.mpr nodup_current
  have hmem : ∀ k, k ∈ (R.sortObservations (R.current observations)).map R.keyOf ↔
      k ∈ (R.current observations).map R.keyOf := fun k => (hperm.map R.keyOf).mem_iff
  unfold plan
  change List.foldl R.conclude (List.foldl R.place _ (R.sortObservations (R.current observations))).1 (R.sortRecords
    (values (List.foldl R.place _ (R.sortObservations (R.current observations))).2)) = _
  rw [foldl_place _ hnd, foldl_conclude]
  simp only [List.nil_append, hmem]

theorem mem_current {o : ω} (h : o ∈ R.current observations) : o ∈ observations := by
  obtain ⟨e, he, rfl⟩ := List.mem_map.mp h
  exact (mem_byKey he).2

theorem key_mem_current {o : ω} (h : o ∈ observations) : R.keyOf o ∈ (R.current observations).map R.keyOf := by
  unfold current
  rw [keys_values_byKey]
  exact mem_keys_byKey h

variable (hrecords : (records.map R.recordKey).Nodup)

include hrecords

theorem mem_create {o : ω} : o ∈ (R.plan observations records).create ↔
    o ∈ R.current observations ∧ ∀ i ∈ records, R.recordKey i ≠ R.keyOf o := by
  rw [plan_eq, List.mem_filter, (perm_sortObservations _).mem_iff, Option.isNone_iff_eq_none,
    Option.eq_none_iff_forall_ne_some]
  refine and_congr_right fun _ => ⟨fun h i hi hk => h i ((get_byKey hrecords).mpr ⟨hi, hk⟩), fun h i hget => ?_⟩
  obtain ⟨hi, hk⟩ := (get_byKey hrecords).mp hget
  exact h i hi hk

omit [DecidableEq κ] hrecords in
theorem exists_merged {p : ι → Prop} {i : ι} {k : κ} {o : ω} {f : ι → ω} :
    (∃ i', ((i' ∈ records ∧ R.recordKey i' = k) ∧ p i') ∧ i' = i ∧ f i' = o) ↔
      i ∈ records ∧ R.recordKey i = k ∧ p i ∧ o = f i := by
  constructor
  · rintro ⟨i', ⟨⟨hi, hk⟩, hp⟩, rfl, rfl⟩
    exact ⟨hi, hk, hp, rfl⟩
  · rintro ⟨hi, hk, hp, rfl⟩
    exact ⟨i, ⟨⟨hi, hk⟩, hp⟩, rfl, rfl⟩

theorem mem_refresh {i : ι} {o : ω} : (i, o) ∈ (R.plan observations records).refresh ↔
    ∃ o₀ ∈ R.current observations, i ∈ records ∧ R.recordKey i = R.keyOf o₀ ∧ R.isOver i = false ∧
      o = R.merge o₀ i := by
  rw [plan_eq]
  simp only [List.mem_filterMap, (perm_sortObservations _).mem_iff, refreshed, Option.map_eq_some_iff,
    Option.filter_eq_some_iff, get_byKey hrecords, Bool.not_eq_true', Prod.mk.injEq, exists_merged]

theorem mem_reopen {i : ι} {o : ω} : (i, o) ∈ (R.plan observations records).reopen ↔
    ∃ o₀ ∈ R.current observations, i ∈ records ∧ R.recordKey i = R.keyOf o₀ ∧ R.isOver i = true ∧
      o = R.merge o₀ i := by
  rw [plan_eq]
  simp only [List.mem_filterMap, (perm_sortObservations _).mem_iff, reopened, Option.map_eq_some_iff,
    Option.filter_eq_some_iff, get_byKey hrecords, Prod.mk.injEq, exists_merged]

/-- The records that no observation takes. -/
theorem mem_left {i : ι} : i ∈ values ((byKey R.recordKey records).filter fun e =>
      e.1 ∉ (R.current observations).map R.keyOf) ↔
    i ∈ records ∧ ∀ o ∈ observations, R.keyOf o ≠ R.recordKey i := by
  have hobserved : ∀ k, k ∈ (R.current observations).map R.keyOf ↔ ∃ o ∈ observations, R.keyOf o = k := by
    intro k
    constructor
    · intro h
      obtain ⟨o, ho, rfl⟩ := List.mem_map.mp h
      exact ⟨o, mem_current ho, rfl⟩
    · rintro ⟨o, ho, rfl⟩
      exact key_mem_current ho
  unfold values
  simp only [List.mem_map, List.mem_filter, decide_eq_true_eq]
  constructor
  · rintro ⟨e, ⟨he, hfree⟩, rfl⟩
    obtain ⟨hk, hmem⟩ := mem_byKey he
    refine ⟨hmem, fun o ho hko => hfree ?_⟩
    rw [← List.mem_map, hobserved]
    exact ⟨o, ho, hko.trans hk.symm⟩
  · rintro ⟨hi, hfree⟩
    have hget := (get_byKey hrecords).mpr ⟨hi, rfl⟩
    refine ⟨_, ⟨OrderedMap.mem_of_get hget, ?_⟩, rfl⟩
    rw [← List.mem_map, hobserved]
    rintro ⟨o, ho, hko⟩
    exact hfree o ho hko

theorem mem_resolve {i : ι} {r : ρ} : (i, r) ∈ (R.plan observations records).resolve ↔
    i ∈ records ∧ (∀ o ∈ observations, R.keyOf o ≠ R.recordKey i) ∧ R.isOpen i = true ∧ R.verdict i = some r := by
  rw [plan_eq, ← and_assoc, ← mem_left hrecords]
  simp only [List.mem_filterMap, (perm_sortRecords _).mem_iff]
  constructor
  · rintro ⟨i', hi', hr⟩
    unfold resolved at hr
    split_ifs at hr with hopen
    obtain ⟨r', hv, he⟩ := Option.map_eq_some_iff.mp hr
    cases he
    exact ⟨hi', hopen, hv⟩
  · rintro ⟨hi, hopen, hv⟩
    refine ⟨i, hi, ?_⟩
    unfold resolved
    rw [if_pos hopen, hv]
    rfl

theorem mem_retained {i : ι} : i ∈ (R.plan observations records).retained ↔
    i ∈ records ∧ (∀ o ∈ observations, R.keyOf o ≠ R.recordKey i) ∧ R.isOpen i = true ∧ R.verdict i = none := by
  rw [plan_eq, ← and_assoc, ← mem_left hrecords, List.mem_filter, (perm_sortRecords _).mem_iff, Bool.and_eq_true,
    Option.isNone_iff_eq_none]

omit hrecords

/-- A record found in the map has the key that it was found by. -/
theorem recordKey_of_get {k : κ} {i : ι} (h : OrderedMap.get (byKey R.recordKey records) k = some i) :
    R.recordKey i = k :=
  (mem_byKey (OrderedMap.mem_of_get h)).1.symm

/-- Every key that is observed is in exactly one of the three lists, once. -/
theorem placed_perm : ((R.plan observations records).create.map R.keyOf ++
      ((R.plan observations records).refresh.map fun t => R.recordKey t.1) ++
      (R.plan observations records).reopen.map fun t => R.recordKey t.1).Perm ((R.current observations).map R.keyOf) := by
  rw [plan_eq]
  refine List.Perm.trans ?_ ((perm_sortObservations (R := R) (R.current observations)).map R.keyOf)
  generalize R.sortObservations (R.current observations) = os
  induction os with
  | nil => exact .refl _
  | cons o os ih =>
    rcases hget : OrderedMap.get (byKey R.recordKey records) (R.keyOf o) with _ | i
    · simpa [refreshed, reopened, hget] using ih
    · by_cases hover : R.isOver i
      · simp only [List.filter_cons, hget, Option.isNone_some, List.filterMap_cons, refreshed, reopened,
          Option.filter_some, hover, Bool.not_true, Bool.false_eq_true, if_false, if_true, Option.map_none,
          Option.map_some, List.map_cons, recordKey_of_get hget]
        exact List.perm_middle.trans (ih.cons _)
      · simp only [List.filter_cons, hget, Option.isNone_some, List.filterMap_cons, refreshed, reopened,
          Option.filter_some, hover, Bool.not_false, Bool.false_eq_true, if_false, if_true, Option.map_none,
          Option.map_some, List.map_cons, recordKey_of_get hget]
        simp only [List.append_assoc] at ih ⊢
        exact List.perm_middle.trans (ih.cons _)

/-- Every open record that no observation takes is in exactly one of the two lists, once. -/
theorem left_perm : ((R.plan observations records).resolve.map Prod.fst ++
    (R.plan observations records).retained).Perm ((values ((byKey R.recordKey records).filter fun e =>
      e.1 ∉ (R.current observations).map R.keyOf)).filter R.isOpen) := by
  rw [plan_eq]
  refine List.Perm.trans ?_ ((perm_sortRecords (R := R) _).filter R.isOpen)
  generalize R.sortRecords _ = is
  induction is with
  | nil => exact .refl _
  | cons i is ih =>
    by_cases hopen : R.isOpen i
    · rcases hv : R.verdict i with _ | r
      · simp only [List.filterMap_cons, resolved, hopen, hv, if_true, Option.map_none, List.filter_cons, Option.isNone_none,
          Bool.and_self]
        exact List.perm_middle.trans (ih.cons _)
      · simpa [List.filterMap_cons, resolved, hopen, hv] using ih
    · simpa [List.filterMap_cons, resolved, hopen] using ih

theorem nodup_left : ((values ((byKey R.recordKey records).filter fun e =>
    e.1 ∉ (R.current observations).map R.keyOf)).map R.recordKey).Nodup := by
  have hkeys : (((byKey R.recordKey records).filter fun e => e.1 ∉ (R.current observations).map R.keyOf).map
      (R.recordKey ∘ Prod.snd)) = OrderedMap.keys ((byKey R.recordKey records).filter fun e =>
        e.1 ∉ (R.current observations).map R.keyOf) :=
    List.map_congr_left fun e he => (mem_byKey (List.mem_of_mem_filter he)).1.symm
  unfold values
  rw [List.map_map, hkeys]
  exact List.Nodup.sublist (List.filter_sublist.map Prod.fst) nodup_byKey

/-- An observed key is created, refreshed or reopened, once. -/
theorem count_placed [BEq κ] [LawfulBEq κ] {o : ω} (ho : o ∈ observations) : ((R.plan observations records).create.map R.keyOf ++
      ((R.plan observations records).refresh.map fun t => R.recordKey t.1) ++
      (R.plan observations records).reopen.map fun t => R.recordKey t.1).count (R.keyOf o) = 1 := by
  rw [placed_perm.count_eq]
  exact List.count_eq_one_of_mem nodup_current (key_mem_current ho)

/-- An open record that is not observed is resolved or retained, once. -/
theorem count_left [BEq κ] [LawfulBEq κ] (hrecords : (records.map R.recordKey).Nodup) {i : ι} (hi : i ∈ records) (hopen : R.isOpen i = true)
    (hfree : ∀ o ∈ observations, R.keyOf o ≠ R.recordKey i) :
    (((R.plan observations records).resolve.map Prod.fst ++ (R.plan observations records).retained).map
      R.recordKey).count (R.recordKey i) = 1 := by
  have hleft := (mem_left hrecords).mpr ⟨hi, hfree⟩
  rw [(left_perm.map R.recordKey).count_eq]
  refine List.count_eq_one_of_mem ?_ (List.mem_map.mpr ⟨i, List.mem_filter.mpr ⟨hleft, hopen⟩, rfl⟩)
  exact List.Nodup.sublist (List.filter_sublist.map R.recordKey) nodup_left

theorem nodup_opened : ((R.plan observations records).create.map R.keyOf ++
    (R.plan observations records).reopen.map fun t => R.recordKey t.1).Nodup := by
  have hplaced : ((R.plan observations records).create.map R.keyOf ++
      ((R.plan observations records).refresh.map fun t => R.recordKey t.1) ++
      (R.plan observations records).reopen.map fun t => R.recordKey t.1).Nodup := placed_perm.nodup_iff.mpr nodup_current
  exact hplaced.sublist ((List.sublist_append_left _ _).append_right _)

theorem nodup_resolved : ((R.plan observations records).resolve.map fun t => R.recordKey t.1).Nodup := by
  have hleft : ((R.plan observations records).resolve.map fun t => R.recordKey t.1).Sublist
      (((R.plan observations records).resolve.map Prod.fst ++ (R.plan observations records).retained).map
        R.recordKey) := by
    rw [List.map_append, List.map_map]
    exact List.sublist_append_left _ _
  refine List.Nodup.sublist hleft ?_
  rw [(left_perm.map R.recordKey).nodup_iff]
  exact List.Nodup.sublist (List.filter_sublist.map R.recordKey) nodup_left

/-- No record is taken twice. -/
theorem taken_nodup (hrecords : (records.map R.recordKey).Nodup) :
    (((R.plan observations records).refresh.map Prod.fst ++ (R.plan observations records).reopen.map Prod.fst ++
      (R.plan observations records).resolve.map Prod.fst).map R.recordKey).Nodup := by
  have hplaced : ((R.plan observations records).create.map R.keyOf ++
      ((R.plan observations records).refresh.map fun t => R.recordKey t.1) ++
      (R.plan observations records).reopen.map fun t => R.recordKey t.1).Nodup := placed_perm.nodup_iff.mpr nodup_current
  rw [List.append_assoc, List.nodup_append] at hplaced
  simp only [List.map_append, List.map_map]
  refine hplaced.2.1.append nodup_resolved ?_
  · intro k hk hk'
    obtain ⟨t, ht, rfl⟩ := List.mem_map.mp hk'
    obtain ⟨_, hfree, _, _⟩ := (mem_resolve hrecords).mp ht
    rcases List.mem_append.mp hk with hk | hk
    · obtain ⟨t', ht', hkey⟩ := List.mem_map.mp hk
      obtain ⟨o, ho, _, hko, _⟩ := (mem_refresh hrecords).mp ht'
      exact hfree o (mem_current ho) (hko.symm.trans hkey)
    · obtain ⟨t', ht', hkey⟩ := List.mem_map.mp hk
      obtain ⟨o, ho, _, hko, _⟩ := (mem_reopen hrecords).mp ht'
      exact hfree o (mem_current ho) (hko.symm.trans hkey)

end

end Rules

end Mydon.Lib.Matching
