import Mathlib.Algebra.GroupWithZero.Nat
import Mathlib.Data.List.Dedup

/-! Maps that remember the order in which their keys were first set, as a list
of entries. Setting a key that is present keeps its place. -/

namespace Mydon.Lib.OrderedMap

variable {K V W : Type*} [DecidableEq K]

def get : List (K × V) → K → Option V
  | [], _ => none
  | (k, v) :: m, key => if k = key then some v else get m key

/-- Set `key` to what `f` makes of its present value, at its place or at the end. -/
def alter (f : Option V → V) (key : K) : List (K × V) → List (K × V)
  | [] => [(key, f none)]
  | (k, v) :: m => if k = key then (k, f (some v)) :: m else (k, v) :: alter f key m

def keys (m : List (K × V)) : List K := m.map Prod.fst

@[simp] theorem get_nil (key : K) : get ([] : List (K × V)) key = none := rfl

omit [DecidableEq K] in
@[simp] theorem keys_nil : keys ([] : List (K × V)) = [] := rfl

omit [DecidableEq K] in
@[simp] theorem keys_cons (e : K × V) (m : List (K × V)) : keys (e :: m) = e.1 :: keys m := rfl

theorem get_alter_self (f : Option V → V) (key : K) (m : List (K × V)) :
    get (alter f key m) key = some (f (get m key)) := by
  induction m with
  | nil => simp [alter, get]
  | cons e m ih =>
    obtain ⟨k, v⟩ := e
    by_cases h : k = key
    · simp [alter, get, h]
    · simp [alter, get, h, ih]

theorem get_alter_of_ne (f : Option V → V) {key other : K} (m : List (K × V)) (hne : key ≠ other) :
    get (alter f key m) other = get m other := by
  induction m with
  | nil => simp [alter, get, hne]
  | cons e m ih =>
    obtain ⟨k, v⟩ := e
    by_cases h : k = key
    · subst h; simp [alter, get, hne]
    · simp [alter, get, h, ih]

theorem get_alter (f : Option V → V) (key other : K) (m : List (K × V)) :
    get (alter f key m) other = if key = other then some (f (get m key)) else get m other := by
  split_ifs with h
  · subst h; exact get_alter_self f key m
  · exact get_alter_of_ne f m h

theorem mem_keys_iff {m : List (K × V)} {key : K} : key ∈ keys m ↔ (get m key).isSome := by
  induction m with
  | nil => simp
  | cons e m ih =>
    obtain ⟨k, v⟩ := e
    by_cases h : k = key
    · simp [get, h]
    · simp [get, h, ih, Ne.symm h]

theorem get_eq_none_iff {m : List (K × V)} {key : K} : get m key = none ↔ key ∉ keys m := by
  rw [mem_keys_iff, Bool.not_eq_true, Option.isSome_eq_false_iff, Option.isNone_iff_eq_none]

/-- The keys of an altered map depend on the old keys alone. -/
theorem keys_alter (f : Option V → V) (key : K) (m : List (K × V)) :
    keys (alter f key m) = if key ∈ keys m then keys m else keys m ++ [key] := by
  induction m with
  | nil => simp [alter]
  | cons e m ih =>
    obtain ⟨k, v⟩ := e
    by_cases h : k = key
    · simp [alter, h]
    · by_cases hm : key ∈ keys m <;> simp [alter, h, ih, hm, Ne.symm h]

theorem nodup_keys_alter (f : Option V → V) (key : K) {m : List (K × V)} (h : (keys m).Nodup) :
    (keys (alter f key m)).Nodup := by
  rw [keys_alter]
  split_ifs with hm
  · exact h
  · exact h.append (List.nodup_singleton key) (by simpa using hm)

theorem mem_of_get {m : List (K × V)} {key : K} {v : V} (h : get m key = some v) :
    (key, v) ∈ m := by
  induction m with
  | nil => simp at h
  | cons e m ih =>
    obtain ⟨k, w⟩ := e
    by_cases hk : k = key
    · simp_all [get]
    · simp only [get, hk, if_false] at h
      exact List.mem_cons_of_mem _ (ih h)

theorem get_of_mem {m : List (K × V)} (hn : (keys m).Nodup) {key : K} {v : V}
    (h : (key, v) ∈ m) : get m key = some v := by
  induction m with
  | nil => simp at h
  | cons e m ih =>
    obtain ⟨k, w⟩ := e
    rw [keys_cons, List.nodup_cons] at hn
    rcases List.mem_cons.mp h with heq | hm
    · simp_all [get]
    · have hne : k ≠ key := by
        rintro rfl
        exact hn.1 (List.mem_map.mpr ⟨_, hm, rfl⟩)
      simp only [get, hne, if_false]
      exact ih hn.2 hm

theorem filter_key {m : List (K × V)} (hn : (keys m).Nodup) (key : K) :
    (m.filter fun e => e.1 = key) = ((get m key).map fun v => (key, v)).toList := by
  induction m with
  | nil => rfl
  | cons e m ih =>
    obtain ⟨hnot, hrest⟩ := List.nodup_cons.mp hn
    by_cases h : e.1 = key
    · subst h
      have hnone : (m.filter fun e' => e'.1 = e.1) = [] := by
        rw [List.filter_eq_nil_iff]
        intro e' he' heq
        exact hnot (List.mem_map.mpr ⟨e', he', of_decide_eq_true heq⟩)
      simp [get, hnone]
    · simp [get, h, ih hrest]

/-- Two maps that agree on every key have the same entries. -/
theorem perm_of_get {m m' : List (K × V)} (hn : (keys m).Nodup) (hn' : (keys m').Nodup)
    (h : ∀ key, get m key = get m' key) : m.Perm m' := by
  refine (List.perm_ext_iff_of_nodup hn.of_map hn'.of_map).mpr ?_
  rintro ⟨key, v⟩
  constructor
  · intro he
    exact mem_of_get ((h key).symm.trans (get_of_mem hn he))
  · intro he
    exact mem_of_get ((h key).trans (get_of_mem hn' he))

theorem alter_of_notMem (f : Option V → V) {key : K} {m : List (K × V)} (h : key ∉ keys m) :
    alter f key m = m ++ [(key, f none)] := by
  induction m with
  | nil => rfl
  | cons e m ih =>
    rw [keys_cons, List.mem_cons, not_or] at h
    rw [alter, if_neg (Ne.symm h.1), ih h.2, List.cons_append]

theorem alter_congr {f f' : Option V → V} {key : K} {m : List (K × V)}
    (h : f (get m key) = f' (get m key)) : alter f key m = alter f' key m := by
  induction m with
  | nil => simpa [alter] using h
  | cons e m ih =>
    obtain ⟨k, v⟩ := e
    by_cases hk : k = key
    · simp_all [alter, get]
    · simp only [get, hk, if_false] at h
      simp [alter, hk, ih h]

theorem alter_eq_self {f : Option V → V} {key : K} {m : List (K × V)} {v : V}
    (hg : get m key = some v) (hf : f (some v) = v) : alter f key m = m := by
  induction m with
  | nil => simp at hg
  | cons e m ih =>
    obtain ⟨k, w⟩ := e
    by_cases h : k = key
    · simp_all [alter, get]
    · simp only [get, h, if_false] at hg
      simp [alter, h, ih hg]

/-! Setting a key to a value, and deleting it. -/

def set (key : K) (v : V) (m : List (K × V)) : List (K × V) := alter (fun _ => v) key m

def delete (key : K) (m : List (K × V)) : List (K × V) := m.filter fun e => e.1 ≠ key

theorem get_set (key other : K) (v : V) (m : List (K × V)) :
    get (set key v m) other = if key = other then some v else get m other := get_alter _ key other m

/-- A key that is not there is set at the end. -/
theorem set_of_not_mem {key : K} (v : V) {m : List (K × V)} (h : key ∉ keys m) : set key v m = m ++ [(key, v)] := by
  unfold set
  induction m with
  | nil => rfl
  | cons e m ih =>
    obtain ⟨k, w⟩ := e
    rw [keys_cons, List.mem_cons, not_or] at h
    rw [alter, if_neg (Ne.symm h.1), ih h.2, List.cons_append]

/-- Setting entries with distinct keys one by one makes a map of them. -/
theorem foldl_set_eq_append {m entries : List (K × V)} (h : (keys (m ++ entries)).Nodup) :
    entries.foldl (fun m e => set e.1 e.2 m) m = m ++ entries := by
  induction entries generalizing m with
  | nil => simp
  | cons e entries ih =>
    have hnew : e.1 ∉ keys m := by
      intro hmem
      unfold keys at h hmem
      rw [List.map_append, List.nodup_append] at h
      exact h.2.2 _ hmem _ (by simp) rfl
    have happend : (m ++ [(e.1, e.2)]) ++ entries = m ++ e :: entries := by simp
    rw [List.foldl_cons, set_of_not_mem e.2 hnew, ih (by rwa [happend]), happend]

theorem mem_set {key : K} {v : V} {m : List (K × V)} {e : K × V} (h : e ∈ set key v m) : e ∈ m ∨ e = (key, v) := by
  unfold set at h
  induction m with
  | nil => exact .inr (List.mem_singleton.mp h)
  | cons e' m ih =>
    obtain ⟨k, w⟩ := e'
    unfold alter at h
    split_ifs at h with hk
    · rcases List.mem_cons.mp h with rfl | hm
      · exact .inr (by rw [hk])
      · exact .inl (List.mem_cons_of_mem _ hm)
    · rcases List.mem_cons.mp h with rfl | hm
      · exact .inl List.mem_cons_self
      · exact (ih hm).imp_left (List.mem_cons_of_mem _)

theorem length_set_le (key : K) (v : V) (m : List (K × V)) : (set key v m).length ≤ m.length + 1 := by
  have hkeys := congrArg List.length (keys_alter (fun _ => v) key m)
  unfold keys at hkeys
  rw [List.length_map] at hkeys
  unfold set
  split_ifs at hkeys <;> simp at hkeys <;> omega

theorem get_delete (key other : K) (m : List (K × V)) :
    get (delete key m) other = if key = other then none else get m other := by
  induction m with
  | nil => simp [delete]
  | cons e m ih =>
    obtain ⟨k, v⟩ := e
    unfold delete at ih ⊢
    by_cases hk : k = key
    · subst hk
      rw [List.filter_cons_of_neg (by simp), ih]
      by_cases ho : k = other <;> simp [get, ho]
    · rw [List.filter_cons_of_pos (by simpa using hk), get, get, ih]
      by_cases ho : k = other
      · subst ho
        simp [Ne.symm hk]
      · simp [ho]

theorem length_delete_lt {key : K} {v : V} {m : List (K × V)} (h : get m key = some v) :
    (delete key m).length < m.length :=
  List.length_filter_lt_length_iff_exists.mpr ⟨(key, v), mem_of_get h, by simp⟩

/-- A weight of the values that the change raises by `n` rises by `n` in all. -/
theorem sum_alter {c : V → ℕ} {f : Option V → V} {n : ℕ} (hf : ∀ o, c (f o) = (o.map c).getD 0 + n)
    (key : K) (m : List (K × V)) :
    ((alter f key m).map fun e => c e.2).sum = (m.map fun e => c e.2).sum + n := by
  induction m with
  | nil => simp [alter, hf]
  | cons e m ih =>
    obtain ⟨k, v⟩ := e
    by_cases h : k = key
    · simp [alter, h, hf]
      omega
    · simp [alter, h, ih, Nat.add_assoc]

def mapValues (g : V → W) (m : List (K × V)) : List (K × W) := m.map fun e => (e.1, g e.2)

omit [DecidableEq K] in
@[simp] theorem keys_mapValues (g : V → W) (m : List (K × V)) : keys (mapValues g m) = keys m := by
  simp [keys, mapValues]

theorem get_mapValues (g : V → W) (m : List (K × V)) (key : K) :
    get (mapValues g m) key = (get m key).map g := by
  induction m with
  | nil => rfl
  | cons e m ih =>
    simp only [mapValues, List.map_cons, get] at ih ⊢
    split_ifs <;> simp [ih]

/-- A map of values commutes with setting a key, when it commutes with the change made. -/
theorem mapValues_alter {g : V → W} {f : Option V → V} (f' : Option W → W)
    (hf : ∀ o, g (f o) = f' (o.map g)) (key : K) (m : List (K × V)) :
    mapValues g (alter f key m) = alter f' key (mapValues g m) := by
  induction m with
  | nil => simp [alter, mapValues, hf]
  | cons e m ih =>
    obtain ⟨k, v⟩ := e
    simp only [mapValues, List.map_cons, alter] at ih ⊢
    split_ifs with h
    · simp [hf]
    · simp [ih]

/-- The entries of a list of rows are looked up as the rows are. -/
theorem get_map_entries {ρ : Type*} (rows : List ρ) (f : ρ → K) (g : ρ → V) (key : K) :
    get (rows.map fun r => (f r, g r)) key = (rows.find? fun r => f r = key).map g := by
  induction rows with
  | nil => rfl
  | cons r rows ih =>
    rw [List.map_cons, get, List.find?_cons]
    by_cases h : f r = key
    · simp [h]
    · simp [h, ih]

/-- With distinct keys a map is its list of keys, each with the value it gets. -/
theorem map_entries_eq (hn : (keys (m : List (K × V))).Nodup) (g : K × V → W) (g' : K → W)
    (h : ∀ k v, get m k = some v → g (k, v) = g' k) : m.map g = (keys m).map g' := by
  rw [keys, List.map_map]
  apply List.map_congr_left
  intro e he
  exact h e.1 e.2 (get_of_mem hn he)

/-- A set of keys in the order of their first insertion. -/
def addKey (ks : List K) (key : K) : List K := if key ∈ ks then ks else ks ++ [key]

def keySet (ks : List K) : List K := ks.foldl addKey []

theorem mem_foldl_addKey {base ks : List K} {key : K} : key ∈ ks.foldl addKey base ↔ key ∈ base ∨ key ∈ ks := by
  induction ks generalizing base with
  | nil => simp
  | cons k ks ih =>
    rw [List.foldl_cons, ih, List.mem_cons]
    unfold addKey
    split_ifs with hk
    · exact ⟨fun h => h.imp_right .inr, fun h => h.elim .inl fun h => h.elim (fun h => .inl (h ▸ hk)) .inr⟩
    · rw [List.mem_append, List.mem_singleton, or_assoc]

theorem mem_keySet {ks : List K} {key : K} : key ∈ keySet ks ↔ key ∈ ks := by
  unfold keySet
  rw [mem_foldl_addKey, or_iff_right List.not_mem_nil]

theorem foldl_addKey (base ks : List K) (hk : ks.Nodup) :
    ks.foldl addKey base = base ++ ks.filter (· ∉ base) := by
  induction ks generalizing base with
  | nil => simp
  | cons k ks ih =>
    rw [List.nodup_cons] at hk
    rw [List.foldl_cons, ih _ hk.2]
    by_cases h : k ∈ base
    · simp [addKey, h]
    · have hrest : ks.filter (· ∉ base ++ [k]) = ks.filter (· ∉ base) := by
        apply List.filter_congr
        intro x hx
        have hne : x ≠ k := by rintro rfl; exact hk.1 hx
        simp [hne]
      simp only [addKey, h, if_false, hrest]
      simp [h]

/-- The union of two key lists: the first, then what the second adds. -/
theorem keySet_append (xs ys : List K) (hx : xs.Nodup) (hy : ys.Nodup) :
    keySet (xs ++ ys) = xs ++ ys.filter (· ∉ xs) := by
  rw [keySet, List.foldl_append, foldl_addKey [] xs hx, foldl_addKey _ ys hy]
  simp

end Mydon.Lib.OrderedMap
