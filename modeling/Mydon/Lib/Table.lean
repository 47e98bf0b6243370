import Mathlib.Algebra.Order.BigOperators.Group.List
import Mathlib.Data.List.Nodup
import Mathlib.Tactic.Linarith
import Mathlib.Tactic.Ring

/-! Tables as lists of rows. A key is a function of the row, unique where the rows'
keys have no duplicates; a write replaces the row that has the key of the new one. -/

namespace Mydon.Lib.Table

variable {ρ κ β : Type*} [DecidableEq κ]

def lookup (key : ρ → κ) (rows : List ρ) (k : κ) : Option ρ := rows.find? fun r => key r = k

def write (key : ρ → κ) (rows : List ρ) (row : ρ) : List ρ :=
  rows.map fun r => if key r = key row then row else r

variable {key : ρ → κ} {rows : List ρ} {row : ρ} {k : κ}

theorem mem_of_lookup (h : lookup key rows k = some row) : row ∈ rows := List.mem_of_find?_eq_some h

theorem key_of_lookup (h : lookup key rows k = some row) : key row = k := by
  simpa using List.find?_some h

theorem lookup_eq_none_iff : lookup key rows k = none ↔ ∀ r ∈ rows, key r ≠ k := by
  simp [lookup]

omit [DecidableEq κ] in
/-- Rows with one unique key are one row. -/
theorem eq_of_key_eq (hnd : (rows.map key).Nodup) {r r' : ρ} (hr : r ∈ rows) (hr' : r' ∈ rows)
    (h : key r = key r') : r = r' := List.inj_on_of_nodup_map hnd hr hr' h

theorem filter_key_eq (hnd : (rows.map key).Nodup) (hrow : row ∈ rows) : (rows.filter fun r => key r = key row) = [row] := by
  induction rows with
  | nil => cases hrow
  | cons r rows ih =>
    rw [List.map_cons, List.nodup_cons] at hnd
    have hother : ∀ r' ∈ rows, key r' ≠ key r := fun r' hr' hk => hnd.1 (List.mem_map.mpr ⟨r', hr', hk⟩)
    rcases List.mem_cons.mp hrow with rfl | hmem
    · rw [List.filter_cons_of_pos (by simp), List.filter_eq_nil_iff.mpr (by simpa using hother)]
    · rw [List.filter_cons_of_neg (by simpa using Ne.symm (hother row hmem)), ih hnd.2 hmem]

theorem lookup_eq_some_iff (hnd : (rows.map key).Nodup) :
    lookup key rows k = some row ↔ row ∈ rows ∧ key row = k := by
  refine ⟨fun h => ⟨mem_of_lookup h, key_of_lookup h⟩, fun ⟨hm, hk⟩ => ?_⟩
  cases h : lookup key rows k with
  | none => exact absurd hk (lookup_eq_none_iff.mp h row hm)
  | some r =>
    rw [eq_of_key_eq hnd (mem_of_lookup h) hm ((key_of_lookup h).trans hk.symm)]

theorem mem_write {r : ρ} :
    r ∈ write key rows row ↔ (r ∈ rows ∧ key r ≠ key row) ∨ (r = row ∧ ∃ r₀ ∈ rows, key r₀ = key row) := by
  unfold write
  rw [List.mem_map]
  constructor
  · rintro ⟨r₀, hr₀, rfl⟩
    split_ifs with h
    · exact .inr ⟨rfl, r₀, hr₀, h⟩
    · exact .inl ⟨hr₀, h⟩
  · rintro (⟨hr, hne⟩ | ⟨rfl, r₀, hr₀, h⟩)
    · exact ⟨r, hr, if_neg hne⟩
    · exact ⟨r₀, hr₀, if_pos h⟩

theorem mem_write_of_ne {r : ρ} (hr : r ∈ rows) (hne : key r ≠ key row) : r ∈ write key rows row :=
  mem_write.mpr (.inl ⟨hr, hne⟩)

/-- A column that the write keeps for the row it replaces is kept for the table. -/
theorem map_write (f : ρ → β) (h : ∀ r ∈ rows, key r = key row → f r = f row) :
    (write key rows row).map f = rows.map f := by
  unfold write
  rw [List.map_map]
  refine List.map_congr_left fun r hr => ?_
  simp only [Function.comp_apply]
  split_ifs with hk
  · exact (h r hr hk).symm
  · rfl

@[simp] theorem map_key_write : (write key rows row).map key = rows.map key :=
  map_write key fun _ _ h => h

theorem lookup_write_self {r₀ : ρ} (h : lookup key rows (key row) = some r₀) :
    lookup key (write key rows row) (key row) = some row := by
  induction rows with
  | nil => simp [lookup] at h
  | cons r rows ih =>
    by_cases hk : key r = key row
    · simp [lookup, write, hk]
    · have h' : lookup key rows (key row) = some r₀ := by simpa [lookup, hk] using h
      simpa [lookup, write, hk] using ih h'

theorem lookup_write_of_ne (hne : k ≠ key row) : lookup key (write key rows row) k = lookup key rows k := by
  induction rows with
  | nil => rfl
  | cons r rows ih =>
    unfold lookup write at ih ⊢
    rw [List.map_cons, List.find?_cons, List.find?_cons, ih]
    by_cases hk : key r = key row
    · simp [hk, Ne.symm hne]
    · simp [hk]

theorem lookup_append {news : List ρ} :
    lookup key (rows ++ news) k = (lookup key rows k).or (lookup key news k) := List.find?_append

theorem lookup_map {f : ρ → ρ} (hf : ∀ r, key (f r) = key r) :
    lookup key (rows.map f) k = (lookup key rows k).map f := by
  unfold lookup
  rw [List.find?_map]
  congr 2
  funext r
  simp only [Function.comp_apply, hf]

omit [DecidableEq κ] in
/-- A row with a key of its own is added. -/
theorem nodup_append_singleton (hnd : (rows.map key).Nodup) (hne : ∀ r ∈ rows, key r ≠ key row) :
    ((rows ++ [row]).map key).Nodup := by
  rw [List.map_append, List.map_singleton, List.nodup_append]
  refine ⟨hnd, List.nodup_singleton _, fun k hk k' hk' => ?_⟩
  obtain ⟨r, hr, rfl⟩ := List.mem_map.mp hk
  rw [List.mem_singleton.mp hk']
  exact hne r hr

/-- `update … where key = k`. -/
def update (key : ρ → κ) (rows : List ρ) (k : κ) (f : ρ → ρ) : List ρ := rows.map fun r => if key r = k then f r else r

theorem lookup_update {k' : κ} {f : ρ → ρ} (hf : ∀ r, key (f r) = key r) :
    lookup key (update key rows k' f) k = if k = k' then (lookup key rows k).map f else lookup key rows k := by
  unfold update
  rw [lookup_map fun r => by split_ifs <;> simp [hf]]
  rcases hrow : lookup key rows k with _ | r
  · simp
  · simp only [Option.map_some, key_of_lookup hrow]
    split_ifs <;> rfl

theorem map_update {k' : κ} {f : ρ → ρ} (g : ρ → β) (hf : ∀ r, g (f r) = g r) :
    (update key rows k' f).map g = rows.map g := by
  unfold update
  rw [List.map_map]
  refine List.map_congr_left fun r _ => ?_
  rw [Function.comp_apply]
  split_ifs
  · exact hf r
  · rfl

theorem lookup_filter_ne {k' : κ} :
    lookup key (rows.filter fun r => key r ≠ k') k = if k = k' then none else lookup key rows k := by
  split_ifs with hk
  · refine lookup_eq_none_iff.mpr fun r hr => ?_
    rw [hk]
    simpa using (List.mem_filter.mp hr).2
  · unfold lookup
    rw [List.find?_filter]
    congr 1
    funext r
    by_cases hr : key r = k <;> simp [hr, hk]

/-- `insert … on conflict (key) do update`. -/
def upsert (key : ρ → κ) (rows : List ρ) (row : ρ) : List ρ :=
  match lookup key rows (key row) with
  | some _ => write key rows row
  | none => rows ++ [row]

theorem lookup_upsert : lookup key (upsert key rows row) k = if k = key row then some row else lookup key rows k := by
  unfold upsert
  rcases hold : lookup key rows (key row) with _ | old <;> dsimp only <;> split_ifs with hk
  · rw [hk, lookup_append, hold]
    simp [lookup]
  · rw [lookup_append]
    have hnone : lookup key [row] k = none := lookup_eq_none_iff.mpr (by simpa using Ne.symm hk)
    rw [hnone, Option.or_none]
  · rw [hk, lookup_write_self hold]
  · exact lookup_write_of_ne hk

theorem nodup_upsert (hnd : (rows.map key).Nodup) : ((upsert key rows row).map key).Nodup := by
  unfold upsert
  rcases hold : lookup key rows (key row) with _ | old
  · exact nodup_append_singleton hnd (lookup_eq_none_iff.mp hold)
  · rwa [map_key_write]

theorem mem_upsert {r : ρ} (hnd : (rows.map key).Nodup) :
    r ∈ upsert key rows row ↔ r = row ∨ r ∈ rows ∧ key r ≠ key row := by
  have hnew := @lookup_eq_some_iff ρ κ _ key (upsert key rows row) r (key r) (nodup_upsert hnd)
  have hold := @lookup_eq_some_iff ρ κ _ key rows r (key r) hnd
  rw [lookup_upsert] at hnew
  by_cases hk : key r = key row
  · rw [if_pos hk] at hnew
    simp only [Option.some.injEq, and_true] at hnew
    simp [← hnew, hk, eq_comm]
  · rw [if_neg hk] at hnew
    have hne : r ≠ row := fun h => hk (congrArg key h)
    simp only [and_true] at hnew hold
    simp [← hnew, hold, hk, hne]

/-- The change that a list of updates makes to one row. -/
def changed (key : ρ → κ) (changes : List (κ × (ρ → ρ))) (r : ρ) : ρ :=
  match changes.find? fun c => c.1 = key r with
  | some c => c.2 r
  | none => r

theorem changed_of_mem {changes : List (κ × (ρ → ρ))} (hnd : (changes.map Prod.fst).Nodup) {c : κ × (ρ → ρ)}
    (hc : c ∈ changes) {r : ρ} (hk : c.1 = key r) : changed key changes r = c.2 r := by
  have hfind : changes.find? (fun c => c.1 = key r) = some c := (lookup_eq_some_iff hnd).mpr ⟨hc, hk⟩
  unfold changed
  rw [hfind]

theorem changed_of_not_mem {changes : List (κ × (ρ → ρ))} {r : ρ} (h : key r ∉ changes.map Prod.fst) :
    changed key changes r = r := by
  have hfind : changes.find? (fun c => c.1 = key r) = none := by
    refine List.find?_eq_none.mpr fun c hc hk => h (List.mem_map.mpr ⟨c, hc, ?_⟩)
    simpa using hk
  unfold changed
  rw [hfind]

/-- What the updates leave of a row: itself, or what the one with its key makes of it. -/
theorem changed_cases (key : ρ → κ) (changes : List (κ × (ρ → ρ))) (r : ρ) :
    (changed key changes r = r ∧ key r ∉ changes.map Prod.fst) ∨
      ∃ c ∈ changes, c.1 = key r ∧ changed key changes r = c.2 r := by
  rcases hf : changes.find? fun c => c.1 = key r with _ | c
  · have hnot : key r ∉ changes.map Prod.fst := by
      intro hmem
      obtain ⟨c, hc, hk⟩ := List.mem_map.mp hmem
      exact absurd hk (by simpa using List.find?_eq_none.mp hf c hc)
    exact .inl ⟨changed_of_not_mem hnot, hnot⟩
  · refine .inr ⟨c, List.mem_of_find?_eq_some hf, by simpa using List.find?_some hf, ?_⟩
    unfold changed
    rw [hf]

/-- Updates of different rows, each of which keeps the key, are made independently. -/
theorem foldl_update (changes : List (κ × (ρ → ρ))) (hnd : (changes.map Prod.fst).Nodup)
    (hkey : ∀ c ∈ changes, ∀ r, key (c.2 r) = key r) :
    changes.foldl (fun rows c => update key rows c.1 c.2) rows = rows.map (changed key changes) := by
  induction changes generalizing rows with
  | nil => exact (List.map_id rows).symm
  | cons c changes ih =>
    rw [List.map_cons, List.nodup_cons] at hnd
    rw [List.foldl_cons, ih hnd.2 fun c' hc' => hkey c' (List.mem_cons_of_mem _ hc')]
    unfold update
    rw [List.map_map]
    refine List.map_congr_left fun r _ => ?_
    rw [Function.comp_apply]
    split_ifs with hk
    · have hkept : key (c.2 r) ∉ changes.map Prod.fst := by
        rw [hkey c List.mem_cons_self, hk]
        exact hnd.1
      rw [changed_of_not_mem hkept]
      unfold changed
      rw [List.find?_cons_of_pos (by simpa using hk.symm)]
    · unfold changed
      rw [List.find?_cons_of_neg (by simpa using Ne.symm hk)]

/-- Writing a row that the filter treats as the old one, and that weighs no more, lowers a sum. -/
theorem sum_write_le (p : ρ → Bool) (f : ρ → ℕ)
    (h : ∀ r ∈ rows, key r = key row → p row = p r ∧ f row ≤ f r) :
    (((write key rows row).filter p).map f).sum ≤ ((rows.filter p).map f).sum := by
  induction rows with
  | nil => simp [write]
  | cons r rows ih =>
    have hrest := ih fun r' hr' => h r' (List.mem_cons_of_mem _ hr')
    unfold write at hrest ⊢
    rw [List.map_cons]
    by_cases hk : key r = key row
    · obtain ⟨hp, hf⟩ := h r List.mem_cons_self hk
      rw [if_pos hk, List.filter_cons, List.filter_cons, hp]
      cases p r
      · exact hrest
      · simp only [if_true, List.map_cons, List.sum_cons]
        omega
    · rw [if_neg hk, List.filter_cons, List.filter_cons]
      cases p r
      · exact hrest
      · simp only [if_true, List.map_cons, List.sum_cons]
        omega

/-! What the rows that pass a test weigh together. -/

def weigh (p : ρ → Bool) (g : ρ → ℚ) (rows : List ρ) : ℚ := ((rows.filter p).map g).sum

section weigh

variable {p q : ρ → Bool} {g : ρ → ℚ} {news : List ρ}

theorem weigh_cons (r : ρ) : weigh p g (r :: rows) = (if p r then g r else 0) + weigh p g rows := by
  unfold weigh
  rw [List.filter_cons]
  split_ifs
  · rw [List.map_cons, List.sum_cons]
  · rw [zero_add]

theorem weigh_append : weigh p g (rows ++ news) = weigh p g rows + weigh p g news := by
  unfold weigh
  rw [List.filter_append, List.map_append, List.sum_append]

theorem weigh_congr {q : ρ → Bool} {g' : ρ → ℚ} (h : ∀ r ∈ rows, p r = q r ∧ (p r = true → g r = g' r)) :
    weigh p g rows = weigh q g' rows := by
  induction rows with
  | nil => rfl
  | cons r rows ih =>
    obtain ⟨hp, hg⟩ := h r List.mem_cons_self
    rw [weigh_cons, weigh_cons, ih fun r' hr' => h r' (List.mem_cons_of_mem _ hr'), ← hp]
    split_ifs with hr
    · rw [hg hr]
    · rfl

theorem weigh_map (f : ρ → ρ) : weigh p g (rows.map f) = weigh (fun r => p (f r)) (fun r => g (f r)) rows := by
  unfold weigh
  rw [List.filter_map, List.map_map]
  rfl

theorem weigh_eq_zero (h : ∀ r ∈ rows, p r = false) : weigh p g rows = 0 := by
  unfold weigh
  rw [List.filter_eq_nil_iff.mpr fun r hr => by simp [h r hr]]
  rfl

theorem weigh_nonneg (h : ∀ r ∈ rows, p r = true → 0 ≤ g r) : 0 ≤ weigh p g rows := by
  unfold weigh
  refine List.sum_nonneg fun x hx => ?_
  obtain ⟨r, hr, rfl⟩ := List.mem_map.mp hx
  exact h r (List.mem_of_mem_filter hr) (List.mem_filter.mp hr).2

/-- Two tests that no row passes both. -/
theorem weigh_or (h : ∀ r ∈ rows, ¬ (p r = true ∧ q r = true)) :
    weigh (fun r => p r || q r) g rows = weigh p g rows + weigh q g rows := by
  induction rows with
  | nil => simp [weigh]
  | cons r rows ih =>
    have hr := h r List.mem_cons_self
    rw [weigh_cons, weigh_cons, weigh_cons, ih fun r' hr' => h r' (List.mem_cons_of_mem _ hr')]
    rcases hp : p r with _ | _ <;> rcases hq : q r with _ | _
    · simp
    · simp only [Bool.false_or, if_true, Bool.false_eq_true, if_false]
      linarith
    · simp only [Bool.or_false, if_true, Bool.false_eq_true, if_false]
      linarith
    · exact absurd ⟨hp, hq⟩ hr

end weigh

/-- A write exchanges the weight of the row that it replaces. -/
theorem weigh_write {p : ρ → Bool} {g : ρ → ℚ} {old : ρ} (hnd : (rows.map key).Nodup)
    (hold : lookup key rows (key row) = some old) :
    weigh p g (write key rows row) + (if p old then g old else 0) = weigh p g rows + if p row then g row else 0 := by
  induction rows with
  | nil => simp [lookup] at hold
  | cons r rows ih =>
    rw [List.map_cons, List.nodup_cons] at hnd
    unfold write at ih ⊢
    rw [List.map_cons, weigh_cons, weigh_cons]
    by_cases hk : key r = key row
    · obtain rfl : r = old := by simpa [lookup, hk] using hold
      have hrest : rows.map (fun r => if key r = key row then row else r) = rows := by
        refine (List.map_congr_left fun r' hr' => if_neg fun hk' => hnd.1 ?_).trans (List.map_id rows)
        rw [hk, ← hk']
        exact List.mem_map_of_mem hr'
      rw [if_pos hk, hrest]
      ring
    · have hrest := ih hnd.2 (by simpa [lookup, hk] using hold)
      rw [if_neg hk]
      linarith

end Mydon.Lib.Table
