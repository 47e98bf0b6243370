import Mathlib.Data.List.Nodup

/-! Tables of which a row is never changed: a row is taken back by another row that names it. -/

namespace Mydon.Lib

/-- How a table names its rows, which rows take others back, and what such a row owes to the other. -/
structure Reversals (α ι : Type*) where
  id : α → ι
  reverses : α → Option ι
  isReversal : α → Prop
  opposite : α → α → Prop

namespace Reversals

variable {α ι : Type*} {R : Reversals α ι} {rows : List α} {row c r : α}

/-- A row is taken back once at most, by a row that is opposite to it, and only rows that take back
nothing themselves are. -/
structure Sound (R : Reversals α ι) (rows : List α) : Prop where
  ids : (rows.map R.id).Nodup
  once : (rows.filterMap R.reverses).Nodup
  named : ∀ c ∈ rows, ∀ i, R.reverses c = some i →
    R.isReversal c ∧ ∃ r ∈ rows, R.id r = i ∧ ¬ R.isReversal r ∧ R.opposite c r

theorem Sound.nil : R.Sound [] where
  ids := List.nodup_nil
  once := List.nodup_nil
  named := List.forall_mem_nil _

/-- What takes a row back is never taken back. -/
theorem Sound.never_reversed (h : R.Sound rows) (hc : c ∈ rows) (hrev : (R.reverses c).isSome) (hr : r ∈ rows) :
    R.reverses r ≠ some (R.id c) := by
  intro hnamed
  obtain ⟨i, hi⟩ := Option.isSome_iff_exists.mp hrev
  obtain ⟨-, o, ho, hid, hplain, -⟩ := h.named r hr _ hnamed
  have hsame : o = c := List.inj_on_of_nodup_map h.ids ho hc hid
  subst hsame
  exact hplain (h.named o hc i hi).1

theorem Sound.opposite_of (h : R.Sound rows) (hc : c ∈ rows) (hr : r ∈ rows) (hnamed : R.reverses c = some (R.id r)) :
    R.opposite c r := by
  obtain ⟨-, o, ho, hid, -, hopp⟩ := h.named c hc _ hnamed
  have hsame : o = r := List.inj_on_of_nodup_map h.ids ho hr hid
  rwa [← hsame]

theorem nodup_ids_append (h : (rows.map R.id).Nodup) (hnew : R.id row ∉ rows.map R.id) :
    ((rows ++ [row]).map R.id).Nodup := by
  rw [List.map_append, List.map_singleton, ← List.concat_eq_append]
  exact h.concat hnew

theorem Sound.append_plain (h : R.Sound rows) (hnew : R.id row ∉ rows.map R.id) (hplain : R.reverses row = none) :
    R.Sound (rows ++ [row]) where
  ids := nodup_ids_append h.ids hnew
  once := by
    rw [List.filterMap_append, List.filterMap_cons_none hplain, List.filterMap_nil, List.append_nil]
    exact h.once
  named := by
    intro c hc i hi
    rcases List.mem_append.mp hc with hc | hc
    · obtain ⟨hrev, r, hr, hnamed⟩ := h.named c hc i hi
      exact ⟨hrev, r, List.mem_append_left _ hr, hnamed⟩
    · rw [List.mem_singleton.mp hc, hplain] at hi
      cases hi

/-- A row that was not taken back yet is taken back. -/
theorem Sound.append_reversal (h : R.Sound rows) (hnew : R.id c ∉ rows.map R.id) (hr : r ∈ rows)
    (hplain : ¬ R.isReversal r) (hrev : R.isReversal c) (hnamed : R.reverses c = some (R.id r))
    (hopp : R.opposite c r) (hfirst : R.id r ∉ rows.filterMap R.reverses) : R.Sound (rows ++ [c]) where
  ids := nodup_ids_append h.ids hnew
  once := by
    rw [List.filterMap_append, List.filterMap_cons_some hnamed, List.filterMap_nil, ← List.concat_eq_append]
    exact h.once.concat hfirst
  named := by
    intro d hd i hi
    rcases List.mem_append.mp hd with hd | hd
    · obtain ⟨hrev, o, ho, hid⟩ := h.named d hd i hi
      exact ⟨hrev, o, List.mem_append_left _ ho, hid⟩
    · rw [List.mem_singleton] at hd
      subst hd
      rw [hnamed] at hi
      exact ⟨hrev, r, List.mem_append_left _ hr, Option.some.inj hi, hplain, hopp⟩

end Reversals

end Mydon.Lib
