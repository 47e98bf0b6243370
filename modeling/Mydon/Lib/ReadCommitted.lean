import Mathlib.Data.List.Basic

/-! Rows under the isolation level "read committed". A reader sees what was committed last, and a
transaction also what it has written itself. A row that a transaction has written or locked is kept from
all others until it commits or is rolled back. A statement picks its rows when it starts, and looks at
them again when it has their locks. -/

namespace Mydon.Lib.ReadCommitted

variable {α κ : Type*}

structure Cell (α : Type*) where
  committed : Option α
  /-- The transaction that holds the row, and the version it will commit. -/
  pending : Option (ℕ × α)

abbrev Rows (α : Type*) := List (Cell α)

def committed (rows : Rows α) (i : ℕ) : Option α := rows[i]?.bind Cell.committed

def pending (rows : Rows α) (i : ℕ) : Option (ℕ × α) := rows[i]?.bind Cell.pending

def Cell.view (t : ℕ) (c : Cell α) : Option α :=
  match c.pending with
  | some (u, v) => if u = t then some v else c.committed
  | none => c.committed

/-- What the transaction sees in a row. -/
def view (t : ℕ) (rows : Rows α) (i : ℕ) : Option α := rows[i]?.bind (Cell.view t)

def Cell.commit (t : ℕ) (c : Cell α) : Cell α :=
  match c.pending with
  | some (u, v) => if u = t then ⟨some v, none⟩ else c
  | none => c

def Cell.rollback (t : ℕ) (c : Cell α) : Cell α :=
  match c.pending with
  | some (u, _) => if u = t then ⟨c.committed, none⟩ else c
  | none => c

def commit (t : ℕ) (rows : Rows α) : Rows α := rows.map (Cell.commit t)

def rollback (t : ℕ) (rows : Rows α) : Rows α := rows.map (Cell.rollback t)

def insert (t : ℕ) (v : α) (rows : Rows α) : Rows α := rows ++ [⟨none, some (t, v)⟩]

/-- The rows a statement picks. -/
def matching (t : ℕ) (p : α → Bool) (rows : Rows α) : List ℕ :=
  (List.range rows.length).filter fun i => (view t rows i).any p

def lockedByOther (t : ℕ) (rows : Rows α) (i : ℕ) : Bool := (pending rows i).any fun w => w.1 != t

/-- The statement waits for a row it picked. -/
def mustWait (t : ℕ) (picked : List ℕ) (rows : Rows α) : Bool := picked.any (lockedByOther t rows)

def Cell.rewrite (t : ℕ) (p : α → Bool) (f : α → α) (c : Cell α) : Cell α :=
  match c.view t with
  | some v => if p v then ⟨c.committed, some (t, f v)⟩ else c
  | none => c

/-- Those of the picked rows that still match are rewritten. -/
def update (t : ℕ) (picked : List ℕ) (p : α → Bool) (f : α → α) (rows : Rows α) : Rows α :=
  rows.mapIdx fun i c => if i ∈ picked then c.rewrite t p f else c

inductive Check
  | free
  | taken
  | waits
  deriving DecidableEq

section
variable [DecidableEq κ]

/-- May a row other than `i` be in the way of the key: one that another transaction holds and that has
the key before or after it. -/
def inFlight (t i : ℕ) (key : α → Option κ) (k : κ) (rows : Rows α) (j : ℕ) : Bool :=
  j != i && lockedByOther t rows j &&
    ((committed rows j).any (fun v => key v == some k) || (pending rows j).any fun w => key w.2 == some k)

def occupied (t i : ℕ) (key : α → Option κ) (k : κ) (rows : Rows α) (j : ℕ) : Bool :=
  j != i && (view t rows j).any fun v => key v == some k

/-- A unique index looks whether the row `i` may get a key. -/
def checkUnique (t i : ℕ) (key : α → Option κ) (k : κ) (rows : Rows α) : Check :=
  if (List.range rows.length).any (inFlight t i key k rows) then .waits
  else if (List.range rows.length).any (occupied t i key k rows) then .taken
  else .free

end

/-! What each operation leaves. -/

variable {t u i j : ℕ} {rows rows' : Rows α} {v w : α}

theorem view_own (h : pending rows i = some (t, v)) : view t rows i = some v := by
  unfold pending at h
  unfold view
  rcases hi : rows[i]? with _ | c
  · rw [hi] at h
    cases h
  · rw [hi, Option.bind_some] at h
    simp [Cell.view, h]

theorem view_other (h : ∀ v, pending rows i ≠ some (t, v)) : view t rows i = committed rows i := by
  unfold pending at h
  unfold view committed
  rcases hi : rows[i]? with _ | c
  · rfl
  · rw [hi] at h
    simp only [Option.bind_some] at h ⊢
    rcases hc : c.pending with _ | ⟨u, v⟩
    · simp [Cell.view, hc]
    · have hu : u ≠ t := by
        rintro rfl
        exact h v hc
      simp [Cell.view, hc, hu]

theorem view_cases (h : view t rows i = some v) :
    pending rows i = some (t, v) ∨ committed rows i = some v ∧ ∀ w, pending rows i ≠ some (t, w) := by
  by_cases hown : ∃ w, pending rows i = some (t, w)
  · obtain ⟨w, hw⟩ := hown
    rw [view_own hw] at h
    exact .inl (by rw [hw, Option.some.inj h])
  · rw [not_exists] at hown
    rw [view_other hown] at h
    exact .inr ⟨h, hown⟩

theorem lockedByOther_eq_false : lockedByOther t rows i = false ↔ ∀ u v, pending rows i = some (u, v) → u = t := by
  unfold lockedByOther
  rcases pending rows i with _ | ⟨u, v⟩ <;> simp

theorem mustWait_eq_false {picked : List ℕ} :
    mustWait t picked rows = false ↔ ∀ i ∈ picked, ∀ u v, pending rows i = some (u, v) → u = t := by
  simp only [mustWait, List.any_eq_false, Bool.not_eq_true, lockedByOther_eq_false]

theorem mem_matching {p : α → Bool} : i ∈ matching t p rows ↔ ∃ v, view t rows i = some v ∧ p v = true := by
  unfold matching
  rw [List.mem_filter, List.mem_range, Option.any_eq_true]
  refine ⟨fun h => h.2, fun h => ⟨?_, h⟩⟩
  obtain ⟨v, hv, -⟩ := h
  by_contra hlen
  rw [view, List.getElem?_eq_none (Nat.not_lt.mp hlen)] at hv
  cases hv

@[simp] theorem committed_rollback : committed (rollback t rows) i = committed rows i := by
  unfold committed rollback
  rw [List.getElem?_map]
  rcases rows[i]? with _ | c
  · rfl
  · simp only [Option.map_some, Option.bind_some, Cell.rollback]
    split
    · split <;> rfl
    · rfl

theorem pending_rollback_iff : pending (rollback t rows) i = some (u, v) ↔ u ≠ t ∧ pending rows i = some (u, v) := by
  unfold pending rollback
  rw [List.getElem?_map]
  rcases rows[i]? with _ | c
  · simp
  · simp only [Option.map_some, Option.bind_some, Cell.rollback]
    rcases hc : c.pending with _ | ⟨u', v'⟩
    · simp [hc]
    · by_cases hu : u' = t
      · simp only [hu, if_true, reduceCtorEq, Option.some.injEq, Prod.mk.injEq, false_iff, not_and]
        rintro hne rfl
        exact absurd rfl hne
      · simp only [hu, if_false, hc, Option.some.injEq, Prod.mk.injEq, iff_and_self]
        rintro ⟨rfl, -⟩
        exact hu

theorem pending_commit_iff : pending (commit t rows) i = some (u, v) ↔ u ≠ t ∧ pending rows i = some (u, v) := by
  rw [← pending_rollback_iff]
  unfold pending commit rollback
  rw [List.getElem?_map, List.getElem?_map]
  rcases rows[i]? with _ | c
  · rfl
  · simp only [Option.map_some, Option.bind_some, Cell.commit, Cell.rollback]
    rcases c.pending with _ | ⟨u', v'⟩
    · rfl
    · by_cases hu : u' = t <;> simp [hu]

theorem committed_commit_own (h : pending rows i = some (t, v)) : committed (commit t rows) i = some v := by
  unfold pending at h
  unfold committed commit
  rw [List.getElem?_map]
  rcases hi : rows[i]? with _ | c
  · rw [hi] at h
    cases h
  · rw [hi, Option.bind_some] at h
    simp [Cell.commit, h]

theorem committed_commit_other (h : ∀ v, pending rows i ≠ some (t, v)) :
    committed (commit t rows) i = committed rows i := by
  unfold pending at h
  unfold committed commit
  rw [List.getElem?_map]
  rcases hi : rows[i]? with _ | c
  · rfl
  · rw [hi] at h
    simp only [Option.map_some, Option.bind_some] at h ⊢
    rcases hc : c.pending with _ | ⟨u, v⟩
    · simp [Cell.commit, hc]
    · have hu : u ≠ t := by
        rintro rfl
        exact h v hc
      simp [Cell.commit, hc, hu]

theorem committed_commit_cases (h : committed (commit t rows) i = some v) :
    pending rows i = some (t, v) ∨ committed rows i = some v ∧ ∀ w, pending rows i ≠ some (t, w) := by
  by_cases hown : ∃ w, pending rows i = some (t, w)
  · obtain ⟨w, hw⟩ := hown
    rw [committed_commit_own hw] at h
    exact .inl (by rw [hw, Option.some.inj h])
  · rw [not_exists] at hown
    rw [committed_commit_other hown] at h
    exact .inr ⟨h, hown⟩

@[simp] theorem committed_insert : committed (insert t v rows) i = committed rows i := by
  unfold committed insert
  rw [List.getElem?_append]
  by_cases h : i < rows.length
  · rw [if_pos h]
  · rw [if_neg h, @List.getElem?_eq_none _ rows i (Nat.not_lt.mp h)]
    rcases i - rows.length with _ | k <;> rfl

theorem pending_insert : pending (insert t v rows) i = if i = rows.length then some (t, v) else pending rows i := by
  unfold pending insert
  rw [List.getElem?_append]
  by_cases h : i < rows.length
  · rw [if_pos h, if_neg (Nat.ne_of_lt h)]
  · rw [if_neg h]
    by_cases heq : i = rows.length
    · simp [heq]
    · rw [if_neg heq, @List.getElem?_eq_none _ rows i (Nat.not_lt.mp h)]
      rcases hk : i - rows.length with _ | k
      · omega
      · rfl

@[simp] theorem committed_update {picked : List ℕ} {p : α → Bool} {f : α → α} :
    committed (update t picked p f rows) i = committed rows i := by
  unfold committed update
  rw [List.getElem?_mapIdx]
  rcases rows[i]? with _ | c
  · rfl
  · simp only [Option.map_some, Option.bind_some]
    split
    · unfold Cell.rewrite
      split
      · split <;> rfl
      · rfl
    · rfl

theorem pending_update_of_match {picked : List ℕ} {p : α → Bool} {f : α → α} (hi : i ∈ picked)
    (hv : view t rows i = some v) (hp : p v = true) : pending (update t picked p f rows) i = some (t, f v) := by
  unfold view at hv
  unfold pending update
  rw [List.getElem?_mapIdx]
  rcases hc : rows[i]? with _ | c
  · rw [hc] at hv
    cases hv
  · rw [hc, Option.bind_some] at hv
    simp [hi, Cell.rewrite, hv, hp]

theorem pending_update_of_not_match {picked : List ℕ} {p : α → Bool} {f : α → α}
    (h : i ∈ picked → ∀ v, view t rows i = some v → p v = false) :
    pending (update t picked p f rows) i = pending rows i := by
  unfold view at h
  unfold pending update
  rw [List.getElem?_mapIdx]
  rcases hc : rows[i]? with _ | c
  · rfl
  · rw [hc] at h
    simp only [Option.map_some, Option.bind_some]
    by_cases hi : i ∈ picked
    · rw [if_pos hi]
      unfold Cell.rewrite
      rcases hv : c.view t with _ | v
      · rfl
      · simp only [h hi v hv, Bool.false_eq_true, if_false]
    · rw [if_neg hi]

/-- Either the row is as it was, or it matched and is held by the writer now. -/
theorem pending_update_cases (t : ℕ) (picked : List ℕ) (p : α → Bool) (f : α → α) (rows : Rows α) (i : ℕ) :
    (∃ v, i ∈ picked ∧ view t rows i = some v ∧ p v = true ∧ pending (update t picked p f rows) i = some (t, f v)) ∨
      (i ∈ picked → ∀ v, view t rows i = some v → p v = false) ∧
        pending (update t picked p f rows) i = pending rows i := by
  by_cases h : ∃ v, i ∈ picked ∧ view t rows i = some v ∧ p v = true
  · obtain ⟨v, hi, hv, hp⟩ := h
    exact .inl ⟨v, hi, hv, hp, pending_update_of_match hi hv hp⟩
  · have hnot : i ∈ picked → ∀ v, view t rows i = some v → p v = false := fun hi v hv =>
      Bool.eq_false_iff.mpr fun hp => h ⟨v, hi, hv, hp⟩
    exact .inr ⟨hnot, pending_update_of_not_match hnot⟩

theorem view_update_cases (t : ℕ) (picked : List ℕ) (p : α → Bool) (f : α → α) (rows : Rows α) (i : ℕ) :
    (∃ v, i ∈ picked ∧ view t rows i = some v ∧ p v = true ∧ view t (update t picked p f rows) i = some (f v)) ∨
      (i ∈ picked → ∀ v, view t rows i = some v → p v = false) ∧
        view t (update t picked p f rows) i = view t rows i := by
  rcases pending_update_cases t picked p f rows i with ⟨v, hi, hv, hp, heq⟩ | ⟨hnot, heq⟩
  · exact .inl ⟨v, hi, hv, hp, view_own heq⟩
  · refine .inr ⟨hnot, ?_⟩
    by_cases hown : ∃ v, pending rows i = some (t, v)
    · obtain ⟨v, hv⟩ := hown
      rw [view_own hv, view_own (heq.trans hv)]
    · rw [not_exists] at hown
      rw [view_other hown, view_other fun v hv => hown v (heq.symm.trans hv), committed_update]

/-- A row that has been committed is seen. -/
theorem exists_view (h : committed rows i = some v) (t : ℕ) : ∃ w, view t rows i = some w := by
  by_cases hown : ∃ w, pending rows i = some (t, w)
  · obtain ⟨w, hw⟩ := hown
    exact ⟨w, view_own hw⟩
  · rw [not_exists] at hown
    exact ⟨v, (view_other hown).trans h⟩

/-! What a transaction has not committed is nobody else's business. -/

/-- Only what `t` holds has changed. -/
structure Private (t : ℕ) (rows rows' : Rows α) : Prop where
  committed_eq : ∀ i, committed rows' i = committed rows i
  pending_iff : ∀ i u v, u ≠ t → (pending rows' i = some (u, v) ↔ pending rows i = some (u, v))

theorem private_refl (t : ℕ) (rows : Rows α) : Private t rows rows := ⟨fun _ => rfl, fun _ _ _ _ => Iff.rfl⟩

theorem private_rollback (t : ℕ) (rows : Rows α) : Private t rows (rollback t rows) where
  committed_eq _ := committed_rollback
  pending_iff i u v hu := by rw [pending_rollback_iff, and_iff_right hu]

theorem private_insert (t : ℕ) (v : α) (rows : Rows α) : Private t rows (insert t v rows) where
  committed_eq _ := committed_insert
  pending_iff i u w hu := by
    rw [pending_insert]
    split_ifs with hi
    · subst hi
      have hnone : pending rows rows.length = none := by
        rw [pending, List.getElem?_eq_none (Nat.le_refl _)]
        rfl
      rw [hnone]
      simp [hu.symm]
    · rfl

theorem private_update {picked : List ℕ} (hfree : mustWait t picked rows = false) (p : α → Bool) (f : α → α) :
    Private t rows (update t picked p f rows) where
  committed_eq _ := committed_update
  pending_iff i u w hu := by
    rcases pending_update_cases t picked p f rows i with ⟨v, hi, -, -, heq⟩ | ⟨-, heq⟩
    · rw [heq]
      constructor
      · intro h
        exact absurd (congrArg Prod.fst (Option.some.inj h)).symm hu
      · intro h
        exact absurd (mustWait_eq_false.mp hfree i hi u w h) hu
    · rw [heq]

theorem Private.view_eq (h : Private t rows rows') (hu : u ≠ t) (i : ℕ) : view u rows' i = view u rows i := by
  by_cases hown : ∃ v, pending rows i = some (u, v)
  · obtain ⟨v, hv⟩ := hown
    rw [view_own hv, view_own ((h.pending_iff i u v hu).mpr hv)]
  · rw [not_exists] at hown
    rw [view_other hown, view_other fun v hv => hown v ((h.pending_iff i u v hu).mp hv), h.committed_eq]

/-! Unique indexes. A row without a key is not in the index. -/

/-- No two rows have one key, whichever of the transactions in flight are committed. -/
structure Unique (key : α → Option κ) (rows : Rows α) : Prop where
  both_committed : ∀ i j v w k, committed rows i = some v → committed rows j = some w → key v = some k → key w = some k → i = j
  both_pending : ∀ i j t u v w k, pending rows i = some (t, v) → pending rows j = some (u, w) → key v = some k →
    key w = some k → i = j
  mixed : ∀ i j t v w k, pending rows i = some (t, v) → committed rows j = some w → key v = some k →
    key w = some k → i = j ∨ ∃ w', pending rows j = some (t, w')

section
variable {key : α → Option κ} {k : κ}

theorem unique_rollback (h : Unique key rows) (t : ℕ) : Unique key (rollback t rows) where
  both_committed i j v w k hi hj := by
    rw [committed_rollback] at hi hj
    exact h.both_committed i j v w k hi hj
  both_pending i j t' u v w k hi hj :=
    h.both_pending i j t' u v w k (pending_rollback_iff.mp hi).2 (pending_rollback_iff.mp hj).2
  mixed i j t' v w k hi hj hv hw := by
    rw [committed_rollback] at hj
    obtain ⟨hne, hi⟩ := pending_rollback_iff.mp hi
    exact (h.mixed i j t' v w k hi hj hv hw).imp_right fun ⟨w', hw'⟩ => ⟨w', pending_rollback_iff.mpr ⟨hne, hw'⟩⟩

theorem unique_commit (h : Unique key rows) (t : ℕ) : Unique key (commit t rows) where
  both_committed i j v w k hi hj hv hw := by
    rcases committed_commit_cases hi with hi | ⟨hi, hiown⟩ <;> rcases committed_commit_cases hj with hj | ⟨hj, hjown⟩
    · exact h.both_pending i j t t v w k hi hj hv hw
    · rcases h.mixed i j t v w k hi hj hv hw with heq | ⟨w', hw'⟩
      · exact heq
      · exact absurd hw' (hjown w')
    · rcases h.mixed j i t w v k hj hi hw hv with heq | ⟨w', hw'⟩
      · exact heq.symm
      · exact absurd hw' (hiown w')
    · exact h.both_committed i j v w k hi hj hv hw
  both_pending i j t' u v w k hi hj :=
    h.both_pending i j t' u v w k (pending_commit_iff.mp hi).2 (pending_commit_iff.mp hj).2
  mixed i j t' v w k hi hj hv hw := by
    obtain ⟨hne, hi⟩ := pending_commit_iff.mp hi
    rcases committed_commit_cases hj with hj | ⟨hj, -⟩
    · exact .inl (h.both_pending i j t' t v w k hi hj hv hw)
    · exact (h.mixed i j t' v w k hi hj hv hw).imp_right fun ⟨w', hw'⟩ => ⟨w', pending_commit_iff.mpr ⟨hne, hw'⟩⟩

/-- Rewriting rows that nobody else holds, so that they keep their key or lose it. -/
theorem unique_update (h : Unique key rows) {picked : List ℕ} {p : α → Bool} {f : α → α}
    (hfree : mustWait t picked rows = false) (hkey : ∀ v, p v = true → key (f v) = none ∨ key (f v) = key v) :
    Unique key (update t picked p f rows) := by
  -- whoever holds a row with a key held it before, or is the writer and has what was committed
  have hback : ∀ i u v k, pending (update t picked p f rows) i = some (u, v) → key v = some k →
      (∃ v', pending rows i = some (u, v') ∧ key v' = some k) ∨
        u = t ∧ (∃ v', committed rows i = some v' ∧ key v' = some k) ∧ pending rows i = none := by
    intro i u v k hi hv
    rcases pending_update_cases t picked p f rows i with ⟨v', hpicked, hview, hp, heq⟩ | ⟨-, heq⟩
    · rw [heq] at hi
      obtain ⟨rfl, rfl⟩ := Prod.mk.inj (Option.some.inj hi)
      have hkeep : key v' = some k := by
        rcases hkey v' hp with hnone | hsame
        · rw [hnone] at hv
          cases hv
        · rw [← hsame, hv]
      rcases view_cases hview with hown | ⟨hcommitted, hnot⟩
      · exact .inl ⟨v', hown, hkeep⟩
      · refine .inr ⟨rfl, ⟨v', hcommitted, hkeep⟩, ?_⟩
        rcases hpend : pending rows i with _ | ⟨u', w⟩
        · rfl
        · obtain rfl := mustWait_eq_false.mp hfree i hpicked u' w hpend
          exact absurd hpend (hnot w)
    · rw [heq] at hi
      exact .inl ⟨v, hi, hv⟩
  have hforth : ∀ i u w, pending rows i = some (u, w) →
      ∃ w', pending (update t picked p f rows) i = some (u, w') := by
    intro i u w hi
    rcases pending_update_cases t picked p f rows i with ⟨v', hpicked, -, -, heq⟩ | ⟨-, heq⟩
    · obtain rfl := mustWait_eq_false.mp hfree i hpicked u w hi
      exact ⟨_, heq⟩
    · exact ⟨w, heq.trans hi⟩
  constructor
  · intro i j v w k hi hj
    rw [committed_update] at hi hj
    exact h.both_committed i j v w k hi hj
  · intro i j t' u v w k hi hj hv hw
    rcases hback i t' v k hi hv with ⟨v', hi', hv'⟩ | ⟨rfl, ⟨v', hi', hv'⟩, hinone⟩ <;>
      rcases hback j u w k hj hw with ⟨w', hj', hw'⟩ | ⟨rfl, ⟨w', hj', hw'⟩, hjnone⟩
    · exact h.both_pending i j t' u v' w' k hi' hj' hv' hw'
    · rcases h.mixed i j t' v' w' k hi' hj' hv' hw' with heq | ⟨w'', hw''⟩
      · exact heq
      · rw [hjnone] at hw''
        cases hw''
    · rcases h.mixed j i u w' v' k hj' hi' hw' hv' with heq | ⟨w'', hw''⟩
      · exact heq.symm
      · rw [hinone] at hw''
        cases hw''
    · exact h.both_committed i j v' w' k hi' hj' hv' hw'
  · intro i j t' v w k hi hj hv hw
    rw [committed_update] at hj
    rcases hback i t' v k hi hv with ⟨v', hi', hv'⟩ | ⟨rfl, ⟨v', hi', hv'⟩, -⟩
    · exact (h.mixed i j t' v' w k hi' hj hv' hw).imp_right fun ⟨w', hw'⟩ => hforth j t' w' hw'
    · exact .inl (h.both_committed i j v' w k hi' hj hv' hw)

theorem checkUnique_eq_free [DecidableEq κ] (h : checkUnique t i key k rows = .free) {j : ℕ} (hj : j ≠ i) :
    (∀ u w, pending rows j = some (u, w) → u ≠ t →
      key w ≠ some k ∧ ∀ v, committed rows j = some v → key v ≠ some k) ∧
    ∀ v, view t rows j = some v → key v ≠ some k := by
  unfold checkUnique at h
  split_ifs at h with hwaits htaken
  simp only [List.any_eq_true, List.mem_range, not_exists, not_and, Bool.not_eq_true] at hwaits htaken
  have hlen : ∀ {β} {f : Cell α → Option β} {b : β}, rows[j]?.bind f = some b → j < rows.length := by
    intro β f b hb
    by_contra hlen
    rw [List.getElem?_eq_none (Nat.not_lt.mp hlen)] at hb
    cases hb
  constructor
  · intro u w hp hne
    have hno := hwaits j (hlen hp)
    have hlocked : lockedByOther t rows j = true := by simp [lockedByOther, hp, hne]
    simp only [inFlight, bne_iff_ne.mpr hj, hlocked, Bool.true_and, hp, Bool.or_eq_false_iff] at hno
    constructor
    · simpa using hno.2
    · intro v hv
      simpa [hv] using hno.1
  · intro v hv
    simpa [occupied, hj, hv] using htaken j (hlen hv)

/-- Writing a key into one row after the index has been looked at. -/
theorem unique_assign [DecidableEq κ] (h : Unique key rows) (hfree : ∀ u w, pending rows i = some (u, w) → u = t)
    (hkey : key v = some k) (hcheck : checkUnique t i key k rows = .free)
    (hcommitted : ∀ j, committed rows' j = committed rows j)
    (hown : pending rows' i = some (t, v))
    (hothers : ∀ j, j ≠ i → pending rows' j = pending rows j) : Unique key rows' := by
  have hpending : ∀ j u w, j ≠ i → pending rows j = some (u, w) → key w ≠ some k := by
    intro j u w hj hw
    obtain ⟨hflight, hview⟩ := checkUnique_eq_free hcheck hj
    by_cases hu : u = t
    · subst hu
      exact hview w (view_own hw)
    · exact (hflight u w hw hu).1
  have hrow : ∀ j w, j ≠ i → committed rows j = some w → key w = some k → ∃ w', pending rows j = some (t, w') := by
    intro j w hj hw hk
    obtain ⟨hflight, hview⟩ := checkUnique_eq_free hcheck hj
    by_contra hnot
    rw [not_exists] at hnot
    exact hview w ((view_other hnot).trans hw) hk
  constructor
  · intro i' j' v' w' k' hi hj
    rw [hcommitted] at hi hj
    exact h.both_committed i' j' v' w' k' hi hj
  · intro i' j' t' u v' w' k' hi hj hv hw
    by_cases hi' : i' = i <;> by_cases hj' : j' = i
    · rw [hi', hj']
    · subst hi'
      rw [hown] at hi
      obtain ⟨rfl, rfl⟩ := Prod.mk.inj (Option.some.inj hi)
      rw [hkey] at hv
      rw [hothers j' hj'] at hj
      exact absurd (hw.trans hv.symm) (hpending j' u w' hj' hj)
    · subst hj'
      rw [hown] at hj
      obtain ⟨rfl, rfl⟩ := Prod.mk.inj (Option.some.inj hj)
      rw [hkey] at hw
      rw [hothers i' hi'] at hi
      exact absurd (hv.trans hw.symm) (hpending i' t' v' hi' hi)
    · rw [hothers i' hi'] at hi
      rw [hothers j' hj'] at hj
      exact h.both_pending i' j' t' u v' w' k' hi hj hv hw
  · intro i' j' t' v' w' k' hi hj hv hw
    rw [hcommitted] at hj
    by_cases hi' : i' = i
    · subst hi'
      rw [hown] at hi
      obtain ⟨rfl, rfl⟩ := Prod.mk.inj (Option.some.inj hi)
      by_cases hj' : j' = i'
      · exact .inl hj'.symm
      · rw [hkey] at hv
        obtain ⟨w'', hw''⟩ := hrow j' w' hj' hj (hw.trans hv.symm)
        exact .inr ⟨w'', (hothers j' hj').trans hw''⟩
    · rw [hothers i' hi'] at hi
      rcases h.mixed i' j' t' v' w' k' hi hj hv hw with heq | ⟨w'', hw''⟩
      · exact .inl heq
      · right
        by_cases hj' : j' = i
        · subst hj'
          obtain rfl := hfree t' w'' hw''
          exact ⟨v, hown⟩
        · exact ⟨w'', (hothers j' hj').trans hw''⟩

end

end Mydon.Lib.ReadCommitted
