import Mathlib.Data.List.Induction
import Mathlib.Order.Lattice

/-! One key of a mirror that is fed by stamped snapshots. A snapshot either has a value for the key
or has none; it overwrites, or removes, only a cell that is not newer. A removal leaves nothing behind. -/

namespace Mydon.Lib.FencedCell

variable {τ β : Type*} [LinearOrder τ]

def deliver (cell : Option (τ × β)) (e : τ × Option β) : Option (τ × β) :=
  match cell, e.2 with
  | none, v => v.map (e.1, ·)
  | some old, v => if old.1 ≤ e.1 then v.map (e.1, ·) else some old

def deliverAll (es : List (τ × Option β)) : Option (τ × β) := es.foldl deliver none

/-- A value of this stamp came, and no removal after it reaches the stamp. -/
def Alive (es : List (τ × Option β)) (t : τ) : Prop :=
  ∃ earlier later v, es = earlier ++ (t, some v) :: later ∧ ∀ e ∈ later, e.2 = none → e.1 < t

variable {es : List (τ × Option β)} {t s : τ} {v : β}

@[simp] theorem deliverAll_snoc (es : List (τ × Option β)) (e : τ × Option β) :
    deliverAll (es ++ [e]) = deliver (deliverAll es) e := by
  simp [deliverAll]

theorem alive_snoc_some : Alive (es ++ [(s, some v)]) t ↔ Alive es t ∨ t = s := by
  constructor
  · rintro ⟨earlier, later, w, heq, hlater⟩
    rcases List.eq_nil_or_concat later with rfl | ⟨later, e, rfl⟩
    · obtain ⟨_, h⟩ := List.append_singleton_inj.mp heq
      exact .inr (congrArg Prod.fst h).symm
    · rw [List.concat_eq_append, ← List.cons_append, ← List.append_assoc] at heq
      obtain ⟨rfl, -⟩ := List.append_singleton_inj.mp heq
      exact .inl ⟨earlier, later, w, rfl, fun e' he' => hlater e' (by simp [he'])⟩
  · rintro (⟨earlier, later, w, rfl, hlater⟩ | rfl)
    · refine ⟨earlier, later ++ [(s, some v)], w, by simp, fun e he hnone => ?_⟩
      rcases List.mem_append.mp he with he | he
      · exact hlater e he hnone
      · rw [List.mem_singleton.mp he] at hnone
        cases hnone
    · exact ⟨es, [], v, rfl, List.forall_mem_nil _⟩

theorem alive_snoc_none : Alive (es ++ [(s, none)]) t ↔ Alive es t ∧ s < t := by
  constructor
  · rintro ⟨earlier, later, w, heq, hlater⟩
    rcases List.eq_nil_or_concat later with rfl | ⟨later, e, rfl⟩
    · obtain ⟨_, h⟩ := List.append_singleton_inj.mp heq
      cases congrArg Prod.snd h
    · rw [List.concat_eq_append, ← List.cons_append, ← List.append_assoc] at heq
      obtain ⟨rfl, rfl⟩ := List.append_singleton_inj.mp heq
      exact ⟨⟨earlier, later, w, rfl, fun e' he' => hlater e' (by simp [he'])⟩, hlater (s, none) (by simp) rfl⟩
  · rintro ⟨⟨earlier, later, w, rfl, hlater⟩, hlt⟩
    refine ⟨earlier, later ++ [(s, none)], w, by simp, fun e he hnone => ?_⟩
    rcases List.mem_append.mp he with he | he
    · exact hlater e he hnone
    · rw [List.mem_singleton.mp he]
      exact hlt

/-- The cell holds an alive stamp, and none that is alive is above it. -/
def Tracks (cell : Option (τ × β)) (es : List (τ × Option β)) : Prop :=
  (∀ t, Alive es t → ∃ c, cell = some c ∧ t ≤ c.1) ∧ ∀ c, cell = some c → Alive es c.1

theorem tracks_none (h : ∀ t, ¬ Alive es t) : Tracks none es :=
  ⟨fun t ht => absurd ht (h t), fun _ h => (nomatch h)⟩

theorem tracks_some {c : τ × β} : Tracks (some c) es ↔ Alive es c.1 ∧ ∀ t, Alive es t → t ≤ c.1 := by
  constructor
  · rintro ⟨hup, hdown⟩
    refine ⟨hdown c rfl, fun t ht => ?_⟩
    obtain ⟨c', hc', hle⟩ := hup t ht
    rwa [Option.some.inj hc']
  · rintro ⟨halive, hup⟩
    refine ⟨fun t ht => ⟨c, rfl, hup t ht⟩, fun c' hc' => ?_⟩
    rwa [← Option.some.inj hc']

theorem Tracks.not_alive (h : Tracks (none : Option (τ × β)) es) (t : τ) : ¬ Alive es t := by
  intro ht
  obtain ⟨c, hc, -⟩ := h.1 t ht
  cases hc

theorem tracks_value {cell : Option (τ × β)} (h : Tracks cell es) :
    Tracks (deliver cell (s, some v)) (es ++ [(s, some v)]) := by
  rcases cell with _ | old
  · refine tracks_some.mpr ⟨alive_snoc_some.mpr (.inr rfl), fun t ht => ?_⟩
    rcases alive_snoc_some.mp ht with ht | rfl
    · exact absurd ht (h.not_alive t)
    · exact le_rfl
  · obtain ⟨halive, hup⟩ := tracks_some.mp h
    simp only [deliver]
    split_ifs with hle
    · refine tracks_some.mpr ⟨alive_snoc_some.mpr (.inr rfl), fun t ht => ?_⟩
      rcases alive_snoc_some.mp ht with ht | rfl
      · exact (hup t ht).trans hle
      · exact le_rfl
    · refine tracks_some.mpr ⟨alive_snoc_some.mpr (.inl halive), fun t ht => ?_⟩
      rcases alive_snoc_some.mp ht with ht | rfl
      · exact hup t ht
      · exact (not_le.mp hle).le

theorem tracks_removal {cell : Option (τ × β)} (h : Tracks cell es) :
    Tracks (deliver cell (s, none)) (es ++ [(s, none)]) := by
  rcases cell with _ | old
  · refine tracks_none fun t ht => ?_
    exact h.not_alive t (alive_snoc_none.mp ht).1
  · obtain ⟨halive, hup⟩ := tracks_some.mp h
    simp only [deliver]
    split_ifs with hle
    · refine tracks_none fun t ht => ?_
      obtain ⟨ht, hlt⟩ := alive_snoc_none.mp ht
      exact absurd ((hup t ht).trans hle) (not_le.mpr hlt)
    · refine tracks_some.mpr ⟨alive_snoc_none.mpr ⟨halive, not_le.mp hle⟩, fun t ht => ?_⟩
      exact hup t (alive_snoc_none.mp ht).1

theorem deliverAll_tracks (es : List (τ × Option β)) : Tracks (deliverAll es) es := by
  induction es using List.reverseRecOn with
  | nil =>
    refine tracks_none fun t => ?_
    rintro ⟨earlier, later, w, heq, -⟩
    simp at heq
  | append_singleton es e ih =>
    obtain ⟨s, _ | v⟩ := e <;> rw [deliverAll_snoc]
    · exact tracks_removal ih
    · exact tracks_value ih

/-- A key is gone after exactly the deliveries in which every value is followed by a removal that
is not older. -/
theorem deliverAll_eq_none_iff : deliverAll es = none ↔
    ∀ earlier later t v, es = earlier ++ (t, some v) :: later → ∃ e ∈ later, e.2 = none ∧ t ≤ e.1 := by
  obtain ⟨hup, hdown⟩ := deliverAll_tracks es
  constructor
  · intro hnone earlier later t v heq
    by_contra hno
    push Not at hno
    obtain ⟨c, hc, -⟩ := hup t ⟨earlier, later, v, heq, hno⟩
    rw [hnone] at hc
    cases hc
  · intro hall
    by_contra hsome
    obtain ⟨c, hc⟩ := Option.ne_none_iff_exists'.mp hsome
    obtain ⟨earlier, later, v, heq, hlater⟩ := hdown c hc
    obtain ⟨e, he, hnone, hle⟩ := hall earlier later c.1 v heq
    exact absurd (hlater e he hnone) (not_lt.mpr hle)

/-- The value of the greatest stamp stays, whatever comes before and after it. -/
theorem deliverAll_newest (hmem : (t, some v) ∈ es) (hmax : ∀ e ∈ es, e.1 ≤ t)
    (hsame : ∀ e ∈ es, e.1 = t → e.2 = some v) : deliverAll es = some (t, v) := by
  induction es using List.reverseRecOn with
  | nil => cases hmem
  | append_singleton es e ih =>
    have hcell : ∀ c, deliverAll es = some c → c.1 ≤ t := by
      intro c hc
      obtain ⟨earlier, later, w, heq, -⟩ := (deliverAll_tracks es).2 c hc
      exact hmax (c.1, some w) (by simp [heq])
    rw [deliverAll_snoc]
    by_cases het : e.1 = t
    · have hv := hsame e (by simp) het
      rcases hc : deliverAll es with _ | old
      · simp [deliver, hv, het]
      · simp [deliver, hv, het, hcell old hc]
    · have hmem' : (t, some v) ∈ es := by
        rcases List.mem_append.mp hmem with h | h
        · exact h
        · rw [List.mem_singleton] at h
          exact absurd (congrArg Prod.fst h).symm het
      rw [ih hmem' (fun e he => hmax e (by simp [he])) fun e he => hsame e (by simp [he])]
      have hlt : ¬ t ≤ e.1 := not_le.mpr (lt_of_le_of_ne (hmax e (by simp)) het)
      simp [deliver, hlt]

end Mydon.Lib.FencedCell
