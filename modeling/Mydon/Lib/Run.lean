import Mathlib.Data.List.Induction

/-! Runs of a labelled transition relation, as the list of their steps, and the
rules that carry facts about one step to all of them. -/

namespace Mydon.Lib

/-- A step, with the states before and after it. -/
structure Step (σ α : Type*) where
  before : σ
  action : α
  after : σ

/-- `Run next s steps s'`: the steps lead from `s` to `s'`, oldest first. -/
inductive Run {σ α : Type*} (next : σ → α → σ → Prop) (s : σ) : List (Step σ α) → σ → Prop
  | start : Run next s [] s
  | step {steps : List (Step σ α)} {s' s'' : σ} {a : α} :
    Run next s steps s' → next s' a s'' → Run next s (steps ++ [⟨s', a, s''⟩]) s''

namespace Run

variable {σ α : Type*} {next : σ → α → σ → Prop} {s s' s'' : σ} {steps : List (Step σ α)}

theorem append {steps' : List (Step σ α)} (h : Run next s steps s') (h' : Run next s' steps' s'') :
    Run next s (steps ++ steps') s'' := by
  induction h' with
  | start => rwa [List.append_nil]
  | step _ hnext ih => rw [← List.append_assoc]; exact ih.step hnext

/-- An invariant of the steps that meet a condition, on a run of such steps. -/
theorem invariant_of {Inv : σ → Prop} {C : Step σ α → Prop}
    (hstep : ∀ s a s', Inv s → next s a s' → C ⟨s, a, s'⟩ → Inv s')
    (h : Run next s steps s') (hinit : Inv s) (hC : ∀ e ∈ steps, C e) : Inv s' := by
  induction h with
  | start => exact hinit
  | step _ hnext ih =>
    refine hstep _ _ _ (ih fun e he => hC e (List.mem_append_left _ he)) hnext (hC _ ?_)
    exact List.mem_append_right _ (List.mem_singleton_self _)

theorem invariant {Inv : σ → Prop} (hstep : ∀ s a s', Inv s → next s a s' → Inv s')
    (h : Run next s steps s') (hinit : Inv s) : Inv s' :=
  invariant_of (fun s a s' hi hn (_ : True) => hstep s a s' hi hn) h hinit fun _ _ => trivial

/-- Every step of a run is taken from a state that the run up to it reaches. -/
theorem split (h : Run next s steps s') {e : Step σ α} (he : e ∈ steps) :
    ∃ earlier later, steps = earlier ++ e :: later ∧ Run next s earlier e.before ∧
      next e.before e.action e.after ∧ Run next e.after later s' := by
  induction h with
  | start => cases he
  | step hrun hnext ih =>
    rcases List.mem_append.mp he with hm | hm
    · obtain ⟨earlier, later, rfl, hb, hn, ha⟩ := ih hm
      exact ⟨earlier, later ++ [_], by simp, hb, hn, ha.step hnext⟩
    · rw [List.mem_singleton] at hm
      subst hm
      exact ⟨_, [], rfl, hrun, hnext, .start⟩

/-- Where the invariant makes two step properties equivalent, runs cannot tell them apart. -/
theorem forall_congr {Inv : σ → Prop} {P C : Step σ α → Prop}
    (hstep : ∀ s a s', Inv s → next s a s' → Inv s')
    (hiff : ∀ s a s', Inv s → next s a s' → (P ⟨s, a, s'⟩ ↔ C ⟨s, a, s'⟩))
    (h : Run next s steps s') (hinit : Inv s) : (∀ e ∈ steps, P e) ↔ ∀ e ∈ steps, C e := by
  refine forall₂_congr fun e he => ?_
  obtain ⟨earlier, _, _, hb, hn, _⟩ := h.split he
  exact hiff _ _ _ (invariant hstep hb hinit) hn

/-- A property that each step keeps on one condition holds after every step of exactly the runs
whose steps all meet it. -/
theorem forall_after_iff {Inv P : σ → Prop} {C : Step σ α → Prop}
    (hstep : ∀ s a s', Inv s → next s a s' → Inv s')
    (hiff : ∀ s a s', Inv s → P s → next s a s' → (P s' ↔ C ⟨s, a, s'⟩))
    (h : Run next s steps s') (hinit : Inv s) (hP : P s) : (∀ e ∈ steps, P e.after) ↔ ∀ e ∈ steps, C e := by
  suffices hends : ((∀ e ∈ steps, P e.after) ↔ ∀ e ∈ steps, C e) ∧ ((∀ e ∈ steps, P e.after) → P s') from hends.1
  induction h with
  | start => exact ⟨⟨fun _ => List.forall_mem_nil _, fun _ => List.forall_mem_nil _⟩, fun _ => hP⟩
  | step hrun hnext ih =>
    simp only [List.forall_mem_append, List.forall_mem_singleton]
    refine ⟨?_, fun hall => hall.2⟩
    rw [← ih.1]
    refine and_congr_right fun hall => ?_
    exact hiff _ _ _ (invariant hstep hrun hinit) (ih.2 hall) hnext

/-- A reflexive and transitive relation kept by every step relates the ends of a run. -/
theorem related {R : σ → σ → Prop} (hrefl : ∀ s, R s s) (htrans : ∀ s s' s'', R s s' → R s' s'' → R s s'')
    (hstep : ∀ s a s', next s a s' → R s s') (h : Run next s steps s') : R s s' := by
  induction h with
  | start => exact hrefl s
  | step _ hnext ih => exact htrans _ _ _ ih (hstep _ _ _ hnext)

/-- A run of which every step is also one of another relation. -/
theorem strengthen {next' : σ → α → σ → Prop} (h : Run next s steps s')
    (hnext : ∀ e ∈ steps, next e.before e.action e.after → next' e.before e.action e.after) : Run next' s steps s' := by
  induction h with
  | start => exact .start
  | @step steps s' s'' a _ hn ih =>
    refine (ih fun e he => hnext e (List.mem_append_left _ he)).step (hnext ⟨s', a, s''⟩ ?_ hn)
    exact List.mem_append_right _ (List.mem_singleton_self _)

/-- What does not hold at the start and holds at the end came about in some step. -/
theorem exists_change {p : σ → Prop} (h : Run next s steps s') (hstart : ¬ p s) (hend : p s') :
    ∃ e ∈ steps, ¬ p e.before ∧ p e.after := by
  induction h with
  | start => exact absurd hend hstart
  | @step steps s' s'' a _ _ ih =>
    by_cases hp : p s'
    · obtain ⟨e, he, hb, ha⟩ := ih hp
      exact ⟨e, List.mem_append_left _ he, hb, ha⟩
    · exact ⟨_, List.mem_append_right _ (List.mem_singleton_self _), hp, hend⟩

/-- The run up to one of its steps, the step, and the rest. -/
theorem of_append {earlier later : List (Step σ α)} {e : Step σ α}
    (h : Run next s (earlier ++ e :: later) s') :
    Run next s earlier e.before ∧ next e.before e.action e.after ∧ Run next e.after later s' := by
  induction later using List.reverseRecOn generalizing s' with
  | nil =>
    generalize hs : earlier ++ [e] = steps at h
    rcases h with _ | ⟨hrun, hnext⟩
    · simp at hs
    · obtain ⟨rfl, rfl⟩ := List.append_singleton_inj.mp hs
      exact ⟨hrun, hnext, .start⟩
  | append_singleton later e' ih =>
    generalize hs : earlier ++ e :: (later ++ [e']) = steps at h
    rcases h with _ | ⟨hrun, hnext⟩
    · simp at hs
    · rw [← List.cons_append, ← List.append_assoc] at hs
      obtain ⟨rfl, rfl⟩ := List.append_singleton_inj.mp hs
      obtain ⟨hb, hn, ha⟩ := ih hrun
      exact ⟨hb, hn, ha.step hnext⟩

end Run

/-- What is named at most once names one step. -/
theorem eq_of_nodup_filterMap {α β : Type*} {f : α → Option β} {items : List α} (hnd : (items.filterMap f).Nodup)
    {x y : α} {name : β} (hx : x ∈ items) (hy : y ∈ items) (hfx : f x = some name) (hfy : f y = some name) :
    x = y := by
  induction items with
  | nil => cases hx
  | cons item items ih =>
    have hother : ∀ z ∈ items, f z = some name → f item = some name → False := by
      intro z hz hfz hfi
      rw [List.filterMap_cons_some hfi, List.nodup_cons] at hnd
      exact hnd.1 (List.mem_filterMap.mpr ⟨z, hz, hfz⟩)
    have htail : (items.filterMap f).Nodup := by
      rw [List.filterMap_cons] at hnd
      split at hnd
      · exact hnd
      · exact (List.nodup_cons.mp hnd).2
    rcases List.mem_cons.mp hx with rfl | hxs <;> rcases List.mem_cons.mp hy with rfl | hys
    · rfl
    · exact absurd hfx (hother y hys hfy)
    · exact absurd hfy (hother x hxs hfx)
    · exact ih htail hxs hys

/-- The steps that a list of actions takes, and the state they end in. -/
def runActions {σ α : Type*} (f : σ → α → σ) (s : σ) : List α → List (Step σ α) × σ
  | [] => ([], s)
  | a :: as => (⟨s, a, f s a⟩ :: (runActions f (f s a) as).1, (runActions f (f s a) as).2)

theorem run_runActions {σ α : Type*} (f : σ → α → σ) (s : σ) (as : List α) :
    Run (fun s a s' => s' = f s a) s (runActions f s as).1 (runActions f s as).2 := by
  induction as generalizing s with
  | nil => exact .start
  | cons a as ih => exact Run.append (Run.step .start rfl) (ih (f s a))

@[simp] theorem map_action_runActions {σ α : Type*} (f : σ → α → σ) (s : σ) (as : List α) :
    (runActions f s as).1.map Step.action = as := by
  induction as generalizing s with
  | nil => rfl
  | cons a as ih => simp [runActions, ih]

/-- The steps that a list of actions takes where each of them is enabled. -/
def runEnabled {σ α : Type*} (f : σ → α → Option σ) (s : σ) : List α → Option (List (Step σ α) × σ)
  | [] => some ([], s)
  | a :: as => (f s a).bind fun s' => (runEnabled f s' as).map fun r => (⟨s, a, s'⟩ :: r.1, r.2)

theorem run_runEnabled {σ α : Type*} {f : σ → α → Option σ} {s : σ} {as : List α} {r : List (Step σ α) × σ}
    (h : runEnabled f s as = some r) : Run (fun s a s' => f s a = some s') s r.1 r.2 ∧ r.1.map Step.action = as := by
  induction as generalizing s r with
  | nil =>
    cases h
    exact ⟨.start, rfl⟩
  | cons a as ih =>
    obtain ⟨s', hs', hrest⟩ := Option.bind_eq_some_iff.mp h
    obtain ⟨r', hr', rfl⟩ := Option.map_eq_some_iff.mp hrest
    obtain ⟨hrun, hactions⟩ := ih hr'
    exact ⟨Run.append (Run.step .start hs') hrun, congrArg (a :: ·) hactions⟩

theorem action_mem_of_runActions {σ α : Type*} {f : σ → α → σ} {s : σ} {as : List α} {e : Step σ α}
    (he : e ∈ (runActions f s as).1) : e.action ∈ as := by
  rw [← map_action_runActions f s as]
  exact List.mem_map_of_mem he

end Mydon.Lib
