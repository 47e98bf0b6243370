import Mathlib.Data.List.Sort

/-! Pages by a cursor. Items are read in the order of their time and name, and a page goes on behind the last
item of the one before; the cursor keeps only a rounded time. -/

namespace Mydon.Lib.Paging

variable {α T I : Type*} [LinearOrder T] [LinearOrder I] (time : α → T) (name : α → I) (round : T → T)

/-- The item comes behind the cursor. -/
def Beyond (c : T × I) (a : α) : Prop := c.1 < time a ∨ time a = c.1 ∧ c.2 < name a

/-- The order in which items are read. -/
def NotAfter (a b : α) : Prop := time a < time b ∨ time a = time b ∧ name a ≤ name b

instance decidableBeyond (c : T × I) (a : α) : Decidable (Beyond time name c a) :=
  inferInstanceAs (Decidable (_ ∨ _ ∧ _))

instance decidableNotAfter (a b : α) : Decidable (NotAfter time name a b) :=
  inferInstanceAs (Decidable (_ ∨ _ ∧ _))

def sorted (l : List α) : List α := l.insertionSort (NotAfter time name)

def cursor (a : α) : T × I := (round (time a), name a)

/-- The second cursor is behind the first. -/
def Advances (c c' : T × I) : Prop := c.1 < c'.1 ∨ c.1 = c'.1 ∧ c.2 < c'.2

instance decidableAdvances (c c' : T × I) : Decidable (Advances c c') := inferInstanceAs (Decidable (_ ∨ _ ∧ _))

variable {time name round} {a b : α} {l : List α}

theorem notAfter_or (a b : α) : NotAfter time name a b ∨ NotAfter time name b a := by
  unfold NotAfter
  rcases lt_trichotomy (time a) (time b) with h | h | h
  · exact .inl (.inl h)
  · rcases le_total (name a) (name b) with hn | hn
    · exact .inl (.inr ⟨h, hn⟩)
    · exact .inr (.inr ⟨h.symm, hn⟩)
  · exact .inr (.inl h)

theorem NotAfter.trans {c : α} (h : NotAfter time name a b) (h' : NotAfter time name b c) : NotAfter time name a c := by
  rcases h with h | ⟨h, hn⟩ <;> rcases h' with h' | ⟨h', hn'⟩
  · exact .inl (h.trans h')
  · exact .inl (h' ▸ h)
  · exact .inl (h ▸ h')
  · exact .inr ⟨h.trans h', hn.trans hn'⟩

theorem pairwise_sorted (l : List α) : (sorted time name l).Pairwise (NotAfter time name) := by
  have htotal : Std.Total (NotAfter time name) := ⟨notAfter_or⟩
  have htrans : IsTrans α (NotAfter time name) := ⟨fun _ _ _ h h' => h.trans h'⟩
  exact List.pairwise_insertionSort _ l

theorem mem_sorted : a ∈ sorted time name l ↔ a ∈ l := List.mem_insertionSort _

/-- What a page leaves out comes behind its last item. -/
theorem beyond_of_not_mem_take (hround : ∀ t, round t ≤ t) (hnames : ∀ a ∈ l, ∀ b ∈ l, name a = name b → a = b) {n : ℕ}
    {last : α} (hlast : ((sorted time name l).take n).getLast? = some last) (ha : a ∈ l)
    (hout : a ∉ (sorted time name l).take n) : Beyond time name (cursor time name round last) a := by
  have hmem : last ∈ (sorted time name l).take n := List.mem_of_getLast? hlast
  have hdrop : a ∈ (sorted time name l).drop n := by
    have hall : a ∈ (sorted time name l).take n ++ (sorted time name l).drop n := by
      rw [List.take_append_drop]
      exact mem_sorted.mpr ha
    exact (List.mem_append.mp hall).resolve_left hout
  have hpair := @pairwise_sorted _ _ _ _ _ time name l
  rw [← List.take_append_drop n (sorted time name l), List.pairwise_append] at hpair
  rcases hpair.2.2 last hmem a hdrop with hlt | ⟨heq, hle⟩
  · exact .inl ((hround _).trans_lt hlt)
  · have hne : name last ≠ name a := by
      intro hname
      have hl : last ∈ l := mem_sorted.mp (List.mem_of_mem_take hmem)
      exact hout (hnames last hl a ha hname ▸ hmem)
    rcases (hround (time last)).lt_or_eq with hr | hr
    · exact .inl (heq ▸ hr)
    · exact .inr ⟨heq.symm.trans hr.symm, lt_of_le_of_ne hle hne⟩

theorem not_advances_self (c : T × I) : ¬ Advances c c := by
  rintro (h | ⟨-, h⟩)
  · exact lt_irrefl _ h
  · exact lt_irrefl _ h

theorem Advances.trans {c c' c'' : T × I} (h : Advances c c') (h' : Advances c' c'') : Advances c c'' := by
  rcases h with h | ⟨h, hn⟩ <;> rcases h' with h' | ⟨h', hn'⟩
  · exact .inl (h.trans h')
  · exact .inl (h' ▸ h)
  · exact .inl (h ▸ h')
  · exact .inr ⟨h.trans h', hn.trans hn'⟩

/-- Cursors that items have not passed become fewer with each page. -/
theorem countP_advances {c c' : T × I} (h : Advances c c') (ha : a ∈ l) (hc : cursor time name round a = c') :
    l.countP (fun b => Advances c' (cursor time name round b)) < l.countP (fun b => Advances c (cursor time name round b)) := by
  have hle : ∀ l : List α, l.countP (fun b => Advances c' (cursor time name round b)) ≤
      l.countP (fun b => Advances c (cursor time name round b)) := fun l => by
    apply List.countP_mono_left
    intro b _ hb
    rw [decide_eq_true_eq] at hb ⊢
    exact h.trans hb
  obtain ⟨before, after, rfl⟩ := List.append_of_mem ha
  have hin : Advances c (cursor time name round a) := hc ▸ h
  have hout : ¬ Advances c' (cursor time name round a) := hc ▸ not_advances_self _
  have hbefore := hle before
  have hafter := hle after
  simp only [List.countP_append, List.countP_cons, hin, hout, decide_true, decide_false, if_true, Bool.false_eq_true,
    if_false]
  omega

end Mydon.Lib.Paging
