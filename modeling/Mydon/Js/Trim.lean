import Mydon.Js.Text

/-! Trimmed texts. -/

namespace Mydon.Js

theorem filter_dropWhile_not {α : Type} (p : α → Bool) (cs : List α) :
    (cs.dropWhile p).filter (fun c => !p c) = cs.filter fun c => !p c := by
  induction cs with
  | nil => rfl
  | cons c cs ih =>
    by_cases hc : p c = true
    · rw [List.dropWhile_cons_of_pos hc, ih, List.filter_cons_of_neg (by simp [hc])]
    · rw [List.dropWhile_cons_of_neg hc]

/-- Trimming removes blanks only. -/
theorem filter_trimChars (cs : List Char) :
    (trimChars cs).filter (fun c => !isSpace c) = cs.filter fun c => !isSpace c := by
  rw [trimChars, List.filter_reverse, filter_dropWhile_not, List.filter_reverse, List.reverse_reverse, filter_dropWhile_not]

theorem trimChars_ne_nil {cs : List Char} {c : Char} (hc : c ∈ cs) (hspace : isSpace c = false) : trimChars cs ≠ [] := by
  intro h
  have hfilter := filter_trimChars cs
  rw [h, List.filter_nil] at hfilter
  exact absurd (hfilter ▸ List.mem_filter.mpr ⟨hc, by simp [hspace]⟩) List.not_mem_nil

theorem dropWhile_dropWhile {α : Type} (p : α → Bool) (cs : List α) : (cs.dropWhile p).dropWhile p = cs.dropWhile p := by
  induction cs with
  | nil => rfl
  | cons c cs ih =>
    by_cases hc : p c = true
    · rw [List.dropWhile_cons_of_pos hc, ih]
    · rw [List.dropWhile_cons_of_neg hc, List.dropWhile_cons_of_neg hc]

/-- What was cut at the front stays cut when the other end is cut too. -/
theorem dropWhile_rdropWhile {α : Type} {p : α → Bool} {cs : List α} (h : cs.dropWhile p = cs) :
    (cs.reverse.dropWhile p).reverse.dropWhile p = (cs.reverse.dropWhile p).reverse := by
  have hprefix : (cs.reverse.dropWhile p).reverse <+: cs := by
    rw [← List.reverse_suffix, List.reverse_reverse]
    exact List.dropWhile_suffix p
  rcases hfront : (cs.reverse.dropWhile p).reverse with _ | ⟨c, rest⟩
  · rfl
  · rw [hfront] at hprefix
    obtain ⟨back, rfl⟩ := hprefix
    rw [List.dropWhile_cons]
    split
    · rename_i hc
      rw [List.cons_append, List.dropWhile_cons_of_pos hc] at h
      have hlength := congrArg List.length h
      have hshort := (List.dropWhile_suffix p (l := rest ++ back)).length_le
      simp at hlength hshort
      omega
    · rfl

theorem trimChars_trimChars (cs : List Char) : trimChars (trimChars cs) = trimChars cs := by
  have hfront := dropWhile_rdropWhile (dropWhile_dropWhile isSpace cs)
  unfold trimChars
  rw [hfront, List.reverse_reverse, dropWhile_dropWhile]

/-! Texts without white space. -/

theorem digit_bounds {c : Char} (h : isDigit c = true) : 48 ≤ c.toNat ∧ c.toNat ≤ 57 := by
  simp only [isDigit, Bool.and_eq_true, decide_eq_true_eq] at h
  exact ⟨h.1, h.2⟩

theorem digit_not_space {c : Char} (h : isDigit c = true) : isSpace c = false := by
  have := digit_bounds h
  simp only [isSpace, Bool.or_eq_false_iff, Bool.and_eq_false_iff, decide_eq_false_iff_not, beq_eq_false_iff_ne]
  omega

theorem trimChars_eq_self {cs : List Char} (h : ∀ c ∈ cs, isSpace c = false) : trimChars cs = cs := by
  have hdrop : ∀ ds : List Char, (∀ c ∈ ds, isSpace c = false) → ds.dropWhile isSpace = ds := by
    intro ds hds
    rcases ds with _ | ⟨c, ds⟩
    · rfl
    · rw [List.dropWhile_cons, hds c List.mem_cons_self]
      rfl
  unfold trimChars
  rw [hdrop cs h, hdrop cs.reverse fun c hc => h c (List.mem_reverse.mp hc), List.reverse_reverse]

end Mydon.Js
