import Mathlib.Data.List.Induction
import Mydon.Js.Trim

/-! The words of a text, and the text that holds them with one space between two. -/

namespace Mydon.Js

def words (cs : List Char) : List (List Char) := (cs.splitOnP isSpace).filter (· ≠ [])

def spaced (ws : List (List Char)) : List Char := List.intercalate [' '] ws

theorem spaced_cons {w : List Char} {ws : List (List Char)} (h : ws ≠ []) : spaced (w :: ws) = w ++ ' ' :: spaced ws := by
  obtain ⟨v, vs, rfl⟩ := List.exists_cons_of_ne_nil h
  simp [spaced, List.intercalate, List.intersperse]

variable {c : Char} {cs : List Char}

/-- White space ends one word and starts another. -/
theorem words_append_space (h : isSpace c = true) (front back : List Char) :
    words (front ++ c :: back) = words front ++ words back := by
  unfold words
  rw [List.splitOnP_append_cons front back h, List.filter_append]

theorem words_nil : words [] = [] := by simp [words]

theorem words_cons_space (h : isSpace c = true) (cs : List Char) : words (c :: cs) = words cs := by
  have hsplit := words_append_space h [] cs
  rw [words_nil] at hsplit
  exact hsplit

theorem words_concat_space (h : isSpace c = true) (cs : List Char) : words (cs ++ [c]) = words cs := by
  rw [words_append_space h, words_nil, List.append_nil]

theorem words_dropWhile (cs : List Char) : words (cs.dropWhile isSpace) = words cs := by
  induction cs with
  | nil => rfl
  | cons c cs ih =>
    by_cases hc : isSpace c = true
    · rw [List.dropWhile_cons_of_pos hc, ih, words_cons_space hc]
    · rw [List.dropWhile_cons_of_neg hc]

theorem words_trimChars (cs : List Char) : words (trimChars cs) = words cs := by
  have hback : ∀ cs : List Char, words (cs.reverse.dropWhile isSpace).reverse = words cs := by
    intro cs
    induction cs using List.reverseRecOn with
    | nil => rfl
    | append_singleton cs c ih =>
      rw [List.reverse_concat]
      by_cases hc : isSpace c = true
      · rw [List.dropWhile_cons_of_pos hc, ih, words_concat_space hc]
      · rw [List.dropWhile_cons_of_neg hc, List.reverse_cons, List.reverse_reverse]
  rw [trimChars, hback, words_dropWhile]

/-- A letter belongs to the word that follows it, when one follows without white space. -/
theorem words_cons_letter (hc : isSpace c = false) {d : Char} {rest : List Char} (hd : isSpace d = false) :
    ∃ w ws, words (d :: rest) = w :: ws ∧ words (c :: d :: rest) = (c :: w) :: ws := by
  obtain ⟨piece, pieces, hsplit⟩ := List.exists_cons_of_ne_nil (List.splitOnP_ne_nil isSpace rest)
  refine ⟨d :: piece, pieces.filter (· ≠ []), ?_, ?_⟩
  · simp [words, List.splitOnP_cons_eq_if_modifyHead, hd, hsplit]
  · simp [words, List.splitOnP_cons_eq_if_modifyHead, hc, hd, hsplit]

/-- The words hold all that is not white space. -/
theorem flatten_words (cs : List Char) : (words cs).flatten = cs.filter fun c => !isSpace c := by
  induction cs with
  | nil => rw [words_nil, List.flatten_nil, List.filter_nil]
  | cons c cs ih =>
    by_cases hc : isSpace c = true
    · rw [words_cons_space hc, ih, List.filter_cons_of_neg (by simp [hc])]
    · obtain ⟨piece, pieces, hsplit⟩ := List.exists_cons_of_ne_nil (List.splitOnP_ne_nil isSpace cs)
      rw [List.filter_cons_of_pos (by simp [hc]), ← ih]
      by_cases hpiece : piece = []
      · simp [words, List.splitOnP_cons_eq_if_modifyHead, hc, hsplit, hpiece]
      · simp [words, List.splitOnP_cons_eq_if_modifyHead, hc, hsplit, hpiece]

theorem words_ne_nil (hc : c ∈ cs) (hspace : isSpace c = false) : words cs ≠ [] := by
  intro hnil
  have hflat := flatten_words cs
  rw [hnil, List.flatten_nil] at hflat
  exact absurd (hflat ▸ List.mem_filter.mpr ⟨hc, by rw [hspace]; rfl⟩) List.not_mem_nil

/-- Of a text that does not end in white space, the collapsed form is its words with one space between two. -/
theorem collapseSpaces_eq (hlast : ∀ c ∈ cs.getLast?, isSpace c = false) : collapseSpaces cs =
    if cs.head?.any isSpace then ' ' :: spaced (words cs) else spaced (words cs) := by
  induction cs with
  | nil => simp [collapseSpaces, words_nil, spaced]
  | cons c cs ih =>
    rcases cs with _ | ⟨d, rest⟩
    · have hc : isSpace c = false := hlast c rfl
      simp [collapseSpaces, hc, words, List.splitOnP_cons_eq_if_modifyHead, spaced]
    · have htail : ∀ e ∈ (d :: rest).getLast?, isSpace e = false := by
        intro e he
        apply hlast
        rw [List.getLast?_cons_cons]
        exact he
      have hne : words (d :: rest) ≠ [] :=
        words_ne_nil (List.getLast_mem (List.cons_ne_nil d rest)) (htail _ (List.getLast?_eq_some_getLast _))
      have ih := ih htail
      by_cases hc : isSpace c = true
      · rw [words_cons_space hc]
        by_cases hd : isSpace d = true
        · simp only [collapseSpaces, hc, hd, if_true] at ih ⊢
          simp only [ih, List.head?_cons, Option.any_some, hc, hd, if_true]
        · simp only [collapseSpaces, hc, hd, if_true, List.head?_cons, Option.any_some] at ih ⊢
          rw [ih]
          rfl
      · by_cases hd : isSpace d = true
        · have hwords : words (c :: d :: rest) = [c] :: words (d :: rest) := by
            rw [words_cons_space hd, ← List.singleton_append, words_append_space hd]
            simp [words, List.splitOnP_cons_eq_if_modifyHead, hc]
          rw [collapseSpaces.eq_def]
          simp only [List.head?_cons, Option.any_some, hc, hd, if_true, hwords, spaced_cons hne] at ih ⊢
          rw [ih]
          rfl
        · obtain ⟨w, ws, hws, hwords⟩ := @words_cons_letter c (eq_false_of_ne_true hc) d rest (eq_false_of_ne_true hd)
          rw [collapseSpaces.eq_def]
          simp only [List.head?_cons, Option.any_some, hc, hd, Bool.false_eq_true, if_false, hws, hwords] at ih ⊢
          rw [ih]
          rcases ws with _ | ⟨v, vs⟩
          · simp [spaced]
          · rw [spaced_cons (List.cons_ne_nil _ _), spaced_cons (List.cons_ne_nil _ _), List.cons_append]

/-- `trim().replace(/\s+/g, " ")`. -/
theorem collapse_trim (cs : List Char) : collapseSpaces (trimChars cs) = spaced (words cs) := by
  have hlast : ∀ c ∈ (trimChars cs).getLast?, isSpace c = false := by
    intro c hc
    rw [trimChars, List.getLast?_reverse] at hc
    exact eq_false_of_ne_true fun hspace => by
      have := List.head?_dropWhile_not isSpace (cs.dropWhile isSpace).reverse
      rw [hc] at this
      simp [hspace] at this
  have hhead : (trimChars cs).head?.any isSpace = false := by
    have hfix := trimChars_trimChars cs
    rcases hcs : trimChars cs with _ | ⟨c, rest⟩
    · rfl
    · rw [hcs] at hfix
      rw [List.head?_cons, Option.any_some]
      apply eq_false_of_ne_true
      intro hspace
      have hshort := congrArg List.length hfix
      rw [trimChars, List.dropWhile_cons_of_pos hspace, List.length_reverse, List.length_cons] at hshort
      have hle := (List.dropWhile_suffix isSpace (l := (rest.dropWhile isSpace).reverse)).length_le
      have hle' := (List.dropWhile_suffix isSpace (l := rest)).length_le
      rw [List.length_reverse] at hle
      omega
  rw [collapseSpaces_eq hlast, hhead, words_trimChars]
  rfl

end Mydon.Js
