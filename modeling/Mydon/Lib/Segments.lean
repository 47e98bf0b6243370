import Mathlib.Data.List.Infix

/-! Segments that occur in a list one after another, without overlap. -/

namespace Mydon.Lib

variable {α : Type*}

def OccurInOrder : List (List α) → List α → Prop
  | [], _ => True
  | segment :: segments, text => ∃ before after, text = before ++ segment ++ after ∧ OccurInOrder segments after

namespace OccurInOrder

variable {segments segments' : List (List α)} {segment text text' : List α}

theorem append_right (h : OccurInOrder segments text) : OccurInOrder segments (text ++ text') := by
  induction segments generalizing text with
  | nil => trivial
  | cons segment segments ih =>
    obtain ⟨before, after, rfl, hrest⟩ := h
    exact ⟨before, after ++ text', by simp only [List.append_assoc], ih hrest⟩

theorem append_left (h : OccurInOrder segments text) : OccurInOrder segments (text' ++ text) := by
  rcases segments with _ | ⟨segment, segments⟩
  · trivial
  · obtain ⟨before, after, rfl, hrest⟩ := h
    exact ⟨text' ++ before, after, by simp only [List.append_assoc], hrest⟩

/-- A text that holds the text holds its segments. -/
theorem of_infix (h : OccurInOrder segments text) (htext : text <:+: text') : OccurInOrder segments text' := by
  obtain ⟨before, after, rfl⟩ := htext
  exact h.append_left.append_right

theorem append (h : OccurInOrder segments text) (h' : OccurInOrder segments' text') :
    OccurInOrder (segments ++ segments') (text ++ text') := by
  induction segments generalizing text with
  | nil => exact h'.append_left
  | cons segment segments ih =>
    obtain ⟨before, after, rfl, hrest⟩ := h
    exact ⟨before, after ++ text', by simp only [List.append_assoc], ih hrest⟩

theorem singleton (text : List α) : OccurInOrder [text] text := ⟨[], [], by simp, trivial⟩

end OccurInOrder

end Mydon.Lib
