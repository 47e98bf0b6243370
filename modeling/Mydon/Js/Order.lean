import Mathlib.Data.List.Lex
import Mathlib.Data.List.Sort
import Mydon.Js.Text

/-! The order of texts by code units. -/

namespace Mydon.Js

/-- `a <= b`. -/
def notAfter (a b : String) : Bool := !before b a

theorem notAfter_iff {a b : String} : notAfter a b = true ↔ codeUnits a ≤ codeUnits b := by
  unfold notAfter before
  rw [Bool.not_eq_true', decide_eq_false_iff_not, not_lt]

theorem before_iff {a b : String} : before a b = true ↔ codeUnits a < codeUnits b := decide_eq_true_iff

theorem notAfter_refl (a : String) : notAfter a a = true := notAfter_iff.mpr le_rfl

theorem notAfter_trans {a b c : String} (h : notAfter a b = true) (h' : notAfter b c = true) : notAfter a c = true :=
  notAfter_iff.mpr ((notAfter_iff.mp h).trans (notAfter_iff.mp h'))

theorem notAfter_total (a b : String) : notAfter a b = true ∨ notAfter b a = true := by
  rw [notAfter_iff, notAfter_iff]
  exact le_total _ _

/-- `[...list].sort((a, b) => (a.f < b.f ? -1 : a.f > b.f ? 1 : 0))`, which keeps the order of equal elements. -/
def sortBy {α : Type} (f : α → String) (list : List α) : List α :=
  list.insertionSort fun a b => notAfter (f a) (f b) = true

theorem sortBy_perm {α : Type} (f : α → String) (list : List α) : (sortBy f list).Perm list := List.perm_insertionSort _ _

theorem pairwise_sortBy {α : Type} (f : α → String) (list : List α) :
    (sortBy f list).Pairwise fun a b => notAfter (f a) (f b) = true := by
  have htotal : Std.Total fun a b : α => notAfter (f a) (f b) = true := ⟨fun a b => notAfter_total (f a) (f b)⟩
  have htrans : IsTrans α fun a b => notAfter (f a) (f b) = true := ⟨fun _ _ _ => notAfter_trans⟩
  exact List.pairwise_insertionSort _ _

end Mydon.Js
