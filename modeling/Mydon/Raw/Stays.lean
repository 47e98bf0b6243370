import Mydon.Js.Order

/-! The stays of a machine at its points, read from the raw orders, and the marking of those that overlap. -/

namespace Mydon.Raw

open Mydon.Js

/-- The first and the last order of a machine at a point; times are texts whose order is that of the dates. -/
structure Stay where
  point : String
  from_ : String
  to_ : String
  orders : ℕ
  deriving DecidableEq

structure MachineStay extends Stay where
  overlaps : Bool
  deriving DecidableEq

def overlapsNeighbour (sorted : List Stay) (i : ℕ) (cur : Stay) : Bool :=
  let prev := if i = 0 then none else sorted[i - 1]?
  let next := sorted[i + 1]?
  (prev.any fun p => notAfter cur.from_ p.to_) || (next.any fun n => notAfter n.from_ cur.to_)

def markOverlaps (list : List Stay) : List MachineStay :=
  let sorted := sortBy Stay.from_ list
  sorted.mapIdx fun i cur => ⟨cur, overlapsNeighbour sorted i cur⟩

/-- Some moment lies in both intervals. -/
def SharesTime (a b : Stay) : Prop :=
  ∃ t : String, notAfter a.from_ t ∧ notAfter t a.to_ ∧ notAfter b.from_ t ∧ notAfter t b.to_

/-- A first order is not later than the last one. -/
def Stay.Ordered (s : Stay) : Prop := notAfter s.from_ s.to_ = true

theorem sharesTime_iff {a b : Stay} (ha : a.Ordered) (hb : b.Ordered) :
    SharesTime a b ↔ notAfter a.from_ b.to_ = true ∧ notAfter b.from_ a.to_ = true := by
  constructor
  · rintro ⟨t, h₁, h₂, h₃, h₄⟩
    exact ⟨notAfter_trans h₁ h₄, notAfter_trans h₃ h₂⟩
  · rintro ⟨hab, hba⟩
    rcases notAfter_total a.from_ b.from_ with h | h
    · exact ⟨b.from_, h, hba, notAfter_refl _, hb⟩
    · exact ⟨a.from_, notAfter_refl _, ha, h, hab⟩

/-- A stay is marked exactly when it shares time with another one. -/
def MarksOverlaps (list : List Stay) : Prop :=
  ∀ (i : ℕ) (s : MachineStay), (markOverlaps list)[i]? = some s →
    (s.overlaps = true ↔ ∃ (j : ℕ) (t : MachineStay), j ≠ i ∧ (markOverlaps list)[j]? = some t ∧ SharesTime s.toStay t.toStay)

/-- In the order of their starts, a stay that starts before some earlier one has ended also starts before its predecessor
has ended, or its successor starts before it has ended. -/
def NeighboursTell (list : List Stay) : Prop :=
  ∀ (i j : ℕ) (s t : Stay), j < i → (sortBy Stay.from_ list)[i]? = some s → (sortBy Stay.from_ list)[j]? = some t →
    notAfter s.from_ t.to_ = true → overlapsNeighbour (sortBy Stay.from_ list) i s = true

theorem getElem?_markOverlaps {list : List Stay} {i : ℕ} {s : MachineStay} : (markOverlaps list)[i]? = some s ↔
    (sortBy Stay.from_ list)[i]? = some s.toStay ∧ s.overlaps = overlapsNeighbour (sortBy Stay.from_ list) i s.toStay := by
  unfold markOverlaps
  rw [List.getElem?_mapIdx, Option.map_eq_some_iff]
  constructor
  · rintro ⟨cur, hcur, rfl⟩
    exact ⟨hcur, rfl⟩
  · rintro ⟨hcur, hoverlaps⟩
    exact ⟨s.toStay, hcur, by rw [← hoverlaps]⟩

section sorted
variable {sorted : List Stay} {i j : ℕ} {s t : Stay}

theorem from_mono (hsorted : sorted.Pairwise fun a b => notAfter a.from_ b.from_ = true) (hij : i < j)
    (hs : sorted[i]? = some s) (ht : sorted[j]? = some t) : notAfter s.from_ t.from_ = true := by
  obtain ⟨hi, rfl⟩ := List.getElem?_eq_some_iff.mp hs
  obtain ⟨hj, rfl⟩ := List.getElem?_eq_some_iff.mp ht
  exact List.pairwise_iff_getElem.mp hsorted i j hi hj hij

/-- A marked stay shares time with a neighbour. -/
theorem shares_of_overlapsNeighbour (hsorted : sorted.Pairwise fun a b => notAfter a.from_ b.from_ = true)
    (hordered : ∀ s ∈ sorted, s.Ordered) (hs : sorted[i]? = some s) (h : overlapsNeighbour sorted i s = true) :
    ∃ (j : ℕ) (t : Stay), j ≠ i ∧ sorted[j]? = some t ∧ SharesTime s t := by
  have hself : s.Ordered := hordered s (List.mem_of_getElem? hs)
  rcases Bool.or_eq_true_iff.mp h with hprev | hnext
  · obtain ⟨p, hp, htouch⟩ := Option.any_eq_true _ _ |>.mp hprev
    split_ifs at hp with hi
    have hmono := from_mono hsorted (by omega) hp hs
    exact ⟨i - 1, p, by omega, hp, (sharesTime_iff hself (hordered p (List.mem_of_getElem? hp))).mpr
      ⟨htouch, notAfter_trans hmono hself⟩⟩
  · obtain ⟨n, hn, htouch⟩ := Option.any_eq_true _ _ |>.mp hnext
    have hother := hordered n (List.mem_of_getElem? hn)
    have hmono := from_mono hsorted (Nat.lt_succ_self i) hs hn
    exact ⟨i + 1, n, by omega, hn, (sharesTime_iff hself hother).mpr ⟨notAfter_trans hmono hother, htouch⟩⟩

/-- A stay that reaches a later one reaches its successor. -/
theorem overlapsNeighbour_of_later (hsorted : sorted.Pairwise fun a b => notAfter a.from_ b.from_ = true) (hij : i < j)
    (ht : sorted[j]? = some t) (hreach : notAfter t.from_ s.to_ = true) : overlapsNeighbour sorted i s = true := by
  have hlt : i + 1 < sorted.length := lt_of_le_of_lt hij (List.getElem?_eq_some_iff.mp ht).1
  have hnext : sorted[i + 1]? = some sorted[i + 1] := List.getElem?_eq_getElem hlt
  have hmono : notAfter sorted[i + 1].from_ t.from_ = true := by
    rcases Nat.lt_or_eq_of_le (Nat.succ_le_of_lt hij) with hlater | rfl
    · exact from_mono hsorted hlater hnext ht
    · rw [Option.some.inj (hnext.symm.trans ht)]
      exact notAfter_refl _
  refine Bool.or_eq_true_iff.mpr (.inr ?_)
  rw [hnext, Option.any_some]
  exact notAfter_trans hmono hreach

end sorted

/-- The marks are right exactly when neighbours tell: a later stay that is reached is seen at the successor, an earlier one
that reaches further than the predecessor is not. -/
theorem marksOverlaps_iff {list : List Stay} (hordered : ∀ s ∈ list, s.Ordered) :
    MarksOverlaps list ↔ NeighboursTell list := by
  have hsorted := pairwise_sortBy Stay.from_ list
  have hordered' : ∀ s ∈ sortBy Stay.from_ list, s.Ordered := fun s hs => hordered s ((sortBy_perm _ _).mem_iff.mp hs)
  constructor
  · intro h i j s t hji hs ht hreach
    have hshares : SharesTime s t := (sharesTime_iff (hordered' s (List.mem_of_getElem? hs))
      (hordered' t (List.mem_of_getElem? ht))).mpr
        ⟨hreach, notAfter_trans (from_mono hsorted hji ht hs) (hordered' s (List.mem_of_getElem? hs))⟩
    exact (h i ⟨s, overlapsNeighbour _ i s⟩ (getElem?_markOverlaps.mpr ⟨hs, rfl⟩)).mpr
      ⟨j, ⟨t, overlapsNeighbour _ j t⟩, by omega, getElem?_markOverlaps.mpr ⟨ht, rfl⟩, hshares⟩
  · intro h i s hs
    obtain ⟨hget, hoverlaps⟩ := getElem?_markOverlaps.mp hs
    rw [hoverlaps]
    constructor
    · intro hmarked
      obtain ⟨j, t, hji, ht, hshares⟩ := shares_of_overlapsNeighbour hsorted hordered' hget hmarked
      exact ⟨j, ⟨t, overlapsNeighbour _ j t⟩, hji, getElem?_markOverlaps.mpr ⟨ht, rfl⟩, hshares⟩
    · rintro ⟨j, t, hji, ht, hshares⟩
      obtain ⟨hget', -⟩ := getElem?_markOverlaps.mp ht
      obtain ⟨hst, hts⟩ := (sharesTime_iff (hordered' _ (List.mem_of_getElem? hget))
        (hordered' _ (List.mem_of_getElem? hget'))).mp hshares
      rcases Nat.lt_or_gt_of_ne hji with hlt | hgt
      · exact h i j s.toStay t.toStay hlt hget hget' hst
      · exact overlapsNeighbour_of_later hsorted hgt hget' hts

/-- A stay of the whole year, and two short ones within it. -/
def coveredStays : List Stay :=
  [⟨"A", "2026-01-01 08:00:00", "2026-12-31 20:00:00", 900⟩, ⟨"B", "2026-02-01 08:00:00", "2026-02-03 20:00:00", 4⟩,
    ⟨"C", "2026-05-01 08:00:00", "2026-05-02 20:00:00", 3⟩]

/-- One move: the two stays do not meet. -/
def movedStays : List Stay :=
  [⟨"B", "2026-03-01 08:00:00", "2026-06-03 20:00:00", 40⟩, ⟨"A", "2026-01-01 08:00:00", "2026-02-03 20:00:00", 90⟩]

theorem marksOverlaps_iff_moved : MarksOverlaps movedStays ↔ NeighboursTell movedStays :=
  marksOverlaps_iff (by unfold Stay.Ordered; decide)

/-- The third stay lies within the first, and is not marked. -/
theorem coveredStays_not_marked : (∀ s ∈ coveredStays, s.Ordered) ∧ ¬ MarksOverlaps coveredStays := by
  refine ⟨by unfold Stay.Ordered; decide, fun h => ?_⟩
  have hmarks := h 2 ⟨⟨"C", "2026-05-01 08:00:00", "2026-05-02 20:00:00", 3⟩, false⟩ (by decide +kernel)
  refine absurd (hmarks.mpr ⟨0, ⟨⟨"A", "2026-01-01 08:00:00", "2026-12-31 20:00:00", 900⟩, true⟩, by decide,
    by decide +kernel, ?_⟩) (by decide)
  exact ⟨"2026-05-01 08:00:00", by decide +kernel, by decide +kernel, by decide +kernel, by decide +kernel⟩

end Mydon.Raw
