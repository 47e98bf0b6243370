import Mathlib
import Mydon.Lib.Greedy

/-! FEFO: an expense is spread over the batches, the earliest expiry first, then the
earliest receipt. What the batches do not cover becomes a leg without a batch. -/

namespace Mydon.Stock

structure FefoBatch where
  batchId : String
  remaining : ℚ
  expiryAt : Option ℤ
  receivedAt : ℤ
  deriving DecidableEq

structure FefoLeg where
  batchId : Option String
  qty : ℚ
  deriving DecidableEq

/-- `a.expiryAt ? a.expiryAt.getTime() : Infinity`. -/
def FefoBatch.expiryTime (b : FefoBatch) : WithTop ℤ :=
  match b.expiryAt with
  | some t => (t : WithTop ℤ)
  | none => ⊤

/-- The order of the numbers, with infinity after all of them. -/
abbrev timeOrder : LinearOrder (WithTop ℤ) := @WithTop.linearOrder ℤ Int.instLinearOrder

/-- The sign of the difference. -/
def cmp (a b : FefoBatch) : Ordering :=
  if a.expiryTime ≠ b.expiryTime then timeOrder.toOrd.compare a.expiryTime b.expiryTime else compare a.receivedAt b.receivedAt

def EPS : ℚ := 1 / 1000000000

/-- The loop over the sorted batches: the legs, and what remains of the need. -/
def takeLegs : List FefoBatch → ℚ → List FefoLeg × ℚ
  | [], rem => ([], rem)
  | b :: rest, rem =>
    if rem ≤ EPS then ([], rem)
    else
      let avail := max 0 b.remaining
      if avail ≤ EPS then takeLegs rest rem
      else
        let take := min rem avail
        let (legs, rem) := takeLegs rest (rem - take)
        (⟨some b.batchId, take⟩ :: legs, rem)

def allocateFEFO (need : ℚ) (batches : List FefoBatch) : List FefoLeg :=
  let rem := max 0 need
  if rem ≤ EPS then []
  else
    let (legs, rem) := takeLegs (batches.insertionSort fun a b => cmp a b ≠ .gt) rem
    if EPS < rem then legs ++ [⟨none, rem⟩] else legs

/-! The order of the batches. -/

/-- Earlier expiry, then earlier receipt; no expiry is last. -/
def FefoBatch.sortKey (b : FefoBatch) : WithTop ℤ ×ₗ ℤ := toLex (b.expiryTime, b.receivedAt)

theorem cmp_ne_gt_iff (a b : FefoBatch) : cmp a b ≠ .gt ↔ a.sortKey ≤ b.sortKey := by
  unfold cmp FefoBatch.sortKey
  rw [Prod.Lex.toLex_le_toLex]
  by_cases heq : a.expiryTime = b.expiryTime
  · rw [if_neg (not_not.mpr heq), compare_le_iff_le]
    simp [heq]
  · have hle : timeOrder.toOrd.compare a.expiryTime b.expiryTime ≠ .gt ↔ a.expiryTime ≤ b.expiryTime :=
      @compare_le_iff_le _ timeOrder _ _
    rw [if_pos heq, hle]
    simp [heq, le_iff_lt_or_eq]

/-- The batches in the order they are taken from. -/
def fefoOrder (batches : List FefoBatch) : List FefoBatch := batches.insertionSort fun a b => cmp a b ≠ .gt

theorem fefoOrder_perm (batches : List FefoBatch) : (fefoOrder batches).Perm batches := List.perm_insertionSort _ _

theorem fefoOrder_pairwise (batches : List FefoBatch) :
    (fefoOrder batches).Pairwise fun a b => a.sortKey ≤ b.sortKey := by
  have htotal : Std.Total fun a b : FefoBatch => cmp a b ≠ .gt :=
    ⟨fun a b => by simp only [cmp_ne_gt_iff]; exact le_total _ _⟩
  have htrans : IsTrans FefoBatch fun a b => cmp a b ≠ .gt :=
    ⟨fun a b c hab hbc => (cmp_ne_gt_iff a c).mpr (((cmp_ne_gt_iff a b).mp hab).trans ((cmp_ne_gt_iff b c).mp hbc))⟩
  have hsorted : (fefoOrder batches).Pairwise fun a b => cmp a b ≠ .gt := List.pairwise_insertionSort _ _
  exact hsorted.imp fun {a b} hab => (cmp_ne_gt_iff a b).mp hab

/-- Batches with distinct keys have one order. -/
theorem fefoOrder_eq_of_perm {batches others : List FefoBatch} (hperm : others.Perm batches)
    (hkeys : (batches.map FefoBatch.sortKey).Nodup) : fefoOrder others = fefoOrder batches := by
  refine List.Perm.eq_of_pairwise ?_ (fefoOrder_pairwise others) (fefoOrder_pairwise batches) ?_
  · intro a b ha hb hab hba
    have ha' : a ∈ batches := hperm.subset ((fefoOrder_perm others).subset ha)
    exact List.inj_on_of_nodup_map hkeys ha' ((fefoOrder_perm batches).subset hb) (le_antisymm hab hba)
  · exact (fefoOrder_perm others).trans (hperm.trans (fefoOrder_perm batches).symm)

/-! The loop is the greedy allocation. -/

open Lib

theorem EPS_nonneg : 0 ≤ EPS := by norm_num [EPS]

def FefoBatch.avail (b : FefoBatch) : ℚ := max 0 b.remaining

def batchLeg (t : FefoBatch × ℚ) : FefoLeg := ⟨some t.1.batchId, t.2⟩

def batchLegs (takes : List (FefoBatch × ℚ)) : List FefoLeg := (takes.filter fun t => 0 < t.2).map batchLeg

theorem takeLegs_eq (batches : List FefoBatch) (rem : ℚ) :
    takeLegs batches rem = (batchLegs (Greedy.takes FefoBatch.avail EPS batches rem),
      Greedy.left FefoBatch.avail EPS batches rem) := by
  induction batches generalizing rem with
  | nil => simp [takeLegs, Greedy.takes, Greedy.left, batchLegs]
  | cons b rest ih =>
    unfold takeLegs
    rw [← FefoBatch.avail]
    by_cases hrem : rem ≤ EPS
    · rw [if_pos hrem, Greedy.left_of_le _ hrem]
      have hnone : (Greedy.takes FefoBatch.avail EPS (b :: rest) rem).filter (fun t => 0 < t.2) = [] := by
        apply List.filter_eq_nil_iff.mpr
        intro t ht
        simp [Greedy.takes_of_le _ hrem t ht]
      rw [batchLegs, hnone, List.map_nil]
    · rw [if_neg hrem, Greedy.left_cons, Greedy.takes]
      by_cases havail : b.avail ≤ EPS
      · have hzero : Greedy.take FefoBatch.avail EPS b rem = 0 := if_pos (.inr havail)
        rw [if_pos havail, ih rem, hzero, sub_zero, batchLegs, batchLegs, List.filter_cons_of_neg (by simp)]
      · have htake : Greedy.take FefoBatch.avail EPS b rem = min rem b.avail := if_neg (not_or.mpr ⟨hrem, havail⟩)
        have hpos : 0 < min rem b.avail :=
          lt_min (EPS_nonneg.trans_lt (not_le.mp hrem)) (EPS_nonneg.trans_lt (not_le.mp havail))
        rw [htake, if_neg havail]
        show (⟨some b.batchId, min rem b.avail⟩ :: (takeLegs rest (rem - min rem b.avail)).1,
          (takeLegs rest (rem - min rem b.avail)).2) = _
        rw [ih, batchLegs, batchLegs, List.filter_cons_of_pos (by simpa using hpos), List.map_cons]
        rfl

/-- What each batch gives of the need. -/
def fefoTakes (need : ℚ) (batches : List FefoBatch) : List (FefoBatch × ℚ) :=
  Greedy.takes FefoBatch.avail EPS (fefoOrder batches) (max 0 need)

def uncovered (need : ℚ) (batches : List FefoBatch) : ℚ :=
  Greedy.left FefoBatch.avail EPS (fefoOrder batches) (max 0 need)

theorem allocateFEFO_eq (need : ℚ) (batches : List FefoBatch) :
    allocateFEFO need batches = batchLegs (fefoTakes need batches) ++
      if EPS < uncovered need batches then [⟨none, uncovered need batches⟩] else [] := by
  have htake := takeLegs_eq (fefoOrder batches) (max 0 need)
  unfold allocateFEFO
  by_cases hnone : max 0 need ≤ EPS
  · have hleft : uncovered need batches ≤ EPS := by
      unfold uncovered
      rwa [Greedy.left_of_le _ hnone]
    have hlegs : batchLegs (fefoTakes need batches) = [] := by
      unfold batchLegs
      rw [List.map_eq_nil_iff, List.filter_eq_nil_iff]
      intro t ht
      simp [Greedy.takes_of_le _ hnone t ht]
    rw [if_pos hnone, if_neg (not_lt.mpr hleft), hlegs, List.append_nil]
  · rw [if_neg hnone]
    show (if EPS < (takeLegs (fefoOrder batches) (max 0 need)).2 then
      (takeLegs (fefoOrder batches) (max 0 need)).1 ++ [⟨none, (takeLegs (fefoOrder batches) (max 0 need)).2⟩]
      else (takeLegs (fefoOrder batches) (max 0 need)).1) = _
    rw [htake]
    unfold fefoTakes uncovered
    split_ifs
    · rfl
    · exact (List.append_nil _).symm

/-! The law. -/

/-- How the legs share the need among the batches; `takes` is what each batch gives. -/
structure FefoLaw (need : ℚ) (batches : List FefoBatch) (takes : List (FefoBatch × ℚ)) (legs : List FefoLeg) :
    Prop where
  eachOnce : (takes.map Prod.fst).Perm batches
  fromTakes : legs.filter (fun leg => leg.batchId.isSome) = batchLegs takes
  total : |(legs.map FefoLeg.qty).sum - max 0 need| ≤ EPS
  positive : ∀ leg ∈ legs, 0 < leg.qty
  within : ∀ t ∈ takes, t.2 = 0 ∨ 0 < t.2 ∧ t.2 ≤ t.1.remaining
  once : ∀ id, legs.countP (fun leg => leg.batchId = some id) ≤ batches.countP fun b => b.batchId = id
  tail : ∀ leg ∈ legs, leg.batchId = none → ∀ t ∈ takes, EPS < t.1.remaining → t.2 = t.1.remaining
  priority : ∀ s ∈ takes, ∀ t ∈ takes, s.1.sortKey < t.1.sortKey → 0 < t.2 → s.1.remaining - s.2 ≤ EPS

variable {need : ℚ} {batches : List FefoBatch}

theorem fefoTakes_bounds : ∀ t ∈ fefoTakes need batches, t.2 = 0 ∨ 0 < t.2 ∧ t.2 ≤ t.1.remaining := by
  intro t ht
  rcases Greedy.takes_bounds EPS_nonneg _ _ t ht with hzero | ⟨hpos, hle⟩
  · exact .inl hzero
  · rcases le_max_iff.mp hle with hneg | hle
    · exact absurd hneg (not_le.mpr hpos)
    · exact .inr ⟨hpos, hle⟩

/-- Of a spent batch no more than the threshold is untaken. -/
theorem untaken_of_spent {t : FefoBatch × ℚ} (h : Greedy.Spent FefoBatch.avail EPS t)
    (hbounds : t.2 = 0 ∨ 0 < t.2 ∧ t.2 ≤ t.1.remaining) : t.1.remaining - t.2 ≤ EPS := by
  have hε := EPS_nonneg
  have hle : t.1.remaining ≤ t.1.avail := le_max_right _ _
  rcases h with h | h
  · rcases hbounds with hzero | ⟨hpos, -⟩ <;> linarith
  · linarith

theorem mem_fefo_legs {leg : FefoLeg} : leg ∈ allocateFEFO need batches ↔
    (∃ t ∈ fefoTakes need batches, 0 < t.2 ∧ leg = batchLeg t) ∨
      EPS < uncovered need batches ∧ leg = ⟨none, uncovered need batches⟩ := by
  rw [allocateFEFO_eq, List.mem_append]
  apply or_congr
  · simp only [batchLegs, List.mem_map, List.mem_filter, decide_eq_true_eq]
    constructor
    · rintro ⟨t, ⟨ht, hpos⟩, rfl⟩
      exact ⟨t, ht, hpos, rfl⟩
    · rintro ⟨t, ht, hpos, rfl⟩
      exact ⟨t, ⟨ht, hpos⟩, rfl⟩
  · split_ifs with h <;> simp [h]

theorem sum_batchLegs {takes : List (FefoBatch × ℚ)} (h : ∀ t ∈ takes, t.2 = 0 ∨ 0 < t.2) :
    ((batchLegs takes).map FefoLeg.qty).sum = (takes.map Prod.snd).sum := by
  induction takes with
  | nil => rfl
  | cons t takes ih =>
    obtain ⟨ht, hrest⟩ := List.forall_mem_cons.mp h
    rw [List.map_cons, List.sum_cons, ← ih hrest]
    rcases ht with hzero | hpos
    · rw [batchLegs, List.filter_cons_of_neg (by simp [hzero]), hzero, zero_add]
      rfl
    · rw [batchLegs, List.filter_cons_of_pos (by simpa using hpos), List.map_cons, List.map_cons, List.sum_cons]
      rfl

theorem fefo_total : |((allocateFEFO need batches).map FefoLeg.qty).sum - max 0 need| ≤ EPS := by
  have hε := EPS_nonneg
  have hleft : 0 ≤ uncovered need batches := Greedy.left_nonneg _ (le_max_left 0 need)
  have hsum : ((batchLegs (fefoTakes need batches)).map FefoLeg.qty).sum = max 0 need - uncovered need batches := by
    rw [sum_batchLegs fun t ht => (fefoTakes_bounds t ht).imp_right And.left]
    unfold uncovered Greedy.left
    rw [sub_sub_cancel]
    rfl
  rw [allocateFEFO_eq, List.map_append, List.sum_append, hsum, abs_le]
  split_ifs with h
  · rw [List.map_singleton, List.sum_singleton]
    constructor <;> linarith
  · rw [List.map_nil, List.sum_nil]
    constructor <;> linarith [not_lt.mp h]

/-- A batch makes at most one leg. -/
theorem countP_batchLegs (id : String) (takes : List (FefoBatch × ℚ)) :
    (batchLegs takes).countP (fun leg => leg.batchId = some id) ≤
      (takes.map Prod.fst).countP fun b => b.batchId = id := by
  unfold batchLegs
  rw [List.countP_map, List.countP_map]
  refine (List.filter_sublist.countP_le).trans (List.countP_mono_left ?_)
  intro t _ ht
  simpa [batchLeg] using ht

theorem fefo_once (id : String) : (allocateFEFO need batches).countP (fun leg => leg.batchId = some id) ≤
    batches.countP fun b => b.batchId = id := by
  have htail : (if EPS < uncovered need batches then [(⟨none, uncovered need batches⟩ : FefoLeg)] else []).countP
      (fun leg => leg.batchId = some id) = 0 := by
    split_ifs <;> simp
  rw [allocateFEFO_eq, List.countP_append, htail, Nat.add_zero]
  have hperm : ((fefoTakes need batches).map Prod.fst).Perm batches := by
    rw [fefoTakes, Greedy.takes_fst]
    exact fefoOrder_perm batches
  exact (countP_batchLegs id _).trans (hperm.countP_eq _).le

theorem fefo_priority : ∀ s ∈ fefoTakes need batches, ∀ t ∈ fefoTakes need batches,
    s.1.sortKey < t.1.sortKey → 0 < t.2 → s.1.remaining - s.2 ≤ EPS := by
  intro s hs t ht hbefore hpos
  have horder : (fefoTakes need batches).Pairwise fun a b => a.1.sortKey ≤ b.1.sortKey := by
    have hsorted := fefoOrder_pairwise batches
    rw [← @Greedy.takes_fst _ _ _ _ FefoBatch.avail EPS (fefoOrder batches) (max 0 need), List.pairwise_map] at hsorted
    exact hsorted
  have hgreedy : (fefoTakes need batches).Pairwise fun a b => b.2 ≠ 0 → Greedy.Spent FefoBatch.avail EPS a :=
    Greedy.takes_pairwise EPS_nonneg (fefoOrder batches) (max 0 need)
  have hspent : ∀ ⦃s⦄, s ∈ fefoTakes need batches → ∀ ⦃t⦄, t ∈ fefoTakes need batches →
      s.1.sortKey < t.1.sortKey → t.2 ≠ 0 → Greedy.Spent FefoBatch.avail EPS s := by
    apply List.Pairwise.forall_of_forall_of_flip
    · intro s _ hlt
      exact absurd hlt (lt_irrefl _)
    · refine hgreedy.imp ?_
      intro a b hab _
      exact hab
    · refine horder.imp ?_
      intro a b hle hlt
      exact absurd hlt (not_lt.mpr hle)
  exact untaken_of_spent (hspent hs ht hbefore hpos.ne') (fefoTakes_bounds s hs)

/-- The legs share the need by the law, and the order of the batches in the list does not matter
when their keys are distinct. -/
theorem allocateFEFO_law (need : ℚ) (batches : List FefoBatch) :
    (∃ takes, FefoLaw need batches takes (allocateFEFO need batches)) ∧
    ∀ others, others.Perm batches → (batches.map FefoBatch.sortKey).Nodup →
      allocateFEFO need others = allocateFEFO need batches := by
  refine ⟨⟨fefoTakes need batches, ?_, ?_, fefo_total, ?_, fefoTakes_bounds, fefo_once, ?_, fefo_priority⟩, ?_⟩
  · rw [fefoTakes, Greedy.takes_fst]
    exact fefoOrder_perm batches
  · have hbatch : (batchLegs (fefoTakes need batches)).filter (fun leg => leg.batchId.isSome) =
        batchLegs (fefoTakes need batches) := by
      apply List.filter_eq_self.mpr
      intro leg hleg
      obtain ⟨t, -, rfl⟩ := List.mem_map.mp hleg
      rfl
    rw [allocateFEFO_eq, List.filter_append, hbatch]
    split_ifs <;> simp
  · intro leg hleg
    rcases mem_fefo_legs.mp hleg with ⟨t, -, hpos, rfl⟩ | ⟨hleft, rfl⟩
    · exact hpos
    · exact EPS_nonneg.trans_lt hleft
  · intro leg hleg hnone t ht hmore
    rcases mem_fefo_legs.mp hleg with ⟨s, -, -, rfl⟩ | ⟨hleft, -⟩
    · exact absurd hnone (by simp [batchLeg])
    · have havail : t.1.avail = t.1.remaining := max_eq_right (EPS_nonneg.trans hmore.le)
      rcases Greedy.spent_of_left EPS_nonneg _ hleft t ht with hle | heq
      · exact absurd hmore (not_lt.mpr (havail ▸ hle))
      · exact heq.trans havail
  · intro others hperm hkeys
    rw [allocateFEFO_eq, allocateFEFO_eq]
    unfold fefoTakes uncovered
    rw [fefoOrder_eq_of_perm hperm hkeys]

theorem allocateFEFO_law_swapped :
    allocateFEFO 7 [⟨"b2", 5, some 3, 2⟩, ⟨"b1", 5, some 10, 1⟩] =
      allocateFEFO 7 [⟨"b1", 5, some 10, 1⟩, ⟨"b2", 5, some 3, 2⟩] :=
  (allocateFEFO_law 7 [⟨"b1", 5, some 10, 1⟩, ⟨"b2", 5, some 3, 2⟩]).2 _ (List.Perm.swap _ _ _) (by decide)

end Mydon.Stock
