import Mydon.Coffee.Agreement
import Mathlib.Data.List.Perm.Subperm

/-! The returns of a container and the fills that they close, against what happened: a container is filled,
stands, is taken off and weighed, and is filled again, sometimes on the same day. -/

namespace Mydon.Coffee

open Mydon.Lib

/-- What happened to one container at one position: fills with the returns that closed them, and a last
fill that may still stand. -/
structure History where
  visits : List (ContainerFillEvent × ContainerReturnEvent)
  standing : Option ContainerFillEvent
  deriving DecidableEq

namespace History

def fills (h : History) : List ContainerFillEvent := h.visits.map Prod.fst ++ h.standing.toList

def returns (h : History) : List ContainerReturnEvent := h.visits.map Prod.snd

/-- The days of the events, as they happened. -/
def days (h : History) : List ℤ :=
  h.visits.flatMap (fun v => [v.1.date, v.2.date]) ++ h.standing.toList.map (·.date)
end History

def ContainerFillEvent.key (f : ContainerFillEvent) : SetKey := (f.containerNumber, f.position)

def ContainerReturnEvent.key (r : ContainerReturnEvent) : SetKey := (r.containerNumber, r.position)

/-- The rows of the key are those of the history, in whatever order they come. -/
structure History.Of (h : History) (fills : List ContainerFillEvent) (returns : List ContainerReturnEvent)
    (k : SetKey) : Prop where
  fills : (fills.filter fun f => f.key = k).Perm h.fills
  returns : (returns.filter fun r => r.key = k).Perm h.returns
  days : h.days.Pairwise (· ≤ ·)

/-- Every return is of an earlier day than the next fill; only where the next fill is the last event, it may
be of the day of the return and of the fill before it, if it comes before that fill in the table. -/
def Settled (table : List ContainerFillEvent) : List (ContainerFillEvent × ContainerReturnEvent) →
    Option ContainerFillEvent → Prop
  | [], _ => True
  | [(_, _)], none => True
  | [(f, r)], some last => r.date < last.date ∨ f.date = last.date ∧ [last, f].Sublist table
  | (_, r) :: v :: rest, standing => r.date < v.1.date ∧ Settled table (v :: rest) standing

/-! The scan of one key. -/

variable {list : List ContainerFillEvent} {rs : List ContainerReturnEvent} {f : ContainerFillEvent}
  {r : ContainerReturnEvent}

/-- The number of fills up to the day of a return. -/
def reach (list : List ContainerFillEvent) (r : ContainerReturnEvent) : ℕ := upTo (list.map (·.date)) r.date

def scan (list : List ContainerFillEvent) (start : ℕ) (rs : List ContainerReturnEvent) :
    List (ContainerFillEvent × ContainerReturnEvent) :=
  pairOne list (fun start r => pickShared ContainerFillEvent.date list start r.date) start rs

theorem pick_eq (hsorted : list.Pairwise fun a b => a.date ≤ b.date) (start : ℕ) (day : ℤ) :
    pickShared ContainerFillEvent.date list start day =
      if start < upTo (list.map (·.date)) day then some (upTo (list.map (·.date)) day - 1) else none := by
  rw [pickShared_map]
  exact pickShared_eq (List.pairwise_map.mpr hsorted) start

theorem reach_le_length (list : List ContainerFillEvent) (r : ContainerReturnEvent) : reach list r ≤ list.length := by
  refine List.countP_le_length.trans_eq ?_
  exact List.length_map _

/-- A return closes the last fill up to its day, where that one is still open. -/
theorem scan_cons (hsorted : list.Pairwise fun a b => a.date ≤ b.date) (start : ℕ) (r : ContainerReturnEvent)
    (rs : List ContainerReturnEvent) :
    (start < reach list r ∧ ∃ f, list[reach list r - 1]? = some f ∧
        scan list start (r :: rs) = (f, r) :: scan list (reach list r) rs) ∨
      reach list r ≤ start ∧ scan list start (r :: rs) = scan list start rs := by
  unfold scan
  by_cases h : start < reach list r
  · left
    have hlt : reach list r - 1 < list.length := by
      have hle := reach_le_length list r
      omega
    refine ⟨h, list[reach list r - 1], List.getElem?_eq_getElem hlt, ?_⟩
    have hpick : pickShared ContainerFillEvent.date list start r.date = some (reach list r - 1) := by
      rw [pick_eq hsorted, ← reach, if_pos h]
    have hnext : reach list r - 1 + 1 = reach list r := by omega
    simp only [pairOne, hpick, Option.bind_some, List.getElem?_eq_getElem hlt, Option.map_some, hnext]
  · right
    have hpick : pickShared ContainerFillEvent.date list start r.date = none := by
      rw [pick_eq hsorted, ← reach, if_neg h]
    exact ⟨not_lt.mp h, by simp only [pairOne, hpick, Option.bind_none]⟩

/-- The pairs reach further and further into the list. -/
theorem scan_pairwise (hsorted : list.Pairwise fun a b => a.date ≤ b.date) (start : ℕ)
    (rs : List ContainerReturnEvent) : (scan list start rs).Pairwise (fun p q => reach list p.2 < reach list q.2) ∧
      ∀ p ∈ scan list start rs, start < reach list p.2 ∧ list[reach list p.2 - 1]? = some p.1 ∧ p.2 ∈ rs := by
  induction rs generalizing start with
  | nil => exact ⟨List.Pairwise.nil, List.forall_mem_nil _⟩
  | cons r rs ih =>
    rcases scan_cons hsorted start r rs with ⟨hlt, f, hf, heq⟩ | ⟨-, heq⟩
    · obtain ⟨hpairs, hall⟩ := ih (reach list r)
      rw [heq]
      refine ⟨List.pairwise_cons.mpr ⟨fun q hq => (hall q hq).1, hpairs⟩, ?_⟩
      refine List.forall_mem_cons.mpr ⟨⟨hlt, hf, List.mem_cons_self⟩, fun q hq => ?_⟩
      obtain ⟨hq₁, hq₂, hq₃⟩ := hall q hq
      exact ⟨hlt.trans hq₁, hq₂, List.mem_cons_of_mem _ hq₃⟩
    · obtain ⟨hpairs, hall⟩ := ih start
      rw [heq]
      exact ⟨hpairs, fun q hq => (hall q hq).imp_right (And.imp_right (List.mem_cons_of_mem _))⟩

theorem eq_of_reach_eq (hsorted : list.Pairwise fun a b => a.date ≤ b.date) {start : ℕ}
    {p q : ContainerFillEvent × ContainerReturnEvent} (hp : p ∈ scan list start rs) (hq : q ∈ scan list start rs)
    (h : reach list p.2 = reach list q.2) : p = q := by
  have hnd : ((scan list start rs).map fun p => reach list p.2).Nodup :=
    List.pairwise_map.mpr ((scan_pairwise hsorted start rs).1.imp fun hlt => hlt.ne)
  exact List.inj_on_of_nodup_map hnd hp hq h

/-- A first fill that no later return comes before only shifts the list. -/
theorem scan_shift (hsorted : (f :: list).Pairwise fun a b => a.date ≤ b.date) (n : ℕ)
    (hle : ∀ r ∈ rs, f.date ≤ r.date) : scan (f :: list) (n + 1) rs = scan list n rs := by
  induction rs generalizing n with
  | nil => rfl
  | cons r rs ih =>
    obtain ⟨hr, hrest⟩ := List.forall_mem_cons.mp hle
    have hreach : reach (f :: list) r = reach list r + 1 := by
      unfold reach upTo
      simp only [List.map_cons, List.countP_cons, hr, decide_true, if_true]
    rcases scan_cons hsorted (n + 1) r rs with ⟨hlt, g, hg, heq⟩ | ⟨hle', heq⟩
    · rcases scan_cons (List.pairwise_cons.mp hsorted).2 n r rs with ⟨hlt', g', hg', heq'⟩ | ⟨hle', -⟩
      · rw [hreach] at hg
        have hindex : reach list r + 1 - 1 = (reach list r - 1) + 1 := by omega
        rw [hindex, List.getElem?_cons_succ, hg'] at hg
        rw [heq, heq', hreach, ih _ hrest, Option.some.inj hg]
      · omega
    · rcases scan_cons (List.pairwise_cons.mp hsorted).2 n r rs with ⟨hlt', -⟩ | ⟨-, heq'⟩
      · omega
      · rw [heq, heq', ih _ hrest]

/-- A sorted list begins with an element that is before all others. -/
theorem cons_of_first {α : Type*} {day : α → ℤ} {l rest : List α} {a : α}
    (hsorted : l.Pairwise fun a b => day a ≤ day b) (hperm : l.Perm (a :: rest)) (hfirst : ∀ b ∈ rest, day a < day b) :
    ∃ l', l = a :: l' ∧ l'.Perm rest ∧ l'.Pairwise fun a b => day a ≤ day b := by
  rcases l with _ | ⟨b, l'⟩
  · exact absurd hperm.length_eq (by simp)
  · have hsame : b = a := by
      by_contra hne
      have hb : b ∈ rest := by
        rcases List.mem_cons.mp (hperm.subset List.mem_cons_self) with h | h
        · exact absurd h hne
        · exact h
      have ha : a ∈ l' := by
        rcases List.mem_cons.mp (hperm.symm.subset List.mem_cons_self) with h | h
        · exact absurd h.symm hne
        · exact h
      have hle := (List.pairwise_cons.mp hsorted).1 a ha
      have hlt := hfirst b hb
      omega
    subst hsame
    exact ⟨l', rfl, (List.perm_cons b).mp hperm, (List.pairwise_cons.mp hsorted).2⟩

theorem settled_cons {table : List ContainerFillEvent} {visits : List (ContainerFillEvent × ContainerReturnEvent)}
    {standing : Option ContainerFillEvent} (hne : ∀ last, standing = some last → last ≠ f) :
    Settled (f :: table) visits standing ↔ Settled table visits standing := by
  induction visits with
  | nil => exact Iff.rfl
  | cons v visits ih =>
    obtain ⟨g, r⟩ := v
    rcases visits with _ | ⟨w, visits⟩
    · rcases standing with _ | last
      · exact Iff.rfl
      · refine or_congr_right (and_congr_right fun _ => ⟨fun hsub => ?_, fun hsub => hsub.cons f⟩)
        rcases List.sublist_cons_iff.mp hsub with hsub | ⟨rest, heq, -⟩
        · exact hsub
        · exact absurd (List.cons.inj heq).1 (hne last rfl)
    · exact and_congr_right fun _ => ih

/-- Every return of the history closes its own fill exactly where the days settle it. -/
theorem scan_history_iff {visits : List (ContainerFillEvent × ContainerReturnEvent)}
    {standing : Option ContainerFillEvent} (hsorted : list.Pairwise fun a b => a.date ≤ b.date)
    (hrs : rs.Pairwise fun a b => a.date ≤ b.date) (hnd : list.Nodup) (hrnd : rs.Nodup)
    (hfills : list.Perm (History.fills ⟨visits, standing⟩)) (hreturns : rs.Perm (History.returns ⟨visits, standing⟩))
    (hdays : (History.days ⟨visits, standing⟩).Pairwise (· ≤ ·)) :
    (∀ v ∈ visits, v ∈ scan list 0 rs) ↔ Settled list visits standing := by
  induction visits generalizing list rs with
  | nil => exact iff_of_true (List.forall_mem_nil _) trivial
  | cons v visits ih =>
    obtain ⟨f, r⟩ := v
    have hfillDays : ∀ g ∈ History.fills ⟨visits, standing⟩, g.date ∈ History.days ⟨visits, standing⟩ := by
      intro g hg
      rcases List.mem_append.mp hg with hg | hg
      · obtain ⟨w, hw, rfl⟩ := List.mem_map.mp hg
        exact List.mem_append_left _ (List.mem_flatMap.mpr ⟨w, hw, List.mem_cons_self⟩)
      · exact List.mem_append_right _ (List.mem_map_of_mem hg)
    have hreturnDays : ∀ q ∈ History.returns ⟨visits, standing⟩, q.date ∈ History.days ⟨visits, standing⟩ := by
      intro q hq
      obtain ⟨w, hw, rfl⟩ := List.mem_map.mp hq
      exact List.mem_append_left _ (List.mem_flatMap.mpr ⟨w, hw, List.mem_cons_of_mem _ List.mem_cons_self⟩)
    have hcons : History.days ⟨(f, r) :: visits, standing⟩ = f.date :: r.date :: History.days ⟨visits, standing⟩ := rfl
    rw [hcons, List.pairwise_cons, List.pairwise_cons] at hdays
    obtain ⟨hf, hr, hrest⟩ := hdays
    have hfr : f.date ≤ r.date := hf _ List.mem_cons_self
    -- with the next fill on a later day the first pair is made, and the rest is a history of its own
    have hlater : (∀ day ∈ History.days ⟨visits, standing⟩, r.date < day) →
        ∃ list', list = f :: list' ∧ list'.Perm (History.fills ⟨visits, standing⟩) ∧
          ((∀ v ∈ (f, r) :: visits, v ∈ scan list 0 rs) ↔ Settled list' visits standing) := by
      intro hgap
      obtain ⟨list', rfl, hperm', hsorted'⟩ := cons_of_first hsorted hfills fun g hg =>
        hfr.trans_lt (hgap _ (hfillDays g hg))
      obtain ⟨rs', rfl, hrperm', hrs'⟩ := cons_of_first hrs hreturns fun q hq => hgap _ (hreturnDays q hq)
      have hone : reach (f :: list') r = 1 := by
        have hnone : (list'.map (·.date)).countP (fun day => decide (day ≤ r.date)) = 0 := by
          refine List.countP_eq_zero.mpr fun day hday hle => ?_
          obtain ⟨g, hg, rfl⟩ := List.mem_map.mp hday
          exact (hgap _ (hfillDays g (hperm'.subset hg))).not_ge (of_decide_eq_true hle)
        unfold reach upTo
        simp only [List.map_cons, List.countP_cons, hfr, decide_true, if_true, hnone]
      have hscan : scan (f :: list') 0 (r :: rs') = (f, r) :: scan list' 0 rs' := by
        rcases scan_cons hsorted 0 r rs' with ⟨-, g, hg, heq⟩ | ⟨hle, -⟩
        · rw [hone] at hg heq
          rw [heq, ← Option.some.inj hg, scan_shift hsorted 0]
          exact fun q hq => hfr.trans (hgap _ (hreturnDays q (hrperm'.subset hq))).le
        · rw [hone] at hle
          omega
      have hih := ih hsorted' hrs' (List.nodup_cons.mp hnd).2 (List.nodup_cons.mp hrnd).2 hperm' hrperm' hrest
      refine ⟨list', rfl, hperm', ?_⟩
      rw [hscan, ← hih]
      constructor
      · intro hall w hw
        rcases List.mem_cons.mp (hall w (List.mem_cons_of_mem _ hw)) with rfl | hmem
        · exact absurd (hreturnDays r (List.mem_map_of_mem hw)) fun hday => (hgap _ hday).false
        · exact hmem
      · intro hall
        exact List.forall_mem_cons.mpr ⟨List.mem_cons_self, fun w hw => List.mem_cons_of_mem _ (hall w hw)⟩
    rcases visits with _ | ⟨⟨f₂, r₂⟩, visits⟩
    · rcases standing with _ | last
      · obtain ⟨list', -, -, hiff⟩ := hlater (List.forall_mem_nil _)
        exact hiff.trans (iff_of_true trivial trivial)
      · by_cases hgap : r.date < last.date
        · obtain ⟨list', -, -, hiff⟩ := hlater (List.forall_mem_singleton.mpr hgap)
          exact hiff.trans (iff_of_true trivial (.inl hgap))
        · have hsame : last.date = r.date := le_antisymm (not_lt.mp hgap) (hr _ List.mem_cons_self)
          obtain rfl : rs = [r] := List.perm_singleton.mp hreturns
          obtain ⟨x, y, rfl⟩ := List.length_eq_two.mp hfills.length_eq
          have hreach : reach [x, y] r = 2 := by
            refine List.countP_eq_length.mpr fun day hday => decide_eq_true ?_
            obtain ⟨g, hg, rfl⟩ := List.mem_map.mp hday
            rcases List.mem_cons.mp (hfills.subset hg) with rfl | hg
            · exact hfr
            · rw [List.mem_singleton.mp hg, hsame]
          have hpair : scan [x, y] 0 [r] = [(y, r)] := by
            rcases scan_cons hsorted 0 r [] with ⟨-, g, hg, heq⟩ | ⟨hle, -⟩
            · rw [hreach] at hg
              rw [heq, ← Option.some.inj hg]
              rfl
            · rw [hreach] at hle
              omega
          rw [hpair, List.forall_mem_singleton, List.mem_singleton, Prod.mk.injEq, and_iff_left rfl]
          constructor
          · rintro rfl
            have hx : x = last := by
              have hswap : [f, x].Perm [f, last] := (List.Perm.swap x f []).trans hfills
              exact List.singleton_inj.mp (List.perm_singleton.mp ((List.perm_cons f).mp hswap))
            subst hx
            have hle : x.date ≤ f.date := (List.pairwise_cons.mp hsorted).1 f (List.mem_singleton_self _)
            exact .inr ⟨by omega, List.Sublist.refl _⟩
          · rintro (hlt | ⟨-, hsub⟩)
            · exact absurd hlt hgap
            · have heq : [last, f] = [x, y] := hsub.eq_of_length rfl
              exact (List.cons.inj (List.cons.inj heq).2).1
    · by_cases hgap : r.date < f₂.date
      · have hall : ∀ day ∈ History.days ⟨(f₂, r₂) :: visits, standing⟩, r.date < day := by
          have hcons₂ : History.days ⟨(f₂, r₂) :: visits, standing⟩ =
              f₂.date :: r₂.date :: History.days ⟨visits, standing⟩ := rfl
          rw [hcons₂, List.pairwise_cons] at hrest
          rw [hcons₂]
          exact List.forall_mem_cons.mpr ⟨hgap, fun day hday => hgap.trans_le (hrest.1 day hday)⟩
        obtain ⟨list', rfl, hperm', hiff⟩ := hlater hall
        have hne : ∀ last, standing = some last → last ≠ f := by
          rintro last rfl rfl
          refine (List.nodup_cons.mp hnd).1 (hperm'.symm.subset ?_)
          exact List.mem_append_right _ (List.mem_singleton_self _)
        rw [hiff, ← settled_cons hne]
        exact (and_iff_right hgap).symm
      · refine iff_of_false (fun hall => ?_) fun hsettled => hgap hsettled.1
        -- both returns would reach the same fill
        have hfirst := hall (f, r) List.mem_cons_self
        have hsecond := hall (f₂, r₂) (List.mem_cons_of_mem _ List.mem_cons_self)
        obtain ⟨hpos, hget, -⟩ := (scan_pairwise hsorted 0 rs).2 _ hsecond
        have hle : reach list r₂ ≤ reach list r := by
          have hindex : reach list r₂ - 1 < reach list r := by
            refine (lt_countP_iff (pairwise_le (List.pairwise_map.mpr hsorted) r.date) ?_).mpr
              (decide_eq_true (not_lt.mp hgap))
            rw [List.getElem?_map, hget, Option.map_some]
          omega
        have hge : reach list r ≤ reach list r₂ := by
          have hdays : r.date ≤ r₂.date := hr _ (List.mem_cons_of_mem _ List.mem_cons_self)
          exact List.countP_mono_left fun day _ hday => decide_eq_true ((of_decide_eq_true hday).trans hdays)
        obtain ⟨-, rfl⟩ := Prod.mk.inj (eq_of_reach_eq hsorted hfirst hsecond (le_antisymm hge hle))
        exact (List.nodup_cons.mp (hreturns.nodup_iff.mp hrnd)).1 List.mem_cons_self

/-! The order of the table. -/

section pairs
variable {α : Type*} {l : List α} {a b : α}

theorem pair_sublist_total (ha : a ∈ l) (hb : b ∈ l) (hne : a ≠ b) : [a, b].Sublist l ∨ [b, a].Sublist l := by
  induction l with
  | nil => cases ha
  | cons x l ih =>
    rcases List.mem_cons.mp ha with rfl | hal
    · rcases List.mem_cons.mp hb with rfl | hbl
      · exact absurd rfl hne
      · exact .inl ((List.singleton_sublist.mpr hbl).cons_cons a)
    · rcases List.mem_cons.mp hb with rfl | hbl
      · exact .inr ((List.singleton_sublist.mpr hal).cons_cons b)
      · exact (ih hal hbl).imp (·.cons x) (·.cons x)

theorem pair_sublist_asymm (hnd : l.Nodup) (hab : [a, b].Sublist l) (hba : [b, a].Sublist l) : False := by
  induction l with
  | nil => cases hab
  | cons x l ih =>
    obtain ⟨hx, hrest⟩ := List.nodup_cons.mp hnd
    rcases List.sublist_cons_iff.mp hab with habl | ⟨_, heq, hb⟩
    · rcases List.sublist_cons_iff.mp hba with hbal | ⟨_, heq, -⟩
      · exact ih hrest habl hbal
      · obtain ⟨rfl, rfl⟩ := List.cons.inj heq
        exact hx (habl.subset (List.mem_cons_of_mem _ (List.mem_singleton_self _)))
    · obtain ⟨rfl, rfl⟩ := List.cons.inj heq
      rcases List.sublist_cons_iff.mp hba with hbal | ⟨_, heq, -⟩
      · exact hx (hbal.subset (List.mem_cons_of_mem _ (List.mem_singleton_self _)))
      · obtain ⟨rfl, -⟩ := List.cons.inj heq
        exact hx (List.singleton_sublist.mp hb)

end pairs

section table
variable {fills : List ContainerFillEvent} {returns : List ContainerReturnEvent} {k : SetKey} {h : History}

theorem eventFills_eq_sort (fills : List ContainerFillEvent) (k : SetKey) :
    eventFills fills k = (fills.filter fun f => f.key = k).insertionSort fun a b => a.date ≤ b.date := by
  unfold eventFills ContainerFillEvent.key
  congr 2
  funext f
  exact decide_eq_decide.mpr (@Prod.ext_iff _ _ (f.containerNumber, f.position) k).symm

theorem eventFills_sorted (fills : List ContainerFillEvent) (k : SetKey) :
    (eventFills fills k).Pairwise fun a b => a.date ≤ b.date := by
  have : Std.Total fun a b : ContainerFillEvent => a.date ≤ b.date := ⟨fun a b => le_total _ _⟩
  have : IsTrans ContainerFillEvent fun a b => a.date ≤ b.date := ⟨fun _ _ _ => le_trans⟩
  exact List.pairwise_insertionSort _ _

theorem mem_eventFills {f : ContainerFillEvent} : f ∈ eventFills fills k ↔ f ∈ fills ∧ f.key = k := by
  rw [eventFills_eq_sort, List.mem_insertionSort, List.mem_filter, decide_eq_true_eq]

/-- Fills of one day keep the order of the table. -/
theorem pair_sublist_eventFills (hnd : fills.Nodup) {a b : ContainerFillEvent} (ha : a ∈ eventFills fills k)
    (hb : b ∈ eventFills fills k) (hday : b.date = a.date) :
    [a, b].Sublist (eventFills fills k) ↔ [a, b].Sublist fills := by
  have hkept : ∀ {c d}, c ∈ eventFills fills k → d ∈ eventFills fills k → c.date ≤ d.date → [c, d].Sublist fills →
      [c, d].Sublist (eventFills fills k) := by
    intro c d hc hd hle hsub
    have hfilter := hsub.filter fun f => f.key = k
    simp only [List.filter_cons, (mem_eventFills.mp hc).2, (mem_eventFills.mp hd).2, decide_true, if_true,
      List.filter_nil] at hfilter
    rw [eventFills_eq_sort]
    exact List.pair_sublist_insertionSort hle hfilter
  have hndk : (eventFills fills k).Nodup := by
    rw [eventFills_eq_sort]
    exact (List.perm_insertionSort _ _).nodup_iff.mpr (hnd.filter _)
  constructor
  · intro hsub
    have hne : a ≠ b := (List.pairwise_pair.mp (hndk.sublist hsub))
    rcases pair_sublist_total (mem_eventFills.mp ha).1 (mem_eventFills.mp hb).1 hne with hab | hba
    · exact hab
    · exact (pair_sublist_asymm hndk hsub (hkept hb ha hday.le hba)).elim
  · exact hkept ha hb hday.ge

theorem settled_table {table table' : List ContainerFillEvent}
    {visits : List (ContainerFillEvent × ContainerReturnEvent)} {standing : Option ContainerFillEvent}
    (htables : ∀ f ∈ visits.map Prod.fst, ∀ last, standing = some last → f.date = last.date →
      ([last, f].Sublist table ↔ [last, f].Sublist table')) :
    Settled table visits standing ↔ Settled table' visits standing := by
  induction visits with
  | nil => exact Iff.rfl
  | cons v visits ih =>
    obtain ⟨g, r⟩ := v
    rcases visits with _ | ⟨w, visits⟩
    · rcases standing with _ | last
      · exact Iff.rfl
      · exact or_congr_right (and_congr_right fun hday => htables g List.mem_cons_self last rfl hday)
    · exact and_congr_right fun _ => ih fun f hf => htables f (List.mem_cons_of_mem _ hf)

def eventPairs (fills : List ContainerFillEvent) (returns : List ContainerReturnEvent) :
    List (ContainerFillEvent × ContainerReturnEvent) :=
  pairUp (eventFills fills) (fun r => (r.containerNumber, r.position))
    (fun list start r => pickShared ContainerFillEvent.date list start r.date) (fun _ => 0)
    (returns.insertionSort fun a b => a.date ≤ b.date)

theorem matchReturnsToRefills_eq (fills : List ContainerFillEvent) (returns : List ContainerReturnEvent) :
    matchReturnsToRefills fills returns = (eventPairs fills returns).map consumptionRow := rfl

theorem mem_eventPairs_iff {v : ContainerFillEvent × ContainerReturnEvent} (hk : v.2.key = k) :
    v ∈ eventPairs fills returns ↔
      v ∈ scan (eventFills fills k) 0
        ((returns.insertionSort fun a b => a.date ≤ b.date).filter fun r => r.key = k) := by
  have hscan := @pairUp_filter_key _ _ _ _ (eventFills fills)
    (fun r : ContainerReturnEvent => (r.containerNumber, r.position))
    (fun list start r => pickShared ContainerFillEvent.date list start r.date) k (fun _ => 0)
    (returns.insertionSort fun a b => a.date ≤ b.date)
  unfold scan ContainerReturnEvent.key
  rw [← hscan, List.mem_filter, decide_eq_true_eq]
  exact (and_iff_left hk).symm

/-- The history of a key, read off the rows. -/
theorem joined_iff (hfills : fills.Nodup) (hreturns : returns.Nodup) (hof : h.Of fills returns k) :
    (∀ v ∈ h.visits, v ∈ eventPairs fills returns) ↔ Settled fills h.visits h.standing := by
  have : Std.Total fun a b : ContainerReturnEvent => a.date ≤ b.date := ⟨fun a b => le_total _ _⟩
  have : IsTrans ContainerReturnEvent fun a b => a.date ≤ b.date := ⟨fun _ _ _ => le_trans⟩
  have hperm : (eventFills fills k).Perm h.fills := by
    rw [eventFills_eq_sort]
    exact (List.perm_insertionSort _ _).trans hof.fills
  have hsortedReturns := List.perm_insertionSort (fun a b : ContainerReturnEvent => a.date ≤ b.date) returns
  have hrperm : ((returns.insertionSort fun a b => a.date ≤ b.date).filter fun r => r.key = k).Perm h.returns :=
    (hsortedReturns.filter _).trans hof.returns
  have hkeys : ∀ v ∈ h.visits, v.2.key = k := by
    intro v hv
    have hmem := hof.returns.symm.subset (List.mem_map_of_mem hv)
    exact of_decide_eq_true (List.mem_filter.mp hmem).2
  have htable : Settled fills h.visits h.standing ↔ Settled (eventFills fills k) h.visits h.standing := by
    refine settled_table fun f hf last hlast hday => ?_
    have hfmem : f ∈ eventFills fills k := hperm.symm.subset (List.mem_append_left _ hf)
    have hlmem : last ∈ eventFills fills k := by
      refine hperm.symm.subset (List.mem_append_right _ ?_)
      rw [hlast]
      exact List.mem_singleton_self _
    exact (pair_sublist_eventFills hfills hlmem hfmem hday).symm
  rw [htable, ← scan_history_iff (eventFills_sorted fills k)
    ((List.pairwise_insertionSort (fun a b : ContainerReturnEvent => a.date ≤ b.date) returns).filter _)
    ?_ ((hsortedReturns.nodup_iff.mpr hreturns).filter _) hperm hrperm hof.days]
  · exact forall₂_congr fun v hv => mem_eventPairs_iff (hkeys v hv)
  · rw [eventFills_eq_sort]
    exact (List.perm_insertionSort _ _).nodup_iff.mpr (hfills.filter _)

/-- The rows tell the consumption of the containers as it was. -/
structure MatchedRight (fills : List ContainerFillEvent) (returns : List ContainerReturnEvent) : Prop where
  fillOnce : ((matchReturnsToRefills fills returns).map (·.refillId)).Nodup
  returnOnce : ((matchReturnsToRefills fills returns).map (·.returnId)).Nodup
  rows : ∀ row ∈ matchReturnsToRefills fills returns, ∃ f ∈ fills, ∃ r ∈ returns,
    row = consumptionRow (f, r) ∧ f.key = r.key ∧ f.date ≤ r.date ∧
      ∀ grams, row.consumedGrams = some grams → ∃ net, f.netWeight = some net ∧ 0 ≤ grams ∧ grams ≤ net
  joined : ∀ k h, History.Of h fills returns k → ∀ v ∈ h.visits, consumptionRow v ∈ matchReturnsToRefills fills returns

theorem consumedGrams_bounds {fillNet returnNet : Option ℤ} {grams : ℤ}
    (h : consumedGrams fillNet returnNet = some grams) : ∃ net, fillNet = some net ∧ 0 ≤ grams ∧ grams ≤ net := by
  unfold consumedGrams at h
  split at h
  · split_ifs at h with hboth
    cases h
    exact ⟨_, rfl, by omega, by omega⟩
  · cases h

theorem mem_eventPairs {pair : ContainerFillEvent × ContainerReturnEvent} (h : pair ∈ eventPairs fills returns) :
    pair.1 ∈ fills ∧ pair.2 ∈ returns ∧ pair.1.key = pair.2.key ∧ pair.1.date ≤ pair.2.date := by
  obtain ⟨hr, hf⟩ := mem_of_mem_pairUp h
  obtain ⟨hfill, hkey⟩ := mem_eventFills.mp hf
  refine ⟨hfill, (List.mem_insertionSort _).mp hr, hkey, ?_⟩
  have hscan := (mem_eventPairs_iff rfl).mp h
  obtain ⟨hpos, hget, -⟩ := (scan_pairwise (eventFills_sorted fills pair.2.key) 0 _).2 _ hscan
  have hindex : reach (eventFills fills pair.2.key) pair.2 - 1 < reach (eventFills fills pair.2.key) pair.2 := by omega
  refine of_decide_eq_true ((lt_countP_iff (p := fun day => decide (day ≤ pair.2.date))
    (pairwise_le (List.pairwise_map.mpr (eventFills_sorted fills pair.2.key)) pair.2.date) ?_).mp hindex)
  rw [List.getElem?_map, hget, Option.map_some]

theorem le_of_upToDay {list : List ContainerFillEvent} {start n i : ℕ} {day : ℤ} {picked : Option ℕ}
    (hn : start ≤ n) (hpicked : ∀ j, picked = some j → start ≤ j)
    (h : upToDay ContainerFillEvent.date day list n picked = some i) : start ≤ i := by
  induction list generalizing n picked with
  | nil => exact hpicked i h
  | cons f list ih =>
    unfold upToDay at h
    split_ifs at h
    · refine ih (Nat.le_succ_of_le hn) (fun j hj => ?_) h
      rwa [← Option.some.inj hj]
    · exact hpicked i h

/-- No fill is closed twice. -/
theorem eventPairs_fst_nodup (hfills : fills.Nodup) (returns : List ContainerReturnEvent) :
    ((eventPairs fills returns).map Prod.fst).Nodup := by
  refine @pairUp_fst_nodup _ _ _ _ _ _ _ ContainerFillEvent.key
    (fun _ _ _ _ => le_of_upToDay le_rfl fun _ hj => by cases hj)
    (fun _ _ ho => (mem_eventFills.mp ho).2) (fun k => ?_) _ _
  rw [eventFills_eq_sort]
  exact (List.perm_insertionSort _ _).nodup_iff.mpr (hfills.filter _)

end table

/-- The rows are right exactly where the days of every history settle them. -/
theorem matchedRight_iff {fills : List ContainerFillEvent} {returns : List ContainerReturnEvent}
    (hfills : (fills.map (·.refillId)).Nodup) (hreturns : (returns.map (·.returnId)).Nodup) :
    MatchedRight fills returns ↔ ∀ k h, History.Of h fills returns k → Settled fills h.visits h.standing := by
  have hrow : ∀ {v}, v.1 ∈ fills → v.2 ∈ returns →
      (consumptionRow v ∈ matchReturnsToRefills fills returns ↔ v ∈ eventPairs fills returns) := by
    intro v hv₁ hv₂
    rw [matchReturnsToRefills_eq, List.mem_map]
    constructor
    · rintro ⟨w, hw, heq⟩
      obtain ⟨hw₁, hw₂, -⟩ := mem_eventPairs hw
      have hfill : w.1.refillId = v.1.refillId := congrArg ContainerConsumptionRow.refillId heq
      have hreturn : w.2.returnId = v.2.returnId := congrArg ContainerConsumptionRow.returnId heq
      have hsame : w = v := Prod.ext (List.inj_on_of_nodup_map hfills hw₁ hv₁ hfill)
        (List.inj_on_of_nodup_map hreturns hw₂ hv₂ hreturn)
      rwa [← hsame]
    · exact fun hv => ⟨v, hv, rfl⟩
  have hjoined : ∀ k h, History.Of h fills returns k →
      ((∀ v ∈ h.visits, consumptionRow v ∈ matchReturnsToRefills fills returns) ↔
        Settled fills h.visits h.standing) := by
    intro k h hof
    rw [← joined_iff (List.Nodup.of_map _ hfills) (List.Nodup.of_map _ hreturns) hof]
    refine forall₂_congr fun v hv => hrow ?_ ?_
    · exact (List.mem_filter.mp (hof.fills.symm.subset (List.mem_append_left _ (List.mem_map_of_mem hv)))).1
    · exact (List.mem_filter.mp (hof.returns.symm.subset (List.mem_map_of_mem hv))).1
  constructor
  · exact fun hright k h hof => (hjoined k h hof).mp (hright.joined k h hof)
  · intro hsettled
    refine ⟨?_, ?_, ?_, fun k h hof => (hjoined k h hof).mpr (hsettled k h hof)⟩
    · have hmap : (matchReturnsToRefills fills returns).map (·.refillId) =
          ((eventPairs fills returns).map Prod.fst).map (·.refillId) := by
        rw [matchReturnsToRefills_eq, List.map_map, List.map_map]
        rfl
      rw [hmap]
      refine (eventPairs_fst_nodup (List.Nodup.of_map _ hfills) returns).map_on fun f hf g hg heq => ?_
      obtain ⟨p, hp, rfl⟩ := List.mem_map.mp hf
      obtain ⟨q, hq, rfl⟩ := List.mem_map.mp hg
      exact List.inj_on_of_nodup_map hfills (mem_eventPairs hp).1 (mem_eventPairs hq).1 heq
    · have hmap : (matchReturnsToRefills fills returns).map (·.returnId) =
          ((eventPairs fills returns).map Prod.snd).map (·.returnId) := by
        rw [matchReturnsToRefills_eq, List.map_map, List.map_map]
        rfl
      rw [hmap]
      refine List.Nodup.sublist ((pairUp_snd_sublist _ _).map _) ?_
      exact ((List.perm_insertionSort _ returns).map _).nodup_iff.mpr hreturns
    · intro row hmem
      obtain ⟨⟨f, r⟩, hpair, rfl⟩ := List.mem_map.mp hmem
      obtain ⟨hf, hr, hkey, hday⟩ := mem_eventPairs hpair
      exact ⟨f, hf, r, hr, rfl, hkey, hday, fun grams hgrams => consumedGrams_bounds hgrams⟩

theorem matchedRight_oneVisit :
    MatchedRight [⟨1, 1, 3, 1, some 700, "cafe", "Cafe"⟩] [⟨1, 5, 3, 1, some 100⟩] := by
  refine (matchedRight_iff (by decide) (by decide)).mpr fun k h hof => ?_
  obtain ⟨visits, standing⟩ := h
  have hfills := (hof.fills.symm.subperm.length_le.trans (List.length_filter_le _ _))
  rcases visits with _ | ⟨v, _ | ⟨w, visits⟩⟩
  · trivial
  · rcases standing with _ | last
    · trivial
    · simp [History.fills] at hfills
  · simp only [History.fills, List.length_append, List.length_map, List.length_cons, List.length_nil] at hfills
    omega

def swapVisits : List ContainerFillEvent :=
  [⟨1, 1, 3, 1, some 700, "cafe", "Cafe"⟩, ⟨2, 5, 3, 1, some 750, "cafe", "Cafe"⟩]

def swapWeighed : List ContainerReturnEvent := [⟨1, 5, 3, 1, some 100⟩, ⟨2, 9, 3, 1, some 200⟩]

/-- The container is weighed and filled again on day 5; its return closes the fill of that day. -/
theorem matchedRight_swap : ¬ MatchedRight swapVisits swapWeighed := by
  intro hright
  have hof : History.Of ⟨swapVisits.zip swapWeighed, none⟩ swapVisits swapWeighed (1, 3) :=
    ⟨by decide, by decide, by decide⟩
  have hfirst := hright.joined _ _ hof (⟨1, 1, 3, 1, some 700, "cafe", "Cafe"⟩, ⟨1, 5, 3, 1, some 100⟩) (by decide)
  exact absurd hfirst (by decide)

end Mydon.Coffee
