import Mydon.Coffee.Pairings

/-! Where the two pairings agree. They pick by the days alone; on the day of a return the one takes a
fill of before, the other the last one, so they part where both kinds are there to choose from. -/

namespace Mydon.Coffee

open Mydon.Lib

/-! The picks on a sorted list of days, by the number of days before and up to the return's. -/

def before (days : List ℤ) (day : ℤ) : ℕ := days.countP fun d => d < day

def upTo (days : List ℤ) (day : ℤ) : ℕ := days.countP fun d => d ≤ day

variable {days : List ℤ} {day : ℤ}

theorem before_le_upTo (days : List ℤ) (day : ℤ) : before days day ≤ upTo days day :=
  List.countP_mono_left fun d _ h => by simp only [decide_eq_true_eq] at *; omega

theorem pairwise_lt (h : days.Pairwise (· ≤ ·)) (day : ℤ) :
    days.Pairwise fun a b => decide (b < day) = true → decide (a < day) = true :=
  h.imp fun hab hb => by simp only [decide_eq_true_eq] at *; omega

theorem pairwise_le (h : days.Pairwise (· ≤ ·)) (day : ℤ) :
    days.Pairwise fun a b => decide (b ≤ day) = true → decide (a ≤ day) = true :=
  h.imp fun hab hb => by simp only [decide_eq_true_eq] at *; omega

theorem upToDay_eq (h : days.Pairwise (· ≤ ·)) (i : ℕ) (picked : Option ℕ) :
    upToDay id day days i picked = if upTo days day = 0 then picked else some (i + upTo days day - 1) := by
  induction days generalizing i picked with
  | nil => rfl
  | cons d days ih =>
    rw [List.pairwise_cons] at h
    unfold upToDay upTo
    rw [id_eq]
    by_cases hd : d ≤ day
    · rw [if_pos hd, ih h.2, List.countP_cons_of_pos (by simpa using hd)]
      unfold upTo
      grind
    · have hnone : days.countP (fun d => decide (d ≤ day)) = 0 :=
        List.countP_eq_zero.mpr fun c hc hle => hd ((h.1 c hc).trans (of_decide_eq_true hle))
      rw [if_neg hd, List.countP_cons_of_neg (by simpa using hd), hnone, if_pos rfl]

theorem strictlyBefore_eq (h : days.Pairwise (· ≤ ·)) (i : ℕ) (picked : Option ℕ) :
    strictlyBefore id day days i picked = (if before days day = 0 then picked else some (i + before days day - 1),
      if before days day < upTo days day then some (i + before days day) else none) := by
  induction days generalizing i picked with
  | nil => rfl
  | cons d days ih =>
    rw [List.pairwise_cons] at h
    unfold strictlyBefore before upTo
    rw [id_eq]
    by_cases hd : d < day
    · rw [if_pos hd, ih h.2, List.countP_cons_of_pos (by simpa using hd),
        List.countP_cons_of_pos (by simpa using hd.le)]
      unfold before upTo
      congr 1
      · grind
      · grind
    · have hnone : days.countP (fun d => decide (d < day)) = 0 :=
        List.countP_eq_zero.mpr fun c hc hlt => hd ((h.1 c hc).trans_lt (of_decide_eq_true hlt))
      rw [if_neg hd, List.countP_cons_of_neg (by simpa using hd), hnone, if_pos rfl]
      by_cases heq : d = day
      · rw [List.countP_cons_of_pos (by simp [heq])]
        simp [heq]
      · have hle : ¬ d ≤ day := by omega
        have hnone' : days.countP (fun d => decide (d ≤ day)) = 0 :=
          List.countP_eq_zero.mpr fun c hc hc' => hle ((h.1 c hc).trans (of_decide_eq_true hc'))
        rw [List.countP_cons_of_neg (by simpa using hle), hnone']
        simp [heq]

theorem pickShared_eq (h : days.Pairwise (· ≤ ·)) (start : ℕ) :
    pickShared id days start day = if start < upTo days day then some (upTo days day - 1) else none := by
  have hdrop : upTo (days.drop start) day = upTo days day - start := countP_drop (pairwise_le h day) start
  unfold pickShared
  rw [upToDay_eq (h.drop), hdrop]
  grind

theorem pickNorm_eq (h : days.Pairwise (· ≤ ·)) (start : ℕ) :
    pickNorm id days start day = if start < before days day then some (before days day - 1)
      else if start < upTo days day then some start else none := by
  have hupTo : upTo (days.drop start) day = upTo days day - start := countP_drop (pairwise_le h day) start
  have hbefore : before (days.drop start) day = before days day - start := countP_drop (pairwise_lt h day) start
  unfold pickNorm
  rw [strictlyBefore_eq h.drop, hupTo, hbefore]
  have hle := before_le_upTo days day
  grind

/-! The cursors of both scans, along the returns in the order of their days. -/

def Refill.IsOf (f : Refill) (k : SetKey) : Prop := f.containerNumber = some k.1 ∧ f.position = k.2

/-- A fill of the return's day stands alone: every other fill of the key up to that day was due to be
closed by a return of an earlier day. -/
def Clear (refills : List Refill) (returns : List ContainerReturn) (r : ContainerReturn) : Prop :=
  ∀ f ∈ refills, ∀ g ∈ refills, f.IsOf r.key → g.IsOf r.key → f.enteredDate = r.returnedDate →
    g.enteredDate ≤ r.returnedDate → g ≠ f →
    ∃ r' ∈ returns, r'.key = r.key ∧ g.enteredDate ≤ r'.returnedDate ∧ r'.returnedDate < r.returnedDate

variable {refills : List Refill} {returns done rest : List ContainerReturn} {r : ContainerReturn} {k : SetKey}

theorem mem_fillsOf {f : Refill} : f ∈ fillsOf refills k ↔ f ∈ refills ∧ f.IsOf k := by
  unfold fillsOf Refill.IsOf
  rw [List.mem_insertionSort, List.mem_filter, decide_eq_true_eq]

theorem fillsOf_nodup (h : refills.Nodup) (k : SetKey) : (fillsOf refills k).Nodup :=
  (List.perm_insertionSort _ _).nodup_iff.mpr (h.filter _)

def datesOf (refills : List Refill) (k : SetKey) : List ℤ := (fillsOf refills k).map Refill.enteredDate

theorem datesOf_sorted (refills : List Refill) (k : SetKey) : (datesOf refills k).Pairwise (· ≤ ·) := by
  have : Std.Total fun a b : Refill => a.enteredDate ≤ b.enteredDate := ⟨fun a b => le_total _ _⟩
  have : IsTrans Refill fun a b => a.enteredDate ≤ b.enteredDate := ⟨fun _ _ _ => le_trans⟩
  exact List.pairwise_map.mpr (List.pairwise_insertionSort _ _)

/-- The fills of the key that a return among those done comes not before. -/
def passed (refills : List Refill) (done : List ContainerReturn) (k : SetKey) : ℕ :=
  (datesOf refills k).countP fun d => done.any fun r => r.key = k && d ≤ r.returnedDate

theorem getElem?_datesOf {i : ℕ} {f : Refill} (hf : (fillsOf refills k)[i]? = some f) :
    (datesOf refills k)[i]? = some f.enteredDate := by
  unfold datesOf
  rw [List.getElem?_map, hf, Option.map_some]

theorem lt_passed_iff {i : ℕ} {f : Refill} (hf : (fillsOf refills k)[i]? = some f) :
    i < passed refills done k ↔ ∃ r ∈ done, r.key = k ∧ f.enteredDate ≤ r.returnedDate := by
  have hsorted : (datesOf refills k).Pairwise fun a b =>
      (done.any fun r => r.key = k && b ≤ r.returnedDate) = true →
        (done.any fun r => r.key = k && a ≤ r.returnedDate) = true := by
    refine (datesOf_sorted refills k).imp fun hab hb => ?_
    simp only [List.any_eq_true, Bool.and_eq_true, decide_eq_true_eq] at hb ⊢
    obtain ⟨r, hr, hk, hle⟩ := hb
    exact ⟨r, hr, hk, hab.trans hle⟩
  unfold passed
  rw [lt_countP_iff hsorted (getElem?_datesOf hf)]
  simp only [List.any_eq_true, Bool.and_eq_true, decide_eq_true_eq]

theorem lt_upTo_iff {i : ℕ} {f : Refill} {day : ℤ} (hf : (fillsOf refills k)[i]? = some f) :
    i < upTo (datesOf refills k) day ↔ f.enteredDate ≤ day := by
  unfold upTo
  rw [lt_countP_iff (pairwise_le (datesOf_sorted refills k) day) (getElem?_datesOf hf), decide_eq_true_eq]

theorem lt_before_iff {i : ℕ} {f : Refill} {day : ℤ} (hf : (fillsOf refills k)[i]? = some f) :
    i < before (datesOf refills k) day ↔ f.enteredDate < day := by
  unfold before
  rw [lt_countP_iff (pairwise_lt (datesOf_sorted refills k) day) (getElem?_datesOf hf), decide_eq_true_eq]

theorem upTo_le_length (refills : List Refill) (k : SetKey) (day : ℤ) :
    upTo (datesOf refills k) day ≤ (fillsOf refills k).length := by
  have h : upTo (datesOf refills k) day ≤ (datesOf refills k).length := List.countP_le_length
  unfold datesOf at h
  rwa [List.length_map] at h

/-- A return of the day itself has passed every fill up to it. -/
theorem passed_eq_upTo (hle : ∀ r' ∈ done, r'.returnedDate ≤ r.returnedDate) {r₀ : ContainerReturn} (hr₀ : r₀ ∈ done)
    (hkey : r₀.key = r.key) (hday : r₀.returnedDate = r.returnedDate) :
    passed refills done r.key = upTo (datesOf refills r.key) r.returnedDate := by
  refine List.countP_congr fun d _ => ?_
  simp only [List.any_eq_true, Bool.and_eq_true, decide_eq_true_eq]
  exact ⟨fun ⟨r', hr', _, hd⟩ => hd.trans (hle r' hr'), fun hd => ⟨r₀, hr₀, hkey, hday ▸ hd⟩⟩

theorem passed_le_upTo (refills : List Refill) (hle : ∀ r' ∈ done, r'.returnedDate ≤ r.returnedDate) :
    passed refills done r.key ≤ upTo (datesOf refills r.key) r.returnedDate := by
  refine List.countP_mono_left fun d _ hd => ?_
  simp only [List.any_eq_true, Bool.and_eq_true, decide_eq_true_eq] at hd ⊢
  obtain ⟨r', hr', _, hd⟩ := hd
  exact hd.trans (hle r' hr')

theorem passed_le_before (refills : List Refill) (hlt : ∀ r' ∈ done, r'.key = r.key → r'.returnedDate < r.returnedDate) :
    passed refills done r.key ≤ before (datesOf refills r.key) r.returnedDate := by
  refine List.countP_mono_left fun d _ hd => ?_
  simp only [List.any_eq_true, Bool.and_eq_true, decide_eq_true_eq] at hd ⊢
  obtain ⟨r', hr', hk, hd⟩ := hd
  exact hd.trans_lt (hlt r' hr' hk)

/-- The return that is done last passes the fills up to its day. -/
theorem passed_snoc (hle : ∀ r' ∈ done, r'.returnedDate ≤ r.returnedDate) : passed refills (done ++ [r]) =
    Function.update (passed refills done) r.key (upTo (datesOf refills r.key) r.returnedDate) := by
  funext k
  by_cases hk : k = r.key
  · subst hk
    rw [Function.update_self]
    refine passed_eq_upTo (fun r' hr' => ?_) (List.mem_append_right _ (List.mem_singleton_self r)) rfl rfl
    rcases List.mem_append.mp hr' with h | h
    · exact hle r' h
    · rw [List.mem_singleton.mp h]
  · rw [Function.update_of_ne hk]
    refine List.countP_congr fun d _ => ?_
    simp only [List.any_append, List.any_cons, List.any_nil, Ne.symm hk, decide_false, Bool.false_and, Bool.or_false]

/-! What the two rules take for one return. -/

theorem exists_fill {day : ℤ} {i : ℕ} (hi : i < upTo (datesOf refills k) day) : ∃ f, (fillsOf refills k)[i]? = some f :=
  ⟨_, List.getElem?_eq_getElem (hi.trans_le (upTo_le_length refills k day))⟩

/-- On a clear return the rules pick the same. -/
theorem pick_eq_of_clear (hnodup : refills.Nodup) (hle : ∀ r' ∈ done, r'.returnedDate ≤ r.returnedDate)
    (hdone : ∀ r' ∈ returns, r'.returnedDate < r.returnedDate → r' ∈ done) (hclear : Clear refills returns r) :
    pickNorm id (datesOf refills r.key) (passed refills done r.key) r.returnedDate =
      pickShared id (datesOf refills r.key) (passed refills done r.key) r.returnedDate := by
  rw [pickNorm_eq (datesOf_sorted refills r.key), pickShared_eq (datesOf_sorted refills r.key)]
  have hbefore := before_le_upTo (datesOf refills r.key) r.returnedDate
  by_cases hsame : ∃ r₀ ∈ done, r₀.key = r.key ∧ r₀.returnedDate = r.returnedDate
  · obtain ⟨r₀, hr₀, hkey, hday⟩ := hsame
    rw [passed_eq_upTo hle hr₀ hkey hday, if_neg (by omega), if_neg (lt_irrefl _), if_neg (lt_irrefl _)]
  · have hpassed : passed refills done r.key ≤ before (datesOf refills r.key) r.returnedDate :=
      passed_le_before refills fun r' hr' hk => lt_of_le_of_ne (hle r' hr') fun hday => hsame ⟨r', hr', hk, hday⟩
    by_cases htie : before (datesOf refills r.key) r.returnedDate = upTo (datesOf refills r.key) r.returnedDate
    · rw [htie] at hpassed ⊢
      split_ifs <;> rfl
    · -- the first fill of the day; no other fill up to the day is left
      obtain ⟨f, hf⟩ := exists_fill (lt_of_le_of_ne hbefore htie)
      have hfday : f.enteredDate = r.returnedDate := by
        have hup := (lt_upTo_iff hf).mp (lt_of_le_of_ne hbefore htie)
        have hnot := (not_congr (lt_before_iff hf)).mp (lt_irrefl _)
        omega
      have hother : ∀ j g, (fillsOf refills r.key)[j]? = some g → g.enteredDate ≤ r.returnedDate →
          j ≠ before (datesOf refills r.key) r.returnedDate → j < passed refills done r.key := by
        intro j g hg hgday hj
        have hne : g ≠ f := by
          rintro rfl
          have hlength := (List.getElem?_eq_some_iff.mp hg).1
          exact hj ((List.getElem?_inj hlength (fillsOf_nodup hnodup r.key)).mp (hg.trans hf.symm))
        obtain ⟨hfmem, hfof⟩ := mem_fillsOf.mp (List.mem_of_getElem? hf)
        obtain ⟨hgmem, hgof⟩ := mem_fillsOf.mp (List.mem_of_getElem? hg)
        obtain ⟨r', hr', hkey, hcovers, hlt⟩ := hclear f hfmem g hgmem hfof hgof hfday hgday hne
        exact (lt_passed_iff hg).mpr ⟨r', hdone r' hr' hlt, hkey, hcovers⟩
      have hlast : upTo (datesOf refills r.key) r.returnedDate = before (datesOf refills r.key) r.returnedDate + 1 := by
        by_contra hmore
        have hj : before (datesOf refills r.key) r.returnedDate + 1 <
            upTo (datesOf refills r.key) r.returnedDate := by omega
        obtain ⟨g, hg⟩ := exists_fill hj
        have := hother _ g hg ((lt_upTo_iff hg).mp hj) (by omega)
        omega
      have hnone : passed refills done r.key = before (datesOf refills r.key) r.returnedDate := by
        by_contra hmore
        have hj : before (datesOf refills r.key) r.returnedDate - 1 <
            upTo (datesOf refills r.key) r.returnedDate := by omega
        obtain ⟨g, hg⟩ := exists_fill hj
        have := hother _ g hg ((lt_upTo_iff hg).mp hj) (by omega)
        omega
      rw [hnone, if_neg (lt_irrefl _), hlast, if_pos (by omega), if_pos (by omega)]
      simp

/-- On the first return of its day that is not clear the rules pick different fills. -/
theorem pick_ne_of_not_clear (hle : ∀ r' ∈ done, r'.returnedDate ≤ r.returnedDate)
    (hreturns : ∀ r' ∈ done, r' ∈ returns)
    (hfirst : ∀ r' ∈ done, r'.key = r.key → r'.returnedDate ≠ r.returnedDate) (hclear : ¬ Clear refills returns r) :
    ∃ i j, pickNorm id (datesOf refills r.key) (passed refills done r.key) r.returnedDate = some i ∧
      pickShared id (datesOf refills r.key) (passed refills done r.key) r.returnedDate = some j ∧ i ≠ j ∧
      i < (fillsOf refills r.key).length ∧ j < (fillsOf refills r.key).length := by
  rw [pickNorm_eq (datesOf_sorted refills r.key), pickShared_eq (datesOf_sorted refills r.key)]
  unfold Clear at hclear
  push Not at hclear
  obtain ⟨f, hf, g, hg, hfof, hgof, hfday, hgday, hne, hopen⟩ := hclear
  obtain ⟨i, hi⟩ := List.mem_iff_getElem?.mp (mem_fillsOf.mpr ⟨hf, hfof⟩)
  obtain ⟨j, hj⟩ := List.mem_iff_getElem?.mp (mem_fillsOf.mpr ⟨hg, hgof⟩)
  have hij : i ≠ j := by
    rintro rfl
    exact hne (Option.some.inj (hj.symm.trans hi))
  have hlt : ∀ r' ∈ done, r'.key = r.key → r'.returnedDate < r.returnedDate :=
    fun r' hr' hk => lt_of_le_of_ne (hle r' hr') (hfirst r' hr' hk)
  have hpassed := passed_le_before refills hlt
  have hi' := (lt_upTo_iff hi).mpr hfday.le
  have hi'' := (not_congr (lt_before_iff hi)).mpr (not_lt.mpr hfday.ge)
  have hj' := (lt_upTo_iff hj).mpr hgday
  have hj'' : ¬ j < passed refills done r.key := by
    intro hlt'
    obtain ⟨r', hr', hk, hcovers⟩ := (lt_passed_iff hj).mp hlt'
    have hle' := hopen r' (hreturns r' hr') hk hcovers
    have := hlt r' hr' hk
    omega
  have hlength := upTo_le_length refills r.key r.returnedDate
  have hleft : passed refills done r.key < upTo (datesOf refills r.key) r.returnedDate := by omega
  by_cases hstrict : passed refills done r.key < before (datesOf refills r.key) r.returnedDate
  · refine ⟨_, _, if_pos hstrict, if_pos hleft, ?_, ?_, ?_⟩ <;> omega
  · refine ⟨_, _, (if_neg hstrict).trans (if_pos hleft), if_pos hleft, ?_, ?_, ?_⟩ <;> omega

/-! The scans over all returns. -/

/-- The rule as the scan reads it. -/
def byDates (pick : List ℤ → ℕ → ℤ → Option ℕ) (list : List Refill) (start : ℕ) (r : ContainerReturn) : Option ℕ :=
  pick (list.map Refill.enteredDate) start r.returnedDate

theorem sortedReturns_sorted (returns : List ContainerReturn) :
    (sortedReturns returns).Pairwise fun a b => a.returnedDate ≤ b.returnedDate := by
  have : Std.Total fun a b : ContainerReturn => a.returnedDate ≤ b.returnedDate := ⟨fun a b => le_total _ _⟩
  have : IsTrans ContainerReturn fun a b => a.returnedDate ≤ b.returnedDate := ⟨fun _ _ _ => le_trans⟩
  exact List.pairwise_insertionSort _ _

theorem mem_sortedReturns : r ∈ sortedReturns returns ↔ r ∈ returns := List.mem_insertionSort _

/-- The returns done before `r` are not later, and all the earlier ones are among them. -/
theorem done_of_sorted (h : sortedReturns returns = done ++ r :: rest) :
    (∀ r' ∈ done, r'.returnedDate ≤ r.returnedDate) ∧
      (∀ r' ∈ returns, r'.returnedDate < r.returnedDate → r' ∈ done) ∧ ∀ r' ∈ done, r' ∈ returns := by
  have hsorted := sortedReturns_sorted returns
  rw [h, List.pairwise_append, List.pairwise_cons] at hsorted
  obtain ⟨-, ⟨hrest, -⟩, hdone⟩ := hsorted
  refine ⟨fun r' hr' => hdone r' hr' r List.mem_cons_self, fun r' hr' hlt => ?_, fun r' hr' => ?_⟩
  · have hmem := mem_sortedReturns.mpr hr'
    rw [h] at hmem
    rcases List.mem_append.mp hmem with hd | hd
    · exact hd
    · rcases List.mem_cons.mp hd with rfl | hd
      · exact absurd hlt (lt_irrefl _)
      · exact absurd hlt (not_lt.mpr (hrest r' hd))
  · rw [← mem_sortedReturns, h]
    exact List.mem_append_left _ hr'

/-- The fill that the shared rule takes for a return. -/
def taken (refills : List Refill) (done : List ContainerReturn) (r : ContainerReturn) : List Refill :=
  ((byDates (pickShared id) (fillsOf refills r.key) (passed refills done r.key) r).bind
    ((fillsOf refills r.key)[·]?)).toList

/-- A rule that takes what the shared one takes leaves the cursor behind the fills up to the day. -/
theorem pairUp_step {pick : List ℤ → ℕ → ℤ → Option ℕ} (hle : ∀ r' ∈ done, r'.returnedDate ≤ r.returnedDate)
    (hpick : pick (datesOf refills r.key) (passed refills done r.key) r.returnedDate =
      pickShared id (datesOf refills r.key) (passed refills done r.key) r.returnedDate) :
    pairUp (fillsOf refills) ContainerReturn.key (byDates pick) (passed refills done) (r :: rest) =
      (taken refills done r).map (·, r) ++
        pairUp (fillsOf refills) ContainerReturn.key (byDates pick) (passed refills (done ++ [r])) rest := by
  have hshared : byDates (pickShared id) (fillsOf refills r.key) (passed refills done r.key) r = _ :=
    pickShared_eq (datesOf_sorted refills r.key) _
  have hsame : byDates pick (fillsOf refills r.key) (passed refills done r.key) r = _ := hpick.trans hshared
  have hpassed := passed_le_upTo refills hle
  unfold taken
  rw [passed_snoc hle, hshared]
  by_cases hleft : passed refills done r.key < upTo (datesOf refills r.key) r.returnedDate
  · rw [if_pos hleft] at hsame ⊢
    obtain ⟨f, hf⟩ : ∃ f, (fillsOf refills r.key)[upTo (datesOf refills r.key) r.returnedDate - 1]? = some f :=
      exists_fill (Nat.sub_lt (Nat.zero_lt_of_lt hleft) Nat.one_pos)
    rw [pairUp_of_some hsame hf, Nat.sub_add_cancel (Nat.one_le_of_lt hleft), Option.bind_some, hf]
    rfl
  · rw [if_neg hleft] at hsame ⊢
    have hall : upTo (datesOf refills r.key) r.returnedDate = passed refills done r.key := by omega
    rw [pairUp_of_none hsame, hall, Function.update_eq_self]
    rfl

theorem pairUp_eq_of_clear (hnodup : refills.Nodup) (h : sortedReturns returns = done ++ rest)
    (hclear : ∀ r ∈ rest, Clear refills returns r) :
    pairUp (fillsOf refills) ContainerReturn.key (byDates (pickNorm id)) (passed refills done) rest =
      pairUp (fillsOf refills) ContainerReturn.key (byDates (pickShared id)) (passed refills done) rest := by
  induction rest generalizing done with
  | nil => rfl
  | cons r rest ih =>
    obtain ⟨hle, hearlier, -⟩ := done_of_sorted h
    have hpick := pick_eq_of_clear hnodup hle hearlier (hclear r List.mem_cons_self)
    rw [pairUp_step hle hpick, pairUp_step hle rfl,
      ih (by simpa using h) fun r' hr' => hclear r' (List.mem_cons_of_mem _ hr')]

/-- From the first return that is not clear on, some pair of the one scan is not of the other. -/
theorem exists_pair_of_not_clear (hnodup : refills.Nodup) (hrest : rest.Nodup)
    (h : sortedReturns returns = done ++ rest) (hdone : ∀ r ∈ done, Clear refills returns r)
    (hclear : ¬ ∀ r ∈ rest, Clear refills returns r) :
    ∃ pair ∈ pairUp (fillsOf refills) ContainerReturn.key (byDates (pickNorm id)) (passed refills done) rest,
      pair ∉ pairUp (fillsOf refills) ContainerReturn.key (byDates (pickShared id)) (passed refills done) rest := by
  induction rest generalizing done with
  | nil => exact absurd (List.forall_mem_nil _) hclear
  | cons r rest ih =>
    obtain ⟨hle, hearlier, hreturns⟩ := done_of_sorted h
    rw [List.nodup_cons] at hrest
    by_cases hr : Clear refills returns r
    · -- both take the same for `r`; its pair is of no later return
      have hdone' : ∀ r' ∈ done ++ [r], Clear refills returns r' :=
        List.forall_mem_append.mpr ⟨hdone, List.forall_mem_singleton.mpr hr⟩
      obtain ⟨pair, hmem, hnot⟩ := ih hrest.2 (by simpa using h) hdone'
        fun hall => hclear (List.forall_mem_cons.mpr ⟨hr, hall⟩)
      rw [pairUp_step hle (pick_eq_of_clear hnodup hle hearlier hr), pairUp_step hle rfl]
      refine ⟨pair, List.mem_append_right _ hmem, fun hin => ?_⟩
      rcases List.mem_append.mp hin with hhead | htail
      · obtain ⟨f, -, rfl⟩ := List.mem_map.mp hhead
        exact hrest.1 (mem_of_mem_pairUp hmem).1
      · exact hnot htail
    · -- `r` is the first return of its day, since `Clear` speaks of the day alone
      have hfirst : ∀ r' ∈ done, r'.key = r.key → r'.returnedDate ≠ r.returnedDate := by
        intro r' hr' hkey hday
        have hclear' := hdone r' hr'
        unfold Clear at hclear' hr
        rw [hkey, hday] at hclear'
        exact hr hclear'
      obtain ⟨i, j, hi, hj, hne, hilt, hjlt⟩ := pick_ne_of_not_clear hle hreturns hfirst hr
      have hfi := List.getElem?_eq_getElem hilt
      have hfj := List.getElem?_eq_getElem hjlt
      refine ⟨((fillsOf refills r.key)[i], r), ?_, fun hin => ?_⟩
      · rw [pairUp_of_some (show byDates (pickNorm id) _ _ r = some i from hi) hfi]
        exact List.mem_cons_self
      · rw [pairUp_of_some (show byDates (pickShared id) _ _ r = some j from hj) hfj] at hin
        rcases List.mem_cons.mp hin with heq | htail
        · have hget : (fillsOf refills r.key)[i]? = (fillsOf refills r.key)[j]? := by
            rw [hfi, hfj, (Prod.mk.inj heq).1]
          exact hne ((List.getElem?_inj hilt (fillsOf_nodup hnodup r.key)).mp hget)
        · exact hrest.1 (mem_of_mem_pairUp htail).1

/-! Both functions of the source are such scans. -/

theorem pickNorm_map {α : Type*} (date : α → ℤ) (list : List α) (start : ℕ) (day : ℤ) :
    pickNorm date list start day = pickNorm id (list.map date) start day := by
  have hloop : ∀ (l : List α) (i : ℕ) (picked : Option ℕ),
      strictlyBefore date day l i picked = strictlyBefore id day (l.map date) i picked := by
    intro l
    induction l with
    | nil => exact fun _ _ => rfl
    | cons f l ih =>
      intro i picked
      rw [List.map_cons, strictlyBefore, strictlyBefore, ih, id_eq]
  unfold pickNorm
  rw [hloop, List.map_drop]

theorem pickShared_map {α : Type*} (date : α → ℤ) (list : List α) (start : ℕ) (day : ℤ) :
    pickShared date list start day = pickShared id (list.map date) start day := by
  have hloop : ∀ (l : List α) (i : ℕ) (picked : Option ℕ),
      upToDay date day l i picked = upToDay id day (l.map date) i picked := by
    intro l
    induction l with
    | nil => exact fun _ _ => rfl
    | cons f l ih =>
      intro i picked
      rw [List.map_cons, upToDay, upToDay, ih, id_eq]
  unfold pickShared
  rw [hloop, List.map_drop]

variable (refills returns) (tareByKey : SetKey → Option ℤ)

/-- What the two functions read a fill as. -/
def toNormFill (f : Refill) : NormFill :=
  ⟨f.id, f.enteredDate, f.locationId, f.ingredientId,
    netWeight f.filledWeight (tareByKey (f.containerNumber.getD 0, f.position))⟩

def toFillEvent (f : Refill) : ContainerFillEvent :=
  ⟨f.id, f.enteredDate, f.position, f.containerNumber.getD 0,
    netWeight f.filledWeight (tareByKey (f.containerNumber.getD 0, f.position)), f.locationId, f.locationName⟩

/-- The days sort what the fills are read as like the fills themselves. -/
theorem map_fillsOf {β : Type*} (read : Refill → β) (date : β → ℤ) (hdate : ∀ f, date (read f) = f.enteredDate)
    (k : SetKey) : (fillsOf refills k).map read =
      ((refills.filter fun f => f.containerNumber = some k.1 ∧ f.position = k.2).map read).insertionSort
        fun a b => date a ≤ date b :=
  List.map_insertionSort _ (fun a b => date a ≤ date b) read _ fun a _ b _ => by rw [hdate, hdate]

theorem normFills_eq (k : SetKey) : normFills refills tareByKey k = (fillsOf refills k).map (toNormFill tareByKey) := by
  rw [map_fillsOf refills (toNormFill tareByKey) NormFill.date fun _ => rfl]
  unfold normFills
  congr 1
  refine List.map_congr_left fun f hf => ?_
  obtain ⟨-, hkey⟩ := List.mem_filter.mp hf
  obtain ⟨hcontainer, hposition⟩ := of_decide_eq_true hkey
  unfold toNormFill
  rw [hcontainer, Option.getD_some, hposition]

theorem eventFills_eq (k : SetKey) :
    eventFills (refills.filterMap (fillEvent tareByKey)) k = (fillsOf refills k).map (toFillEvent tareByKey) := by
  rw [map_fillsOf refills (toFillEvent tareByKey) ContainerFillEvent.date fun _ => rfl]
  unfold eventFills
  congr 1
  induction refills with
  | nil => rfl
  | cons f refills ih =>
    rcases hc : f.containerNumber with _ | container
    · have hnone : fillEvent tareByKey f = none := by simp [fillEvent, hc]
      rw [List.filterMap_cons_none hnone, List.filter_cons_of_neg (by simp [hc]), ih]
    · have hsome : fillEvent tareByKey f = some (toFillEvent tareByKey f) := by simp [fillEvent, toFillEvent, hc]
      rw [List.filterMap_cons_some hsome]
      by_cases hk : container = k.1 ∧ f.position = k.2
      · rw [List.filter_cons_of_pos (by simp [toFillEvent, hc, hk]), List.filter_cons_of_pos (by simp [hc, hk]),
          List.map_cons, ih]
      · rw [List.filter_cons_of_neg (by simpa [toFillEvent, hc] using hk),
          List.filter_cons_of_neg (by simpa [hc] using hk), ih]

/-- The pairs of rows that the norm report makes, by the ids of the rows. -/
def normPairs : List (ℕ × ℕ) := (matchRefillsToReturns refills returns tareByKey).map fun p => (p.refillId, p.returnId)

def sharedPairs : List (ℕ × ℕ) := (consumptionRows refills returns tareByKey).map fun p => (p.refillId, p.returnId)

theorem normPairs_eq : normPairs refills returns tareByKey =
    (pairUp (fillsOf refills) ContainerReturn.key (byDates (pickNorm id)) (fun _ => 0) (sortedReturns returns)).map
      fun p => (p.1.id, p.2.id) := by
  have hfills : normFills refills tareByKey = fun k => (fillsOf refills k).map (toNormFill tareByKey) :=
    funext (normFills_eq refills tareByKey)
  have hreturns := List.map_insertionSort (fun a b : ContainerReturn => a.returnedDate ≤ b.returnedDate)
    (fun a b : NormReturn => a.date ≤ b.date) (normReturn tareByKey) returns fun _ _ _ _ => Iff.rfl
  have hpick : ∀ list start (r : ContainerReturn), pickNorm NormFill.date (list.map (toNormFill tareByKey)) start
      (normReturn tareByKey r).date = byDates (pickNorm id) list start r := by
    intro list start r
    rw [pickNorm_map, List.map_map]
    rfl
  unfold normPairs matchRefillsToReturns
  dsimp only
  rw [hfills, ← hreturns, pairUp_map (toNormFill tareByKey) (normReturn tareByKey) (fun _ => rfl) hpick, List.map_map,
    List.map_map]
  rfl

theorem sharedPairs_eq : sharedPairs refills returns tareByKey =
    (pairUp (fillsOf refills) ContainerReturn.key (byDates (pickShared id)) (fun _ => 0) (sortedReturns returns)).map
      fun p => (p.1.id, p.2.id) := by
  have hfills : eventFills (refills.filterMap (fillEvent tareByKey)) =
      fun k => (fillsOf refills k).map (toFillEvent tareByKey) := funext (eventFills_eq refills tareByKey)
  have hreturns := List.map_insertionSort (fun a b : ContainerReturn => a.returnedDate ≤ b.returnedDate)
    (fun a b : ContainerReturnEvent => a.date ≤ b.date) (returnEvent tareByKey) returns
    fun _ _ _ _ => Iff.rfl
  have hpick : ∀ list start (r : ContainerReturn),
      pickShared ContainerFillEvent.date (list.map (toFillEvent tareByKey)) start (returnEvent tareByKey r).date =
        byDates (pickShared id) list start r := by
    intro list start r
    rw [pickShared_map, List.map_map]
    rfl
  unfold sharedPairs consumptionRows matchReturnsToRefills
  dsimp only
  rw [hfills, ← hreturns, pairUp_map (toFillEvent tareByKey) (returnEvent tareByKey) (fun _ => rfl) hpick, List.map_map,
    List.map_map]
  rfl

variable {refills returns tareByKey}

/-- The reports attribute every return to the same fill exactly where no fill of a return's own day
competes with another one that is still open. -/
theorem pairings_agree_iff (hrefills : (refills.map Refill.id).Nodup)
    (hreturns : (returns.map ContainerReturn.id).Nodup) :
    (∀ pair, pair ∈ normPairs refills returns tareByKey ↔ pair ∈ sharedPairs refills returns tareByKey) ↔
      ∀ r ∈ returns, Clear refills returns r := by
  have hstart : (fun _ => 0) = passed refills [] := by
    funext k
    exact (List.countP_eq_zero.mpr fun _ _ => Bool.false_ne_true).symm
  have hclear : (∀ r ∈ returns, Clear refills returns r) ↔ ∀ r ∈ sortedReturns returns, Clear refills returns r :=
    forall_congr' fun r => by rw [mem_sortedReturns]
  rw [normPairs_eq, sharedPairs_eq, hclear, hstart]
  constructor
  · intro hsame
    by_contra hnot
    have hnodup : (sortedReturns returns).Nodup :=
      (List.perm_insertionSort _ _).nodup_iff.mpr (List.Nodup.of_map _ hreturns)
    obtain ⟨pair, hmem, hother⟩ := exists_pair_of_not_clear (List.Nodup.of_map _ hrefills) hnodup
      (List.nil_append _).symm (List.forall_mem_nil _) hnot
    obtain ⟨pair', hmem', hids⟩ := List.mem_map.mp ((hsame _).mp (List.mem_map_of_mem hmem))
    obtain ⟨hfill, hreturn⟩ := Prod.mk.inj hids
    obtain ⟨hr, hf⟩ := mem_of_mem_pairUp hmem
    obtain ⟨hr', hf'⟩ := mem_of_mem_pairUp hmem'
    have heq : pair' = pair := Prod.ext
      (List.inj_on_of_nodup_map hrefills (mem_fillsOf.mp hf').1 (mem_fillsOf.mp hf).1 hfill)
      (List.inj_on_of_nodup_map hreturns (mem_sortedReturns.mp hr') (mem_sortedReturns.mp hr) hreturn)
    exact hother (heq ▸ hmem')
  · intro hall pair
    rw [pairUp_eq_of_clear (List.Nodup.of_map _ hrefills) (List.nil_append _).symm hall]

/-- Container 3 at position 1: filled on day 1 and day 5, returned on day 5 and day 9. -/
def swapFills : List Refill :=
  [⟨1, 1, some 3, 1, 900, "cafe", "Cafe", some "coffee"⟩, ⟨2, 1, some 3, 5, 950, "cafe", "Cafe", some "coffee"⟩]

def swapReturns : List ContainerReturn := [⟨1, 1, 3, 300, 5⟩, ⟨2, 1, 3, 400, 9⟩]

theorem pairings_agree_earlierFill : normPairs swapFills [⟨1, 1, 3, 300, 4⟩] (fun _ => some 200) = [(1, 1)] ∧
    ∀ pair, pair ∈ normPairs swapFills [⟨1, 1, 3, 300, 4⟩] (fun _ => some 200) ↔
      pair ∈ sharedPairs swapFills [⟨1, 1, 3, 300, 4⟩] fun _ => some 200 :=
  ⟨by decide, (pairings_agree_iff (by decide) (by decide)).mpr (by unfold Clear Refill.IsOf; decide)⟩

/-- The container is taken off and put back filled in one visit: the return closes the fill of day 1 in the
one report and that of day 5 in the others, which lose the pair of the next return. -/
theorem pairings_disagree_swap : normPairs swapFills swapReturns (fun _ => some 200) = [(1, 1), (2, 2)] ∧
    sharedPairs swapFills swapReturns (fun _ => some 200) = [(2, 1)] ∧
    ¬ ∀ pair, pair ∈ normPairs swapFills swapReturns (fun _ => some 200) ↔
      pair ∈ sharedPairs swapFills swapReturns fun _ => some 200 := by
  have hnorm : normPairs swapFills swapReturns (fun _ => some 200) = [(1, 1), (2, 2)] := by decide
  have hshared : sharedPairs swapFills swapReturns (fun _ => some 200) = [(2, 1)] := by decide
  refine ⟨hnorm, hshared, fun h => ?_⟩
  rw [hnorm, hshared] at h
  exact absurd ((h (1, 1)).mp (by decide)) (by decide)

end Mydon.Coffee
