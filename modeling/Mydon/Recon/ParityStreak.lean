import Mathlib.Data.Rat.Floor
import Mydon.Clock
import Mydon.Js.Json
import Mydon.Lib.Latest

/-! The streak of green days of the OurVend parity, the gate of the cut-over. Days are
counted backwards from today, or from yesterday while today has no event. -/

namespace Mydon.Recon

open Mydon.Lib Mydon.Js

structure ParityEventRow where
  occurredAt : ℤ
  payload : Json

structure ParityDay where
  date : ℤ
  ok : Bool
  salesChecked : ℚ
  stockChecked : ℚ
  note : Option String
  deriving DecidableEq

/-- A number of the host language. -/
inductive Number
  | finite (n : ℚ)
  | infinity
  | negInfinity
  | nan
  deriving DecidableEq

structure ParityStreak where
  greenDays : ℕ
  threshold : Number
  readyForCutover : Bool
  days : List ParityDay
  lastRed : Option ℤ
  since : Option ℤ
  deriving DecidableEq

def PARITY_STREAK_WINDOW : ℕ := 14

def field (payload : Json) (key : String) : Option ℚ := (payload.get? key).bind Json.asNumber

/-- `число`. -/
def numberOr0 (v : Option ℚ) : ℚ := v.getD 0

/-- `зелёный`: the day's own fields only. -/
def green (p : Json) : Bool :=
  (p.get? "день_ok").any Json.isTrue && (field p "день_продаж_сверено").isSome &&
    (field p "день_остатков_сверено").any (0 < ·) && field p "день_расхождений" = some 0

/-- `предыдущийДень`. -/
def previousDay (date : ℤ) : ℤ := Clock.tashkentDay (Clock.tashkentDayStart date - Clock.DAY_MS)

def trunc (n : ℚ) : ℤ := if 0 ≤ n then ⌊n⌋ else ⌈n⌉

/-- `Math.max(1, Math.trunc(threshold) || 1)`. -/
def thresholdFloor : Number → Number
  | .finite n => .finite (max 1 (if trunc n = 0 then 1 else trunc n) : ℤ)
  | .infinity => .infinity
  | .negInfinity => .finite 1
  | .nan => .finite 1

/-- `n >= threshold`. -/
def reaches (n : ℕ) : Number → Bool
  | .finite threshold => threshold ≤ n
  | .infinity => false
  | .negInfinity => true
  | .nan => false

def dayOf (e : ParityEventRow) : ℤ := Clock.tashkentDay e.occurredAt

/-- `поДням`: of the events of one day the latest. -/
def byDay (events : List ParityEventRow) : List (ℤ × ParityEventRow) :=
  Matching.byKey dayOf (events.insertionSort fun a b => a.occurredAt ≤ b.occurredAt)

def parityDay (entry : ℤ × ParityEventRow) : ParityDay where
  date := entry.1
  ok := green entry.2.payload
  salesChecked := numberOr0 (field entry.2.payload "день_продаж_сверено")
  stockChecked := numberOr0 (field entry.2.payload "день_остатков_сверено")
  note :=
    match (entry.2.payload.get? "день_примечание").bind Json.asString with
    | some note => some note
    | none => (entry.2.payload.get? "примечание").bind Json.asString

/-- `дни`, the freshest first. -/
def parityDays (events : List ParityEventRow) : List ParityDay :=
  ((byDay events).map parityDay).insertionSort fun a b => b.date ≤ a.date

/-- `зелёныеДни`. -/
def greenByDate (days : List ParityDay) : List (ℤ × Bool) :=
  OrderedMap.mapValues ParityDay.ok (Matching.byKey ParityDay.date days)

/-- The loop back over the days; without an answer when `fuel` runs out. -/
def walk (greens : List (ℤ × Bool)) : ℕ → ℤ → ℕ → Option ℤ → Option (ℕ × Option ℤ)
  | 0, _, _, _ => none
  | fuel + 1, cursor, greenDays, since =>
    if OrderedMap.get greens cursor = some true then walk greens fuel (previousDay cursor) (greenDays + 1) (some cursor)
    else some (greenDays, since)

def parityStreak (events : List ParityEventRow) (threshold : Number) (today : ℤ) : Option ParityStreak :=
  let days := parityDays events
  let greens := greenByDate days
  let cursor := if (OrderedMap.get greens today).isSome then today else previousDay today
  (walk greens (days.length + 1) cursor 0 none).map fun (greenDays, since) =>
    { greenDays := greenDays
      threshold := thresholdFloor threshold
      readyForCutover := 0 < greenDays && reaches greenDays (thresholdFloor threshold)
      days := days.take PARITY_STREAK_WINDOW
      lastRed := (days.find? fun d => !d.ok).map ParityDay.date
      since := since }

/-! The days of the journal. -/

variable {events : List ParityEventRow}

/-- The day's latest event, of those of one moment the last in the list. -/
def LatestOn (events : List ParityEventRow) (day : ℤ) (e : ParityEventRow) : Prop :=
  dayOf e = day ∧ ∃ front back, events = front ++ e :: back ∧
    (∀ e' ∈ front, dayOf e' = day → e'.occurredAt ≤ e.occurredAt) ∧ ∀ e' ∈ back, dayOf e' = day → e'.occurredAt < e.occurredAt

def GreenOn (events : List ParityEventRow) (day : ℤ) : Prop := ∃ e, LatestOn events day e ∧ green e.payload = true

theorem get_byDay (events : List ParityEventRow) (day : ℤ) :
    OrderedMap.get (byDay events) day = Latest.latest ParityEventRow.occurredAt (fun e => dayOf e = day) events :=
  Latest.get_byKey_sorted dayOf events day

theorem get_byDay_eq_some {day : ℤ} {e : ParityEventRow} :
    OrderedMap.get (byDay events) day = some e ↔ LatestOn events day e := by
  rw [get_byDay, Latest.latest_eq_some_iff]
  unfold Latest.IsLatest LatestOn
  simp only [decide_eq_true_eq]

theorem get_byDay_isSome {day : ℤ} : (OrderedMap.get (byDay events) day).isSome ↔ ∃ e ∈ events, dayOf e = day := by
  rw [get_byDay, Option.isSome_iff_ne_none, Ne, Latest.latest_eq_none_iff]
  simp

theorem parityDays_perm (events : List ParityEventRow) : (parityDays events).Perm ((byDay events).map parityDay) :=
  List.perm_insertionSort _ _

theorem dates_nodup (events : List ParityEventRow) : ((parityDays events).map ParityDay.date).Nodup := by
  have hkeys : (OrderedMap.keys (byDay events)).Nodup := Matching.nodup_byKey
  have hmap : ((byDay events).map parityDay).map ParityDay.date = OrderedMap.keys (byDay events) := by
    rw [List.map_map]
    rfl
  exact ((parityDays_perm events).map ParityDay.date).nodup_iff.mpr (hmap ▸ hkeys)

theorem get_greenByDate (events : List ParityEventRow) (day : ℤ) :
    OrderedMap.get (greenByDate (parityDays events)) day =
      (OrderedMap.get (byDay events) day).map fun e => green e.payload := by
  have hnodup : (OrderedMap.keys (byDay events)).Nodup := Matching.nodup_byKey
  have hmem : ∀ d, OrderedMap.get (Matching.byKey ParityDay.date (parityDays events)) day = some d ↔
      ∃ e, OrderedMap.get (byDay events) day = some e ∧ d = parityDay (day, e) := by
    intro d
    rw [Matching.get_byKey (dates_nodup events), (parityDays_perm events).mem_iff, List.mem_map]
    constructor
    · rintro ⟨⟨⟨day', e⟩, he, rfl⟩, rfl⟩
      exact ⟨e, OrderedMap.get_of_mem hnodup he, rfl⟩
    · rintro ⟨e, he, rfl⟩
      exact ⟨⟨_, OrderedMap.mem_of_get he, rfl⟩, rfl⟩
  unfold greenByDate
  rw [OrderedMap.get_mapValues]
  rcases hget : OrderedMap.get (byDay events) day with _ | e
  · rcases hday : OrderedMap.get (Matching.byKey ParityDay.date (parityDays events)) day with _ | d
    · rfl
    · obtain ⟨e, he, -⟩ := (hmem d).mp hday
      exact absurd he (by simp [hget])
  · rw [(hmem _).mpr ⟨e, hget, rfl⟩]
    rfl

theorem get_greenByDate_eq_true {day : ℤ} :
    OrderedMap.get (greenByDate (parityDays events)) day = some true ↔ GreenOn events day := by
  rw [get_greenByDate, Option.map_eq_some_iff]
  exact exists_congr fun e => and_congr get_byDay_eq_some Iff.rfl

/-! The walk. -/

theorem previousDay_eq (date : ℤ) : previousDay date = date - 1 := by
  unfold previousDay Clock.tashkentDay Clock.tashkentDayStart Clock.TASHKENT_OFFSET_MS Clock.DAY_MS
  omega

variable {greens : List (ℤ × Bool)}

/-- A walk that ends has passed green days only and stands on a day that is not green. -/
theorem walk_eq_some {fuel : ℕ} {cursor : ℤ} {n n' : ℕ} {since since' : Option ℤ}
    (h : walk greens fuel cursor n since = some (n', since')) :
    ∃ k : ℕ, n' = n + k ∧ (∀ i : ℕ, i < k → OrderedMap.get greens (cursor - i) = some true) ∧
      OrderedMap.get greens (cursor - k) ≠ some true ∧ since' = if k = 0 then since else some (cursor - k + 1) := by
  induction fuel generalizing cursor n since with
  | zero => cases h
  | succ fuel ih =>
    rw [walk, previousDay_eq] at h
    by_cases hgreen : OrderedMap.get greens cursor = some true
    · rw [if_pos hgreen] at h
      obtain ⟨k, hn, hpassed, hstop, hsince⟩ := ih h
      refine ⟨k + 1, by omega, ?_, ?_, ?_⟩
      · intro i hi
        rcases i with _ | i
        · simpa using hgreen
        · have hday : cursor - ((i + 1 : ℕ) : ℤ) = cursor - 1 - i := by omega
          rw [hday]
          exact hpassed i (by omega)
      · have hday : cursor - ((k + 1 : ℕ) : ℤ) = cursor - 1 - k := by omega
        rwa [hday]
      · rw [hsince, if_neg (Nat.succ_ne_zero k)]
        split_ifs with hk
        · subst hk
          simp
        · congr 1
          omega
    · rw [if_neg hgreen] at h
      cases h
      exact ⟨0, rfl, fun i hi => absurd hi (Nat.not_lt_zero i), by simpa using hgreen, rfl⟩

/-- A walk that has not ended has passed a green day for each unit of fuel. -/
theorem walk_eq_none {fuel : ℕ} {cursor : ℤ} {n : ℕ} {since : Option ℤ} (h : walk greens fuel cursor n since = none) :
    ∀ i : ℕ, i < fuel → OrderedMap.get greens (cursor - i) = some true := by
  induction fuel generalizing cursor n since with
  | zero => intro i hi; exact absurd hi (Nat.not_lt_zero i)
  | succ fuel ih =>
    rw [walk, previousDay_eq] at h
    by_cases hgreen : OrderedMap.get greens cursor = some true
    · rw [if_pos hgreen] at h
      intro i hi
      rcases i with _ | i
      · simpa using hgreen
      · have hday : cursor - ((i + 1 : ℕ) : ℤ) = cursor - 1 - i := by omega
        rw [hday]
        exact ih h i (by omega)
    · rw [if_neg hgreen] at h
      cases h

/-- The map is finite: more fuel than it has days is enough. -/
theorem walk_ends {fuel : ℕ} (h : greens.length < fuel) (cursor : ℤ) (n : ℕ) (since : Option ℤ) :
    ∃ r, walk greens fuel cursor n since = some r := by
  rcases hwalk : walk greens fuel cursor n since with _ | r
  · have hpassed := walk_eq_none hwalk
    have hnodup : ((List.range fuel).map fun i : ℕ => cursor - i).Nodup :=
      List.nodup_range.map fun i j hij => by simpa using hij
    have hsub : (List.range fuel).map (fun i : ℕ => cursor - i) ⊆ OrderedMap.keys greens := by
      intro day hday
      obtain ⟨i, hi, rfl⟩ := List.mem_map.mp hday
      exact OrderedMap.mem_keys_iff.mpr (by simp [hpassed i (List.mem_range.mp hi)])
    have hle := (List.subperm_of_subset hnodup hsub).length_le
    simp only [List.length_map, List.length_range, OrderedMap.keys] at hle
    omega
  · exact ⟨r, rfl⟩

/-! The law. -/

/-- Today if it has an event, and yesterday otherwise. -/
def cursorDay (events : List ParityEventRow) (today : ℤ) : ℤ :=
  if events.any fun e => dayOf e = today then today else today - 1

/-- At least `max(1, trunc(threshold))` days; a threshold that is no number counts as one day. -/
def Reached (greenDays : ℕ) : Number → Prop
  | .finite threshold => max 1 (trunc threshold) ≤ greenDays
  | .infinity => False
  | .negInfinity => 1 ≤ greenDays
  | .nan => 1 ≤ greenDays

structure StreakLaw (events : List ParityEventRow) (threshold : Number) (today : ℤ) (s : ParityStreak) : Prop where
  run : ∀ k : ℕ, k < s.greenDays → GreenOn events (cursorDay events today - k)
  longest : ¬ GreenOn events (cursorDay events today - s.greenDays)
  since : s.since = if s.greenDays = 0 then none else some (cursorDay events today - s.greenDays + 1)
  broken : ∀ day ≤ cursorDay events today, ¬ GreenOn events day → (s.greenDays : ℤ) ≤ cursorDay events today - day
  ready : s.readyForCutover = true ↔ Reached s.greenDays threshold
  empty : events = [] → s.readyForCutover = false

theorem ready_iff (n : ℕ) (threshold : Number) :
    (decide (0 < n) && reaches n (thresholdFloor threshold)) = true ↔ Reached n threshold := by
  rcases threshold with q | _ | _ | _
  · simp only [thresholdFloor, reaches, Reached, Bool.and_eq_true, decide_eq_true_eq]
    have hcast : (((max 1 (if trunc q = 0 then 1 else trunc q) : ℤ) : ℚ) ≤ n) ↔
        max 1 (if trunc q = 0 then 1 else trunc q) ≤ (n : ℤ) := by exact_mod_cast Iff.rfl
    rw [hcast]
    split_ifs <;> omega
  · simp [thresholdFloor, reaches, Reached]
  · simp only [thresholdFloor, reaches, Reached, Bool.and_eq_true, decide_eq_true_eq, Nat.one_le_cast]
    omega
  · simp only [thresholdFloor, reaches, Reached, Bool.and_eq_true, decide_eq_true_eq, Nat.one_le_cast]
    omega

theorem cursor_eq (events : List ParityEventRow) (today : ℤ) :
    (if (OrderedMap.get (greenByDate (parityDays events)) today).isSome then today else previousDay today) =
      cursorDay events today := by
  unfold cursorDay
  rw [get_greenByDate, Option.isSome_map, previousDay_eq]
  by_cases hany : ∃ e ∈ events, dayOf e = today
  · rw [if_pos (get_byDay_isSome.mpr hany), if_pos (by simpa using hany)]
  · rw [if_neg (fun h => hany (get_byDay_isSome.mp h)), if_neg (by simpa using hany)]

theorem length_greenByDate (days : List ParityDay) : (greenByDate days).length ≤ days.length := by
  have hsub : OrderedMap.keys (Matching.byKey ParityDay.date days) ⊆ days.map ParityDay.date := by
    intro day hday
    obtain ⟨e, he, rfl⟩ := List.mem_map.mp hday
    rw [(Matching.mem_byKey he).1]
    exact List.mem_map_of_mem (Matching.mem_byKey he).2
  have hle := (List.subperm_of_subset Matching.nodup_byKey hsub).length_le
  simpa [greenByDate, OrderedMap.mapValues, OrderedMap.keys] using hle

/-- The walk over the days of the journal, from the cursor. -/
theorem parityStreak_eq (events : List ParityEventRow) (threshold : Number) (today : ℤ) :
    ∃ s, parityStreak events threshold today = some s ∧
      s.readyForCutover = (decide (0 < s.greenDays) && reaches s.greenDays (thresholdFloor threshold)) ∧
      walk (greenByDate (parityDays events)) ((parityDays events).length + 1) (cursorDay events today) 0 none =
        some (s.greenDays, s.since) := by
  obtain ⟨⟨n, since⟩, hwalk⟩ := walk_ends (Nat.lt_succ_of_le (length_greenByDate (parityDays events)))
    (cursorDay events today) 0 none
  refine ⟨⟨n, thresholdFloor threshold, decide (0 < n) && reaches n (thresholdFloor threshold),
    (parityDays events).take PARITY_STREAK_WINDOW, ((parityDays events).find? fun d => !d.ok).map ParityDay.date,
    since⟩, ?_, rfl, hwalk⟩
  unfold parityStreak
  simp only [cursor_eq]
  rw [hwalk]
  rfl

theorem streakLaw (events : List ParityEventRow) (threshold : Number) (today : ℤ) :
    ∃ s, parityStreak events threshold today = some s ∧ StreakLaw events threshold today s := by
  obtain ⟨s, hs, hready, hwalk⟩ := parityStreak_eq events threshold today
  obtain ⟨k, hk, hrun, hstop, hsince⟩ := walk_eq_some hwalk
  rw [Nat.zero_add] at hk
  subst hk
  simp only [get_greenByDate_eq_true, Ne] at hrun hstop
  have hreached := ready_iff s.greenDays threshold
  rw [← hready] at hreached
  refine ⟨s, hs, hrun, hstop, hsince, ?_, hreached, ?_⟩
  · intro day hday hnot
    by_contra hlt
    have hgreen := hrun (cursorDay events today - day).toNat (by omega)
    rw [Int.toNat_of_nonneg (by omega), Int.sub_sub_self] at hgreen
    exact hnot hgreen
  · rintro rfl
    have hzero : s.greenDays = 0 := by
      by_contra hne
      obtain ⟨e, ⟨-, front, back, hmem, -⟩, -⟩ := hrun 0 (Nat.pos_of_ne_zero hne)
      simp at hmem
    rw [hready, hzero]
    rfl

/-- Events of one day have distinct moments. -/
def DistinctMoments (events : List ParityEventRow) : Prop :=
  events.Pairwise fun a b => dayOf a = dayOf b → a.occurredAt ≠ b.occurredAt

theorem parityDays_eq_of_perm {others : List ParityEventRow} (hperm : others.Perm events)
    (hdistinct : DistinctMoments events) : parityDays others = parityDays events := by
  have hget : ∀ day, OrderedMap.get (byDay others) day = OrderedMap.get (byDay events) day := by
    intro day
    rw [get_byDay, get_byDay]
    refine Latest.latest_eq_of_perm hperm (hdistinct.imp ?_)
    intro a b hab ha hb
    exact hab ((of_decide_eq_true ha).trans (of_decide_eq_true hb).symm)
  have hdays : (parityDays others).Perm (parityDays events) :=
    (parityDays_perm others).trans
      (((OrderedMap.perm_of_get Matching.nodup_byKey Matching.nodup_byKey hget).map parityDay).trans
        (parityDays_perm events).symm)
  have hsorted : ∀ l, (parityDays l).Pairwise fun a b => b.date ≤ a.date := by
    have htotal : Std.Total fun a b : ParityDay => b.date ≤ a.date := ⟨fun a b => le_total _ _⟩
    have htrans : IsTrans ParityDay fun a b => b.date ≤ a.date := ⟨fun a b c hab hbc => hbc.trans hab⟩
    exact fun l => List.pairwise_insertionSort _ _
  refine List.Perm.eq_of_pairwise ?_ (hsorted others) (hsorted events) hdays
  intro a b ha hb hab hba
  exact List.inj_on_of_nodup_map (dates_nodup events) (hdays.subset ha) hb (le_antisymm hba hab)

/-- The streak is the longest run of green days back from the cursor, and the order of the events
does not matter when those of one day have distinct moments. -/
theorem parityStreak_law (events : List ParityEventRow) (threshold : Number) (today : ℤ) :
    ∃ s, parityStreak events threshold today = some s ∧ StreakLaw events threshold today s ∧
      ∀ others, others.Perm events → DistinctMoments events → parityStreak others threshold today = some s := by
  obtain ⟨s, hs, hlaw⟩ := streakLaw events threshold today
  refine ⟨s, hs, hlaw, ?_⟩
  intro others hperm hdistinct
  rw [← hs]
  unfold parityStreak
  rw [parityDays_eq_of_perm hperm hdistinct]

def greenPayload : Json :=
  .obj [("день_ok", .bool true), ("день_продаж_сверено", .num 14), ("день_остатков_сверено", .num 5),
    ("день_расхождений", .num 0)]

def greenAt (day : ℤ) : ParityEventRow := ⟨Clock.tashkentDayStart day, greenPayload⟩

instance DistinctMoments.decidable (events : List ParityEventRow) : Decidable (DistinctMoments events) := by
  unfold DistinctMoments
  infer_instance

theorem parityStreak_law_swapped :
    parityStreak [greenAt 9, greenAt 10] (.finite 2) 11 = parityStreak [greenAt 10, greenAt 9] (.finite 2) 11 := by
  obtain ⟨s, hs, -, hperm⟩ := parityStreak_law [greenAt 10, greenAt 9] (.finite 2) 11
  rw [hs]
  exact hperm [greenAt 9, greenAt 10] (List.Perm.swap _ _ _) (by decide +kernel)

end Mydon.Recon
