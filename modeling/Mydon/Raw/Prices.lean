import Mydon.Clock
import Mydon.Js.Order
import Mydon.Js.Parse
import Mydon.Lib.Runs

/-! The periods during which a machine kept one price for a product, built from the raw orders of its months. -/

namespace Mydon.Raw

open Mydon.Js Mydon.Lib

structure PricePeriod where
  price : ℚ
  from_ : String
  to_ : String
  orders : ℕ
  deriving DecidableEq

/-- The orders of a month that went at one price. -/
structure PriceBucket extends PricePeriod where
  month : String
  deriving DecidableEq

def MIN_PERIOD_ORDERS : ℕ := 3

def INTERLEAVE_SHARE : ℚ := 1 / 2

/-- Reads a time as milliseconds, `none` for a text that is no time. -/
abbrev DateParse := String → Option ℤ

def withT (ts : String) : String :=
  match ts.toList.span (· ≠ ' ') with
  | (_, []) => ts
  | (day, _ :: time) => String.ofList (day ++ 'T' :: time)

def ms (dateParse : DateParse) (ts : String) : ℤ := (dateParse (withT ts ++ "Z")).getD 0

def interleaved (dateParse : DateParse) (a b : PriceBucket) : Bool :=
  let ms := ms dateParse
  let start := max (ms a.from_) (ms b.from_)
  let stop := min (ms a.to_) (ms b.to_)
  if stop < start then false
  else
    let shorter := min (ms a.to_ - ms a.from_) (ms b.to_ - ms b.from_)
    if shorter ≤ 0 then true else decide (((stop - start : ℤ) : ℚ) / shorter > INTERLEAVE_SHARE)

/-- One price in one month is one bucket, even when it comes under two spellings. -/
def joinBucket (seen b : PriceBucket) : PriceBucket :=
  { seen with
    orders := seen.orders + b.orders
    from_ := if before b.from_ seen.from_ then b.from_ else seen.from_
    to_ := if before seen.to_ b.to_ then b.to_ else seen.to_ }

def addToMonth (month : List (ℚ × PriceBucket)) (b : PriceBucket) : List (ℚ × PriceBucket) :=
  OrderedMap.alter (fun seen => seen.elim b (joinBucket · b)) b.price month

def byMonth (buckets : List PriceBucket) : List (String × List (ℚ × PriceBucket)) :=
  tally PriceBucket.month (fun _ => []) addToMonth buckets

/-- More orders first, then the earlier start. -/
def Foremost (a b : PriceBucket) : Prop :=
  b.orders < a.orders ∨ (b.orders = a.orders ∧ notAfter a.from_ b.from_ = true)

instance decidableForemost : DecidableRel Foremost := fun _ _ => inferInstanceAs (Decidable (_ ∨ _))

/-- The price with most orders is the price of the month; another one is kept only when it is not mixed in. -/
def keepOrMismatch (dateParse : DateParse) (acc : List PriceBucket × ℕ) (cand : PriceBucket) : List PriceBucket × ℕ :=
  if acc.1.any (interleaved dateParse cand) then (acc.1, acc.2 + cand.orders) else (acc.1 ++ [cand], acc.2)

/-- The kept prices of a month in the order of their starts, and the orders of the others. -/
def monthSegments (dateParse : DateParse) (values : List PriceBucket) : List PriceBucket × ℕ :=
  let kept := (values.insertionSort Foremost).foldl (keepOrMismatch dateParse) ([], 0)
  (sortBy (fun b => b.from_) kept.1, kept.2)

def joinPeriod (last s : PricePeriod) : PricePeriod :=
  { last with to_ := if before last.to_ s.to_ then s.to_ else last.to_, orders := last.orders + s.orders }

def mergeAdjacent (list : List PricePeriod) : List PricePeriod := Runs.merge PricePeriod.price joinPeriod list

/-- Too few orders between two segments of one price. -/
def noise (prev : Option PricePeriod) (cur : PricePeriod) (next : Option PricePeriod) : Bool :=
  match prev, next with
  | some prev, some next => decide (prev.price = next.price) && decide (cur.orders < MIN_PERIOD_ORDERS)
  | _, _ => false

/-- The segments that are no noise, and the orders of those that are; `prev` is the last segment kept. -/
def absorbNoise (prev : Option PricePeriod) : List PricePeriod → List PricePeriod × ℕ
  | [] => ([], 0)
  | cur :: rest =>
    if noise prev cur rest.head? then ((absorbNoise prev rest).1, (absorbNoise prev rest).2 + cur.orders)
    else (cur :: (absorbNoise (some cur) rest).1, (absorbNoise (some cur) rest).2)

/-- The kept prices of every month in turn. -/
def monthly (dateParse : DateParse) (buckets : List PriceBucket) : List (List PriceBucket × ℕ) :=
  (sortBy (fun month => month) (OrderedMap.keys (byMonth buckets))).map fun month =>
    monthSegments dateParse (((OrderedMap.get (byMonth buckets) month).getD []).map Prod.snd)

def segments (dateParse : DateParse) (buckets : List PriceBucket) : List PricePeriod :=
  ((monthly dateParse buckets).flatMap Prod.fst).map PriceBucket.toPricePeriod

structure PricePeriods where
  periods : List PricePeriod
  mismatched : ℕ

def buildPricePeriods (dateParse : DateParse) (buckets : List PriceBucket) : PricePeriods :=
  let cleaned := absorbNoise none (mergeAdjacent (segments dateParse buckets))
  ⟨mergeAdjacent cleaned.1, ((monthly dateParse buckets).map Prod.snd).sum + cleaned.2⟩

def totalOrders (periods : List PricePeriod) : ℕ := (periods.map PricePeriod.orders).sum

/-- No orders are lost, the periods alternate in price and follow in time, and none of them is noise. -/
structure PeriodLaws (dateParse : DateParse) (buckets : List PriceBucket) : Prop where
  orders :
    totalOrders (buildPricePeriods dateParse buckets).periods + (buildPricePeriods dateParse buckets).mismatched =
      totalOrders (buckets.map PriceBucket.toPricePeriod)
  prices : (buildPricePeriods dateParse buckets).periods.IsChain fun p q => p.price ≠ q.price
  starts : (buildPricePeriods dateParse buckets).periods.Pairwise fun p q => notAfter p.from_ q.from_ = true
  quiet : ∀ (front back : List PricePeriod) (p cur n : PricePeriod),
    (buildPricePeriods dateParse buckets).periods = front ++ p :: cur :: n :: back →
      p.price = n.price → MIN_PERIOD_ORDERS ≤ cur.orders

/-- Buckets of an earlier month start no later than those of a later one. -/
def Chronological (buckets : List PriceBucket) : Prop :=
  ∀ a ∈ buckets, ∀ b ∈ buckets, before a.month b.month = true → notAfter a.from_ b.from_ = true

/-- The segments with the mark of those that are absorbed: a segment of too few orders whose neighbours have one
price, unless its predecessor is absorbed. -/
def absorbed (before : Option (PricePeriod × Bool)) : List PricePeriod → List (PricePeriod × Bool)
  | [] => []
  | cur :: rest =>
    let mark := before.any fun prev => !prev.2 && noise (some prev.1) cur rest.head?
    (cur, mark) :: absorbed (some (cur, mark)) rest

def keptSegments (list : List PricePeriod) : List PricePeriod :=
  ((absorbed none list).filter fun s => !s.2).map Prod.fst

/-- Between two segments of one price stand two or more of another price, with no others left between them, that have
too few orders even together. -/
def JoinsThinly (kept : List PricePeriod) : Prop :=
  ∃ front p mid n back, kept = front ++ p :: (mid ++ n :: back) ∧ 2 ≤ mid.length ∧ p.price = n.price ∧
    (∃ price, price ≠ p.price ∧ ∀ s ∈ mid, s.price = price) ∧ totalOrders mid < MIN_PERIOD_ORDERS

variable (dateParse : DateParse)

/-- The sum of the orders of a month's segments and mismatched ones. -/
theorem foldl_keepOrMismatch (list : List PriceBucket) (acc : List PriceBucket × ℕ) :
    ((list.foldl (keepOrMismatch dateParse) acc).1.map fun b => b.orders).sum +
        (list.foldl (keepOrMismatch dateParse) acc).2 =
      (acc.1.map fun b => b.orders).sum + acc.2 + (list.map fun b => b.orders).sum := by
  induction list generalizing acc with
  | nil => rfl
  | cons cand list ih =>
    rw [List.foldl_cons, ih]
    unfold keepOrMismatch
    split_ifs
    · simp only [List.map_cons, List.sum_cons]
      omega
    · simp only [List.map_append, List.sum_append, List.map_cons, List.map_nil, List.sum_cons, List.sum_nil]
      omega

theorem mem_foldl_keepOrMismatch {dateParse : DateParse} {list : List PriceBucket} {acc : List PriceBucket × ℕ}
    {b : PriceBucket} (h : b ∈ (list.foldl (keepOrMismatch dateParse) acc).1) : b ∈ acc.1 ∨ b ∈ list := by
  induction list generalizing acc with
  | nil => exact .inl h
  | cons cand list ih =>
    rcases ih h with hacc | hlist
    · unfold keepOrMismatch at hacc
      split_ifs at hacc
      · exact .inl hacc
      · rcases List.mem_append.mp hacc with hacc | hcand
        · exact .inl hacc
        · exact .inr (List.mem_singleton.mp hcand ▸ List.mem_cons_self)
    · exact .inr (List.mem_cons_of_mem _ hlist)

theorem monthSegments_orders (values : List PriceBucket) :
    ((monthSegments dateParse values).1.map fun b => b.orders).sum + (monthSegments dateParse values).2 =
      (values.map fun b => b.orders).sum := by
  unfold monthSegments
  rw [((sortBy_perm _ _).map _).sum_eq, foldl_keepOrMismatch, ((List.perm_insertionSort _ values).map _).sum_eq]
  simp

theorem mem_monthSegments {dateParse : DateParse} {values : List PriceBucket} {b : PriceBucket}
    (h : b ∈ (monthSegments dateParse values).1) : b ∈ values := by
  rcases mem_foldl_keepOrMismatch ((sortBy_perm _ _).mem_iff.mp h) with hnil | hmem
  · exact absurd hnil List.not_mem_nil
  · exact (List.perm_insertionSort _ _).mem_iff.mp hmem

theorem addToMonth_orders (month : List (ℚ × PriceBucket)) (b : PriceBucket) :
    ((addToMonth month b).map fun v => v.2.orders).sum = (month.map fun v => v.2.orders).sum + b.orders :=
  OrderedMap.sum_alter (c := fun b : PriceBucket => b.orders) (fun own => by cases own <;> simp [joinBucket]) b.price month

theorem byMonth_orders (buckets : List PriceBucket) :
    ((byMonth buckets).map fun e => (e.2.map fun v => v.2.orders).sum).sum = (buckets.map fun b => b.orders).sum :=
  sum_tally (g := fun month : List (ℚ × PriceBucket) => (month.map fun v => v.2.orders).sum) (fun _ : String => rfl)
    addToMonth_orders buckets

theorem nodup_keys_byMonth (buckets : List PriceBucket) : (OrderedMap.keys (byMonth buckets)).Nodup := by
  unfold byMonth
  rw [keys_tally]
  exact nodup_keySet _

theorem monthly_orders (buckets : List PriceBucket) :
    totalOrders (segments dateParse buckets) + ((monthly dateParse buckets).map Prod.snd).sum =
      totalOrders (buckets.map PriceBucket.toPricePeriod) := by
  let total (month : String) : ℕ :=
    ((((OrderedMap.get (byMonth buckets) month).getD []).map Prod.snd).map fun b : PriceBucket => b.orders).sum
  have hparts : ∀ months : List (List PriceBucket × ℕ),
      ((months.flatMap Prod.fst).map fun b => b.orders).sum + (months.map Prod.snd).sum =
        (months.map fun m => (m.1.map fun b => b.orders).sum + m.2).sum := by
    intro months
    induction months with
    | nil => rfl
    | cons m months ih =>
      simp only [List.flatMap_cons, List.map_append, List.sum_append, List.map_cons, List.sum_cons]
      omega
  have hsegments : totalOrders (segments dateParse buckets) =
      (((monthly dateParse buckets).flatMap Prod.fst).map fun b => b.orders).sum := by
    rw [totalOrders, segments, List.map_map]
    rfl
  have hbuckets : totalOrders (buckets.map PriceBucket.toPricePeriod) = (buckets.map fun b => b.orders).sum := by
    rw [totalOrders, List.map_map]
    rfl
  have hmonths : ((monthly dateParse buckets).map fun m => (m.1.map fun b => b.orders).sum + m.2) =
      (sortBy (fun month => month) (OrderedMap.keys (byMonth buckets))).map total := by
    unfold monthly
    rw [List.map_map]
    exact List.map_congr_left fun month _ => monthSegments_orders dateParse _
  have hkeys : (byMonth buckets).map (fun e => (e.2.map fun v => v.2.orders).sum) =
      (OrderedMap.keys (byMonth buckets)).map total := by
    refine OrderedMap.map_entries_eq (nodup_keys_byMonth buckets) _ _ fun month values hget => ?_
    simp only [total, hget, Option.getD_some, List.map_map]
    rfl
  rw [hsegments, hparts, hmonths, ((sortBy_perm _ _).map total).sum_eq, ← hkeys, byMonth_orders, hbuckets]

theorem absorbNoise_orders (prev : Option PricePeriod) (list : List PricePeriod) :
    totalOrders (absorbNoise prev list).1 + (absorbNoise prev list).2 = totalOrders list := by
  induction list generalizing prev with
  | nil => rfl
  | cons cur rest ih =>
    have hskip := ih prev
    have hkeep := ih (some cur)
    unfold absorbNoise
    simp only [totalOrders] at hskip hkeep ⊢
    split_ifs
    · simp only [List.map_cons, List.sum_cons]
      omega
    · simp only [List.map_cons, List.sum_cons]
      omega

theorem mergeAdjacent_orders (list : List PricePeriod) : totalOrders (mergeAdjacent list) = totalOrders list :=
  Runs.sum_merge (fun _ _ => rfl) list

theorem buildPricePeriods_orders (buckets : List PriceBucket) :
    totalOrders (buildPricePeriods dateParse buckets).periods + (buildPricePeriods dateParse buckets).mismatched =
      totalOrders (buckets.map PriceBucket.toPricePeriod) := by
  have habsorb := absorbNoise_orders none (mergeAdjacent (segments dateParse buckets))
  have hmonthly := monthly_orders dateParse buckets
  rw [mergeAdjacent_orders] at habsorb
  unfold buildPricePeriods
  dsimp only
  rw [mergeAdjacent_orders]
  omega

theorem joinBucket_from (a x : PriceBucket) :
    PricePeriod.from_ (joinBucket a x).toPricePeriod = PricePeriod.from_ a.toPricePeriod ∨
      PricePeriod.from_ (joinBucket a x).toPricePeriod = PricePeriod.from_ x.toPricePeriod := by
  unfold joinBucket
  dsimp only
  split_ifs
  · exact .inr rfl
  · exact .inl rfl

/-- A bucket of a month starts where one of the buckets it was joined from starts. -/
theorem byMonth_from {buckets : List PriceBucket} {month : String} {v : PriceBucket}
    (hv : v ∈ ((OrderedMap.get (byMonth buckets) month).getD []).map Prod.snd) :
    ∃ b ∈ buckets, b.month = month ∧ b.from_ = v.from_ := by
  obtain ⟨⟨price, v⟩, hmem, rfl⟩ := List.mem_map.mp hv
  unfold byMonth at hmem
  rw [get_tally] at hmem
  split_ifs at hmem with hmonth
  · have hjoined : joined joinBucket (List.filter (fun b => b.price = price) (buckets.filter fun b => b.month = month)) = some v :=
      mem_mergeByKey.mp hmem
    obtain ⟨b, hb, hfrom⟩ := @joined_from _ joinBucket _ (fun b : PriceBucket => b.from_) joinBucket_from _ _ hjoined
    obtain ⟨hmem', hown⟩ := List.mem_filter.mp (List.mem_filter.mp hb).1
    exact ⟨b, hmem', of_decide_eq_true hown, hfrom⟩
  · exact absurd hmem List.not_mem_nil

theorem pairwise_monthSegments (values : List PriceBucket) :
    (monthSegments dateParse values).1.Pairwise fun a b => notAfter a.from_ b.from_ = true := pairwise_sortBy _ _

theorem segments_starts {buckets : List PriceBucket} (hchron : Chronological buckets) :
    (segments dateParse buckets).Pairwise fun p q => notAfter p.from_ q.from_ = true := by
  have hfrom : ∀ month, ∀ v ∈ (monthSegments dateParse
      (((OrderedMap.get (byMonth buckets) month).getD []).map Prod.snd)).1,
      ∃ b ∈ buckets, b.month = month ∧ b.from_ = v.from_ := fun month v hv => byMonth_from (mem_monthSegments hv)
  have hmonths : (sortBy (fun month => month) (OrderedMap.keys (byMonth buckets))).Pairwise
      fun m m' => before m m' = true := by
    have hnodup := (sortBy_perm (fun month => month) _).nodup_iff.mpr (nodup_keys_byMonth buckets)
    refine ((pairwise_sortBy (fun month => month) (OrderedMap.keys (byMonth buckets))).and hnodup).imp ?_
    rintro m m' ⟨hle, hne⟩
    exact before_iff.mpr (lt_of_le_of_ne (notAfter_iff.mp hle) fun heq => hne (codeUnits_inj heq))
  unfold segments monthly
  rw [List.pairwise_map, List.flatMap_map, List.pairwise_flatMap]
  refine ⟨fun month _ => pairwise_monthSegments dateParse _, hmonths.imp fun {m m'} hlt a ha b hb => ?_⟩
  obtain ⟨x, hx, rfl, hxa⟩ := hfrom m a ha
  obtain ⟨y, hy, rfl, hyb⟩ := hfrom m' b hb
  rw [← hxa, ← hyb]
  exact hchron x hx y hy hlt

theorem mergeAdjacent_starts (list : List PricePeriod) :
    ((mergeAdjacent list).map PricePeriod.from_).Sublist (list.map PricePeriod.from_) :=
  @Runs.merge_sublist _ _ _ PricePeriod.price joinPeriod _ _ (fun _ _ => rfl) list

theorem absorbNoise_sublist (prev : Option PricePeriod) (list : List PricePeriod) :
    (absorbNoise prev list).1.Sublist list := by
  induction list generalizing prev with
  | nil => exact List.Sublist.refl _
  | cons cur rest ih =>
    unfold absorbNoise
    split_ifs
    · exact (ih prev).cons cur
    · exact (ih (some cur)).cons_cons cur

theorem buildPricePeriods_starts {buckets : List PriceBucket} (hchron : Chronological buckets) :
    (buildPricePeriods dateParse buckets).periods.Pairwise fun p q => notAfter p.from_ q.from_ = true := by
  have hsegments : ((segments dateParse buckets).map PricePeriod.from_).Pairwise fun a b => notAfter a b = true :=
    List.pairwise_map.mpr (segments_starts dateParse hchron)
  refine List.pairwise_map.mp (hsegments.sublist ?_)
  exact (mergeAdjacent_starts _).trans (((absorbNoise_sublist none _).map _).trans (mergeAdjacent_starts _))

theorem mergeAdjacent_prices (list : List PricePeriod) : (mergeAdjacent list).IsChain fun p q => p.price ≠ q.price :=
  @Runs.isChain_merge _ _ _ PricePeriod.price joinPeriod (fun _ _ => rfl) list

section noise
variable {prev p cur n : PricePeriod} {rest list kept front back mid : List PricePeriod}

theorem noise_iff : noise (some p) cur (some n) = true ↔ p.price = n.price ∧ cur.orders < MIN_PERIOD_ORDERS := by
  simp [noise]

/-- After a segment that is kept comes the next one, or one of the same price. -/
theorem head_absorbNoise (hchain : (cur :: rest).IsChain fun p q => p.price ≠ q.price)
    (h : (absorbNoise (some cur) rest).1.head? = some n) : rest.head? = some n ∨ n.price = cur.price := by
  rcases rest with _ | ⟨next, rest⟩
  · exact nomatch h
  · by_cases hnoise : noise (some cur) next rest.head? = true
    · rcases rest with _ | ⟨after, rest⟩
      · exact nomatch hnoise
      · have hprice := (noise_iff.mp hnoise).1
        -- the one after the absorbed segment has the price of `cur`, so it is kept
        have hquiet : ¬ noise (some cur) after rest.head? = true := by
          rcases rest with _ | ⟨last, rest⟩
          · exact nofun
          · intro hagain
            have hne := (List.isChain_cons_cons.mp (List.isChain_cons_cons.mp (List.isChain_cons_cons.mp hchain).2).2).1
            exact hne (hprice.symm.trans (noise_iff.mp hagain).1)
        unfold absorbNoise at h
        rw [if_pos hnoise] at h
        unfold absorbNoise at h
        rw [if_neg hquiet] at h
        obtain rfl := Option.some.inj h
        exact .inr hprice.symm
    · unfold absorbNoise at h
      rw [if_neg hnoise] at h
      exact .inl h

/-- A segment left alone between two of one price has orders enough. -/
theorem absorbNoise_alone {prev : Option PricePeriod} (hchain : list.IsChain fun p q => p.price ≠ q.price)
    (h : prev.toList ++ (absorbNoise prev list).1 = front ++ p :: cur :: n :: back) (hprice : p.price = n.price)
    (hother : cur.price ≠ p.price) : MIN_PERIOD_ORDERS ≤ cur.orders := by
  induction list generalizing prev front with
  | nil =>
    have hlen := congrArg List.length h
    rw [List.length_append, List.length_append] at hlen
    have hprev : prev.toList.length ≤ 1 := by cases prev <;> simp
    simp only [absorbNoise, List.length_nil, List.length_cons] at hlen
    omega
  | cons s rest ih =>
    have hrest := hchain.tail
    by_cases hnoise : noise prev s rest.head? = true
    · unfold absorbNoise at h
      rw [if_pos hnoise] at h
      exact ih hrest h
    · unfold absorbNoise at h
      rw [if_neg hnoise] at h
      cases prev with
      | none => exact @ih front (some s) hrest h
      | some x =>
        rcases front with _ | ⟨y, front⟩
        · obtain ⟨rfl, htail⟩ := List.cons.inj h
          obtain ⟨rfl, hkept⟩ := List.cons.inj htail
          rcases @head_absorbNoise s n rest hchain (hkept ▸ rfl) with hnext | hsame
          · rw [hnext, noise_iff, not_and, not_lt] at hnoise
            exact hnoise hprice
          · exact absurd (hsame.symm.trans hprice.symm) hother
        · exact @ih front (some s) hrest (List.cons.inj h).2

/-- The segments that come to one period are of one price, and its orders are theirs. -/
theorem mergeAdjacent_singleton (h : mergeAdjacent list = [p]) :
    list ≠ [] ∧ (∀ s ∈ list, s.price = p.price) ∧ totalOrders list = p.orders := by
  refine ⟨?_, fun s hs => ?_, ?_⟩
  · rintro rfl
    exact nomatch h
  · obtain ⟨b, hb, hprice⟩ := @Runs.key_mem_merge _ _ _ PricePeriod.price joinPeriod (fun _ _ => rfl) _ _ hs
    have hp : b = p := List.mem_singleton.mp (h ▸ hb)
    rw [← hprice, hp]
  · rw [← mergeAdjacent_orders, h]
    simp [totalOrders]

theorem mergeAdjacent_stretch {price : ℚ} (hmid : mid ≠ []) (hprice : ∀ s ∈ mid, s.price = price) :
    ∃ b, mergeAdjacent mid = [b] ∧ b.price = price ∧ b.orders = totalOrders mid := by
  obtain ⟨b, hb, hbprice⟩ := @Runs.merge_of_const _ _ _ PricePeriod.price joinPeriod (fun _ _ => rfl) _ price hmid hprice
  exact ⟨b, hb, hbprice, ((mergeAdjacent_singleton hb).2.2).symm⟩

/-- A stretch of one price becomes a period between its neighbours'. -/
theorem mergeAdjacent_split {price : ℚ} (hmid : mid ≠ []) (hprice : ∀ s ∈ mid, s.price = price) (hp : price ≠ p.price)
    (hn : price ≠ n.price) : ∃ before p' b n' after,
      mergeAdjacent (front ++ p :: (mid ++ n :: back)) = before ++ p' :: b :: n' :: after ∧
        p'.price = p.price ∧ n'.price = n.price ∧ b.price = price ∧ b.orders = totalOrders mid := by
  obtain ⟨b, hb, hbprice, hborders⟩ := mergeAdjacent_stretch hmid hprice
  obtain ⟨m, mids, rfl⟩ := List.exists_cons_of_ne_nil hmid
  have hkey : ∀ a x : PricePeriod, (joinPeriod a x).price = a.price := fun _ _ => rfl
  have hleft : mergeAdjacent (front ++ p :: (m :: mids ++ n :: back)) =
      mergeAdjacent (front ++ [p]) ++ mergeAdjacent (m :: mids ++ n :: back) := by
    rw [List.append_cons front p (m :: mids ++ n :: back)]
    refine Runs.merge_append hkey fun x hx => ?_
    obtain rfl := Option.some.inj hx
    rw [List.getLast?_append_cons, List.getLast?_singleton, Option.map_some, hprice m List.mem_cons_self]
    exact fun heq => hp (Option.some.inj heq).symm
  have hright : mergeAdjacent (m :: mids ++ n :: back) = mergeAdjacent (m :: mids) ++ mergeAdjacent (n :: back) := by
    refine Runs.merge_append hkey fun x hx => ?_
    obtain rfl := Option.some.inj hx
    obtain ⟨l, hl⟩ := Option.ne_none_iff_exists'.mp (mt List.getLast?_eq_none_iff.mp (List.cons_ne_nil m mids))
    rw [hl, Option.map_some, hprice l (List.mem_of_getLast? hl)]
    exact fun heq => hn (Option.some.inj heq)
  have hlast := Runs.last_merge hkey (front ++ [p])
  have hhead := Runs.head_merge hkey (n :: back)
  rw [List.getLast?_append_cons, List.getLast?_singleton, Option.map_some, Option.map_eq_some_iff] at hlast
  rw [List.head?_cons, Option.map_some, Option.map_eq_some_iff] at hhead
  obtain ⟨p', hp', hpprice⟩ := hlast
  obtain ⟨n', hn', hnprice⟩ := hhead
  obtain ⟨before, hbefore⟩ := List.getLast?_eq_some_iff.mp hp'
  obtain ⟨after, hafter⟩ := List.head?_eq_some_iff.mp hn'
  refine ⟨before, p', b, n', after, ?_, hpprice, hnprice, hbprice, hborders⟩
  rw [hleft, hright, hb]
  unfold mergeAdjacent
  rw [hbefore, hafter]
  simp

/-- Where merging leaves three periods, three stretches stood. -/
theorem mergeAdjacent_parts (h : mergeAdjacent list = front ++ p :: cur :: n :: back) :
    ∃ before p' mid n' after, list = before ++ p' :: (mid ++ n' :: after) ∧ mid ≠ [] ∧ p'.price = p.price ∧
      n'.price = n.price ∧ (∀ s ∈ mid, s.price = cur.price) ∧ totalOrders mid = cur.orders := by
  have hkey : ∀ a x : PricePeriod, (joinPeriod a x).price = a.price := fun _ _ => rfl
  rw [List.append_cons] at h
  obtain ⟨left, rest, rfl, hleft, hrest⟩ :=
    Runs.merge_eq_append (List.append_ne_nil_of_right_ne_nil _ (List.cons_ne_nil p [])) h
  obtain ⟨mid, right, rfl, hmid, hright⟩ := @Runs.merge_eq_append _ _ _ _ _ _ [cur] _ (List.cons_ne_nil cur []) hrest
  obtain ⟨hne, hprices, horders⟩ := mergeAdjacent_singleton hmid
  have hlast := Runs.last_merge hkey left
  have hhead := Runs.head_merge hkey right
  rw [hleft, List.getLast?_append_cons, List.getLast?_singleton, Option.map_some, eq_comm,
    Option.map_eq_some_iff] at hlast
  rw [hright, List.head?_cons, Option.map_some, eq_comm, Option.map_eq_some_iff] at hhead
  obtain ⟨p', hp', hpprice⟩ := hlast
  obtain ⟨n', hn', hnprice⟩ := hhead
  obtain ⟨before, rfl⟩ := List.getLast?_eq_some_iff.mp hp'
  obtain ⟨after, rfl⟩ := List.head?_eq_some_iff.mp hn'
  exact ⟨before, p', mid, n', after, by simp, hne, hpprice, hnprice, hprices, horders⟩

/-- What the pass keeps is what has no mark. -/
theorem absorbNoise_eq {before : Option (PricePeriod × Bool)} {prev : Option PricePeriod}
    (hchain : list.IsChain fun p q => p.price ≠ q.price)
    (h : before = prev.map (·, false) ∨
      ∃ x y, before = some (x, true) ∧ prev = some y ∧ ∀ cur ∈ list.head?, y.price = cur.price) :
    (absorbNoise prev list).1 = ((absorbed before list).filter fun s => !s.2).map Prod.fst := by
  induction list generalizing before prev with
  | nil => rfl
  | cons cur rest ih =>
    have hrest := hchain.tail
    rcases h with rfl | ⟨x, y, rfl, rfl, hsame⟩
    · have hmark : (prev.map (·, false)).any (fun prev => !prev.2 && noise (some prev.1) cur rest.head?) =
          noise prev cur rest.head? := by
        cases prev <;> rfl
      unfold absorbNoise absorbed
      rw [hmark]
      by_cases hnoise : noise prev cur rest.head? = true
      · obtain ⟨p, rfl⟩ : ∃ p, prev = some p := by
          cases prev with
          | none => exact nomatch hnoise
          | some p => exact ⟨p, rfl⟩
        rw [if_pos hnoise, hnoise, List.filter_cons_of_neg (by simp)]
        refine ih hrest (.inr ⟨cur, p, rfl, rfl, fun next hnext => ?_⟩)
        rw [Option.mem_def.mp hnext] at hnoise
        exact (noise_iff.mp hnoise).1
      · rw [if_neg hnoise, Bool.eq_false_iff.mpr hnoise, List.filter_cons_of_pos (by simp), List.map_cons]
        exact congrArg _ (ih hrest (.inl rfl))
    · have hquiet : ¬ noise (some y) cur rest.head? = true := by
        intro hnoise
        rcases rest with _ | ⟨next, rest⟩
        · exact nomatch hnoise
        · exact (List.isChain_cons_cons.mp hchain).1 ((hsame cur rfl).symm.trans (noise_iff.mp hnoise).1)
      unfold absorbNoise absorbed
      rw [if_neg hquiet, Option.any_some, List.filter_cons_of_pos (by simp), List.map_cons]
      exact congrArg _ (ih hrest (.inl rfl))

end noise

/-- A period of too few orders is left between two of one price exactly when segments joined by the pass were too few
even together. -/
theorem quiet_iff {list : List PricePeriod} (hchain : list.IsChain fun p q => p.price ≠ q.price) :
    (∀ (front back : List PricePeriod) (p cur n : PricePeriod),
      mergeAdjacent (absorbNoise none list).1 = front ++ p :: cur :: n :: back → p.price = n.price →
        MIN_PERIOD_ORDERS ≤ cur.orders) ↔ ¬ JoinsThinly (keptSegments list) := by
  have hkept : keptSegments list = (absorbNoise none list).1 :=
    (@absorbNoise_eq list none none hchain (.inl rfl)).symm
  rw [hkept]
  constructor
  · rintro hquiet ⟨front, p, mid, n, back, heq, hlen, hprice, ⟨price, hother, hmid⟩, hthin⟩
    have hne : mid ≠ [] := by
      rintro rfl
      exact nomatch hlen
    obtain ⟨before, p', b, n', after, hmerged, hp, hn, -, horders⟩ :=
      @mergeAdjacent_split p n front back mid price hne hmid hother (hprice ▸ hother)
    have henough := hquiet before after p' b n' (heq ▸ hmerged) (hp.trans (hprice.trans hn.symm))
    omega
  · intro hnot front back p cur n hmerged hprice
    by_contra hthin
    obtain ⟨before, p', mid, n', after, heq, hne, hp, hn, hmid, horders⟩ := mergeAdjacent_parts hmerged
    have hprice' : p'.price = n'.price := hp.trans (hprice.trans hn.symm)
    have hother : cur.price ≠ p'.price := by
      have hchain' := mergeAdjacent_prices (absorbNoise none list).1
      rw [hmerged] at hchain'
      exact fun h => (List.isChain_cons_cons.mp hchain'.right_of_append).1 (hp.symm.trans h.symm)
    refine hnot ⟨before, p', mid, n', after, heq, ?_, hprice', ⟨cur.price, hother, hmid⟩, by omega⟩
    rcases mid with _ | ⟨s, _ | ⟨t, mid⟩⟩
    · exact absurd rfl hne
    · have hs := hmid s (List.mem_singleton_self s)
      have henough := @absorbNoise_alone p' s n' list before after none hchain heq hprice' (hs ▸ hother)
      simp only [totalOrders, List.map_cons, List.map_nil, List.sum_cons, List.sum_nil] at horders
      omega
    · simp

/-- The periods keep every law unless segments of one price, too few even together, are joined between two of another. -/
theorem periodLaws_iff (dateParse : DateParse) {buckets : List PriceBucket} (hchron : Chronological buckets) :
    PeriodLaws dateParse buckets ↔ ¬ JoinsThinly (keptSegments (mergeAdjacent (segments dateParse buckets))) := by
  have hquiet := quiet_iff (mergeAdjacent_prices (segments dateParse buckets))
  constructor
  · exact fun h => hquiet.mp h.quiet
  · exact fun h => ⟨buildPricePeriods_orders dateParse buckets, mergeAdjacent_prices _,
      buildPricePeriods_starts dateParse hchron, hquiet.mpr h⟩

/-- Reads `YYYY-MM-DDTHH:MM:SSZ`. -/
def sourceTime (ts : String) : Option ℤ :=
  let number (start len : ℕ) : ℤ := ((ts.toList.drop start).take len).foldl (fun v c => 10 * v + (c.toNat - 48 : ℤ)) 0
  some (Clock.ofCivil (number 0 4) (number 5 2) (number 8 2) * Clock.DAY_MS +
    ((number 11 2 * 60 + number 14 2) * 60 + number 17 2) * 1000)

def monthBucket (month : String) (price : ℚ) (orders : ℕ) : PriceBucket :=
  ⟨⟨price, month ++ "-01 08:00:00", month ++ "-28 20:00:00", orders⟩, month⟩

def singleOrder (month : String) (price : ℚ) : PriceBucket :=
  ⟨⟨price, month ++ "-10 12:00:00", month ++ "-10 12:00:00", 1⟩, month⟩

/-- The price goes up in the second month, in which the old one is still taken once. -/
def raisedPrice : List PriceBucket :=
  [monthBucket "2026-02" 20000 140, singleOrder "2026-02" 15000, monthBucket "2026-01" 15000 120]

/-- Two single orders at 20000, joined when the one at 5000 between them is absorbed. -/
def singleOrders : List PriceBucket :=
  [monthBucket "2026-01" 15000 10, singleOrder "2026-02" 20000, singleOrder "2026-03" 5000, singleOrder "2026-04" 20000,
    monthBucket "2026-05" 15000 10]

theorem periodLaws_iff_raised : PeriodLaws sourceTime raisedPrice ∧
    ((buildPricePeriods sourceTime raisedPrice).periods.map PricePeriod.price = [15000, 20000]) := by
  refine ⟨(periodLaws_iff sourceTime (by unfold Chronological; decide +kernel)).mpr ?_, by decide +kernel⟩
  rintro ⟨front, p, mid, n, back, heq, hlen, -⟩
  have hlength : (keptSegments (mergeAdjacent (segments sourceTime raisedPrice))).length = 2 := by decide +kernel
  simp only [heq, List.length_append, List.length_cons] at hlength
  omega

/-- The period of two orders at 20000 stays between two of 15000. -/
theorem singleOrders_not_quiet : Chronological singleOrders ∧ ¬ PeriodLaws sourceTime singleOrders := by
  refine ⟨by unfold Chronological; decide +kernel, fun h => ?_⟩
  have henough := h.quiet [] [] ⟨15000, "2026-01-01 08:00:00", "2026-01-28 20:00:00", 10⟩
    ⟨20000, "2026-02-10 12:00:00", "2026-04-10 12:00:00", 2⟩ ⟨15000, "2026-05-01 08:00:00", "2026-05-28 20:00:00", 10⟩
    (by decide +kernel) rfl
  exact absurd henough (by decide)

end Mydon.Raw
