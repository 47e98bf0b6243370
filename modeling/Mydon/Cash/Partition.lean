import Mydon.Cash.Collections
import Mydon.Lib.Table
import Mydon.Lib.Timeline

/-! Where the cash of a machine is counted: up to its first collection, in one of the intervals between two
collections, or in the machine. -/

namespace Mydon.Cash

open Mydon.Lib

variable (host : Js.Host) (db : CashDb) (m : String)

/-- A cash sale of the machine. -/
def isCash (o : CoffeeOrderRow) : Bool := o.machineId = some m && o.countable && orderIsCash host o.orderResource

/-- Not after the first collection, if there is one. -/
def beforeFirst (o : CoffeeOrderRow) : Bool := Timeline.first CollectionRow.collectedAt o.ts (historyOf db m)

/-- The intervals of the query that the sale joins. -/
def joined (o : CoffeeOrderRow) : ℕ := (pairs db).countP fun w => joins host w o

/-- The estimate counts the sale. -/
def inMachine (o : CoffeeOrderRow) : Bool := (coffeeSale host o).any (counted (latest (receipts db)))

/-- In how many places the sale is counted. -/
def places (o : CoffeeOrderRow) : ℕ := (beforeFirst db m o).toNat + joined host db o + (inMachine host db o).toNat

def afterCollections (o : CoffeeOrderRow) : Bool := (historyOf db m).all fun c => c.collectedAt < o.ts

def afterReceipts (o : CoffeeOrderRow) : Bool := (receipts db).all fun c => c.machineId ≠ m || c.receivedAt < o.ts

def totalCash : ℚ := ((db.orders.filter (isCash host m)).map (·.amount)).sum

def revenueBefore : ℚ := ((db.orders.filter fun o => isCash host m o && beforeFirst db m o).map (·.amount)).sum

/-- The expected amounts of the machine's intervals. -/
def expectedRows : List ℚ := ((intervalRows host db).filter fun r => r.machineId = m).map (·.expected)

/-- As the reconciliation rounds them. -/
def expectedAmounts : List ℤ := ((intervals host db).filter fun i => i.machineId = m).map (·.expected)

def machineAmount : ℚ :=
  (((cashInMachines (estimateSales host db) (receipts db)).perMachine.find? fun e => e.machineId = m).map
    (·.amount)).getD 0

def machineEstimate : ℤ := (((cashEstimate host db).perMachine.find? fun e => e.machineId = m).map (·.amount)).getD 0

variable {host db m} {o : CoffeeOrderRow}

/-! The intervals. -/

theorem mem_historyOf {c : CollectionRow} :
    c ∈ historyOf db m ↔ c ∈ db.collections ∧ c.status ≠ .cancelled ∧ c.machineId = m := by
  simp [historyOf, List.mem_insertionSort]

theorem historyOf_pairwise (hdistinct : ((historyOf db m).map (·.collectedAt)).Nodup) :
    (historyOf db m).Pairwise fun c d => c.collectedAt < d.collectedAt := by
  have hle : (historyOf db m).Pairwise fun c d => c.collectedAt ≤ d.collectedAt := List.pairwise_insertionSort _ _
  rw [List.Nodup, List.pairwise_map] at hdistinct
  exact hle.imp₂ (fun _ _ hle hne => lt_of_le_of_ne hle hne) hdistinct

/-- The pairs of a machine are the intervals of its history. -/
theorem pairs_filter : (pairs db).filter (fun w => w.2.machineId = m) = Timeline.intervals (historyOf db m) := by
  have htag : ∀ m', ∀ w ∈ (historyOf db m').zip (historyOf db m').tail, w.2.machineId = m' := by
    intro m' w hw
    exact (mem_historyOf.mp (List.mem_of_mem_tail (List.of_mem_zip hw).2)).2.2
  by_cases hm : m ∈ OrderedMap.keySet (db.collections.map CollectionRow.machineId)
  · exact filter_flatMap_of_tag (fun w : CollectionRow × CollectionRow => w.2.machineId) (nodup_keySet _) (fun m' _ => htag m') hm
  · have hempty : historyOf db m = [] := by
      rw [List.eq_nil_iff_forall_not_mem]
      intro c hc
      obtain ⟨hmem, _, hof⟩ := mem_historyOf.mp hc
      exact hm (mem_keySet.mpr (List.mem_map.mpr ⟨c, hmem, hof⟩))
    have hnil : Timeline.intervals ([] : List CollectionRow) = [] := rfl
    rw [hempty, hnil, List.filter_eq_nil_iff]
    intro w hw heq
    obtain ⟨m', hm', hw⟩ := List.mem_flatMap.mp hw
    have hof := of_decide_eq_true heq
    rw [htag m' w hw] at hof
    exact hm (hof ▸ hm')

theorem joined_eq (ho : o.machineId = some m) (hcountable : o.countable = true)
    (hchannel : resourceIn host o.orderResource = true) :
    joined host db o = (Timeline.intervals (historyOf db m)).countP (Timeline.inside (·.collectedAt) o.ts) := by
  rw [joined, ← pairs_filter, List.countP_filter]
  refine List.countP_congr fun w _ => ?_
  simp only [joins, Timeline.inside, ho, hcountable, hchannel, Bool.and_eq_true, decide_eq_true_eq, Option.some.injEq,
    and_true]
  constructor
  · rintro ⟨⟨rfl, h₁⟩, h₂⟩
    exact ⟨⟨h₁, h₂⟩, rfl⟩
  · rintro ⟨⟨h₁, h₂⟩, rfl⟩
    exact ⟨⟨rfl, h₁⟩, h₂⟩

theorem any_not_after : ((historyOf db m).any fun c => o.ts ≤ c.collectedAt) = !afterCollections db m o := by
  rw [afterCollections, List.not_all_eq_any_not]
  refine congrArg (List.any _) (funext fun c => ?_)
  rw [← decide_not, decide_eq_decide]
  exact not_lt.symm

/-! The machine. -/

theorem latest_lt_iff (received : List ReceivedCollection) (t : ℤ) :
    (OrderedMap.get (latest received) m).all (· < t) = received.all fun c => c.machineId ≠ m || c.receivedAt < t := by
  induction received using List.reverseRecOn with
  | nil => rfl
  | append_singleton received c ih =>
    have hstep : latest (received ++ [c]) = OrderedMap.alter (fun own => own.elim c.receivedAt fun t =>
        if t < c.receivedAt then c.receivedAt else t) c.machineId (latest received) := by
      unfold latest
      rw [List.foldl_append, List.foldl_cons, List.foldl_nil]
      refine congrArg (OrderedMap.alter · c.machineId _) (funext fun own => ?_)
      cases own <;> rfl
    rw [hstep, OrderedMap.get_alter, List.all_append, ← ih]
    split_ifs with hof
    · subst hof
      rcases OrderedMap.get (latest received) c.machineId with _ | own
      · simp
      · rw [Bool.eq_iff_iff]
        simp only [Option.elim_some, Option.all_some, List.all_cons, List.all_nil, ne_eq, not_true_eq_false, decide_false,
          Bool.false_or, Bool.and_true, Bool.and_eq_true, decide_eq_true_eq]
        split_ifs with hlt <;> omega
    · simp [hof]

theorem inMachine_eq (ho : isCash host m o = true) : inMachine host db o = afterReceipts db m o := by
  simp only [isCash, Bool.and_eq_true, decide_eq_true_eq] at ho
  obtain ⟨⟨hof, hcountable⟩, hcash⟩ := ho
  simp only [inMachine, coffeeSale, hcountable, hof, hcash, if_true, Option.map_some, Option.any_some, counted,
    Bool.true_and]
  exact latest_lt_iff (receipts db) o.ts

/-- Up to the last collection a sale is in one place of the reconciliation, and after the last receipt in the machine. -/
theorem places_eq (hdistinct : ((historyOf db m).map (·.collectedAt)).Nodup) (ho : isCash host m o = true)
    (hchannel : resourceIn host o.orderResource = true) :
    (beforeFirst db m o).toNat + joined host db o = (!afterCollections db m o).toNat ∧
      inMachine host db o = afterReceipts db m o := by
  refine ⟨?_, inMachine_eq ho⟩
  simp only [isCash, Bool.and_eq_true, decide_eq_true_eq] at ho
  rw [joined_eq ho.1.1 ho.1.2 hchannel, beforeFirst, Timeline.first_add_inside (historyOf_pairwise hdistinct),
    any_not_after]

/-! Sums. -/

theorem expectedRows_sum : (expectedRows host db m).sum =
    (db.orders.map fun o => o.amount * ((Timeline.intervals (historyOf db m)).countP fun w => joins host w o : ℕ)).sum := by
  have hrows : expectedRows host db m = (Timeline.intervals (historyOf db m)).map fun w =>
      ((db.orders.filter (joins host w)).map (·.amount)).sum := by
    rw [expectedRows, intervalRows, List.filter_map, List.map_map, ← pairs_filter]
    rfl
  rw [hrows]
  exact Timeline.sum_pieces (joins host) (·.amount) _ db.orders

theorem countP_joins : ((Timeline.intervals (historyOf db m)).countP fun w => joins host w o) =
    if o.machineId = some m ∧ o.countable = true ∧ resourceIn host o.orderResource = true then joined host db o else 0 := by
  have hof : ∀ w ∈ Timeline.intervals (historyOf db m), w.2.machineId = m := by
    intro w hw
    rw [← pairs_filter] at hw
    exact of_decide_eq_true (List.mem_filter.mp hw).2
  split_ifs with h
  · obtain ⟨ho, hcountable, hchannel⟩ := h
    rw [joined_eq ho hcountable hchannel]
    refine List.countP_congr fun w hw => ?_
    simp only [joins, Timeline.inside, ho, hcountable, hchannel, hof w hw, decide_true, Bool.true_and]
  · rw [List.countP_eq_zero]
    intro w hw hjoin
    simp only [joins, Bool.and_eq_true, decide_eq_true_eq, hof w hw] at hjoin
    exact h ⟨hjoin.1.1.1.1, hjoin.1.1.1.2, hjoin.1.1.2⟩

theorem coffee_counted (orders : List CoffeeOrderRow) :
    (((orders.filterMap (coffeeSale host)).filter fun s => counted (latest (receipts db)) s && s.machineId = m).map
        (·.amount)).sum =
      ((orders.filter fun o => isCash host m o && inMachine host db o).map (·.amount)).sum := by
  induction orders with
  | nil => rfl
  | cons o orders ih =>
    rw [List.filterMap_cons, List.filter_cons]
    by_cases hcountable : o.countable = true
    · rcases hof : o.machineId with _ | m'
      · simp [coffeeSale, hcountable, hof, isCash, ih]
      · have hsale : coffeeSale host o = some ⟨m', o.ts, o.amount, orderIsCash host o.orderResource⟩ := by
          simp [coffeeSale, hcountable, hof]
        have hkeep : (counted (latest (receipts db)) ⟨m', o.ts, o.amount, orderIsCash host o.orderResource⟩ &&
            decide (m' = m)) = (isCash host m o && inMachine host db o) := by
          rw [inMachine, hsale, Option.any_some, isCash, hof, hcountable]
          by_cases hm : m' = m
          · subst hm
            simp [counted]
          · simp [hm]
        rw [hsale]
        rw [List.filter_cons]
        rw [hkeep]
        split_ifs
        · rw [List.map_cons, List.sum_cons, List.map_cons, List.sum_cons, ih]
        · exact ih
    · have hnone : coffeeSale host o = none := if_neg hcountable
      rw [hnone]
      simp [isCash, hcountable, ih]

theorem perMachine_perm (sales : List CashSale) (received : List ReceivedCollection) :
    (cashInMachines sales received).perMachine.Perm ((sums (latest received) sales).map fun e =>
      MachineCash.mk e.1 e.2 (OrderedMap.get (latest received) e.1)) := List.perm_insertionSort _ _

theorem foldl_add_amount (sales : List CashSale) (x : ℚ) :
    sales.foldl (fun own s => own + s.amount) x = x + (sales.map (·.amount)).sum := by
  induction sales generalizing x with
  | nil => simp
  | cons s sales ih => rw [List.foldl_cons, ih, List.map_cons, List.sum_cons, add_assoc]

/-- The entry of a machine is its sum. -/
theorem find_perMachine (sales : List CashSale) (received : List ReceivedCollection) :
    ((cashInMachines sales received).perMachine.find? fun e => e.machineId = m).map (·.amount) =
      OrderedMap.get (sums (latest received) sales) m := by
  have hperm := perMachine_perm sales received
  have hkeys : ((sums (latest received) sales).map fun e =>
      MachineCash.mk e.1 e.2 (OrderedMap.get (latest received) e.1)).map MachineCash.machineId =
      OrderedMap.keys (sums (latest received) sales) := by
    rw [List.map_map]
    rfl
  have hnd : ((cashInMachines sales received).perMachine.map MachineCash.machineId).Nodup := by
    rw [(hperm.map _).nodup_iff, hkeys, sums, keys_tally]
    exact nodup_keySet _
  rcases hget : OrderedMap.get (sums (latest received) sales) m with _ | v
  · have hnone : (cashInMachines sales received).perMachine.find? (fun e => e.machineId = m) = none := by
      refine List.find?_eq_none.mpr fun e he heq => ?_
      have hkey : e.machineId ∈ OrderedMap.keys (sums (latest received) sales) := by
        rw [← hkeys]
        exact List.mem_map_of_mem (hperm.mem_iff.mp he)
      rw [of_decide_eq_true heq] at hkey
      exact OrderedMap.get_eq_none_iff.mp hget hkey
    rw [hnone]
    rfl
  · have hmem : MachineCash.mk m v (OrderedMap.get (latest received) m) ∈ (cashInMachines sales received).perMachine :=
      hperm.mem_iff.mpr (List.mem_map.mpr ⟨(m, v), OrderedMap.mem_of_get hget, rfl⟩)
    have hfind : (cashInMachines sales received).perMachine.find? (fun e => e.machineId = m) =
        some ⟨m, v, OrderedMap.get (latest received) m⟩ := (Table.lookup_eq_some_iff hnd).mpr ⟨hmem, rfl⟩
    rw [hfind]
    rfl

/-- The amount of a machine is the sum of its sales that count. -/
theorem get_sums (sales : List CashSale) (received : List ReceivedCollection) :
    (OrderedMap.get (sums (latest received) sales) m).getD 0 =
      ((sales.filter fun s => counted (latest received) s && s.machineId = m).map (·.amount)).sum := by
  have hfilter : (sales.filter fun s => counted (latest received) s && s.machineId = m) =
      (sales.filter (counted (latest received))).filter fun s => s.machineId = m := by
    rw [List.filter_filter]
    exact List.filter_congr fun s _ => Bool.and_comm _ _
  rw [sums, get_tally, hfilter]
  split_ifs with hm
  · rw [Option.getD_some, foldl_add_amount, zero_add]
  · have hnil : (sales.filter (counted (latest received))).filter (fun s => s.machineId = m) = [] := by
      rw [List.filter_eq_nil_iff]
      intro s hs heq
      exact hm (List.mem_map.mpr ⟨s, hs, of_decide_eq_true heq⟩)
    rw [hnil]
    rfl

theorem machineAmount_eq (hsnack : ∀ s ∈ db.sales, s.machineId ≠ some m) : machineAmount host db m =
    ((db.orders.filter fun o => isCash host m o && inMachine host db o).map (·.amount)).sum := by
  have hnone : (db.sales.filterMap snackSale).filter
      (fun s => counted (latest (receipts db)) s && s.machineId = m) = [] := by
    rw [List.filter_eq_nil_iff]
    intro s hs hkeep
    obtain ⟨row, hrow, hsale⟩ := List.mem_filterMap.mp hs
    obtain ⟨m', hm', rfl⟩ := Option.map_eq_some_iff.mp hsale
    simp only [Bool.and_eq_true, decide_eq_true_eq] at hkeep
    exact hsnack row hrow (hm'.trans (congrArg some hkeep.2))
  rw [machineAmount, find_perMachine, get_sums, estimateSales, List.filter_append, hnone, List.append_nil]
  exact coffee_counted db.orders

/-- Every cash sale in one place, the three parts are all the cash of the machine. -/
theorem parts_sum (hchannel : ∀ o ∈ db.orders, o.machineId = some m →
      orderIsCash host o.orderResource = resourceIn host o.orderResource)
    (hsnack : ∀ s ∈ db.sales, s.machineId ≠ some m)
    (hplaces : ∀ o ∈ db.orders, isCash host m o = true → places host db m o = 1) :
    revenueBefore host db m + (expectedRows host db m).sum + machineAmount host db m = totalCash host db m := by
  rw [machineAmount_eq hsnack, expectedRows_sum, revenueBefore, totalCash, Timeline.sum_filter, Timeline.sum_filter,
    Timeline.sum_filter, ← List.sum_map_add, ← List.sum_map_add]
  refine congrArg List.sum (List.map_congr_left fun o ho => ?_)
  rw [countP_joins]
  by_cases hcash : isCash host m o = true
  · have hof := hcash
    simp only [isCash, Bool.and_eq_true, decide_eq_true_eq] at hof
    have hin : o.machineId = some m ∧ o.countable = true ∧ resourceIn host o.orderResource = true :=
      ⟨hof.1.1, hof.1.2, hchannel o ho hof.1.1 ▸ hof.2⟩
    have hone := hplaces o ho hcash
    rw [if_pos hin, hcash, Bool.true_and, Bool.true_and, ← mul_add, ← mul_add, ← Nat.cast_add, ← Nat.cast_add]
    rw [places] at hone
    rw [hone]
    rfl
  · have hout : ¬ (o.machineId = some m ∧ o.countable = true ∧ resourceIn host o.orderResource = true) := by
      rintro ⟨hof, hcountable, hres⟩
      refine hcash ?_
      simp only [isCash, hof, hcountable, hchannel o ho hof, hres, decide_true, Bool.and_self]
    rw [if_neg hout, Bool.eq_false_of_not_eq_true hcash]
    simp

/-! Whole amounts are reported as they are. -/

/-- The amounts of the machine's sales have no fraction. -/
def WholeAmounts (db : CashDb) (m : String) : Prop := ∀ o ∈ db.orders, o.machineId = some m → ∃ n : ℤ, o.amount = n

theorem mathRound_intCast (n : ℤ) : mathRound n = n := by
  rw [mathRound, Int.floor_intCast_add]
  norm_num

theorem exists_int_sum (xs : List ℚ) (h : ∀ x ∈ xs, ∃ n : ℤ, x = n) : ∃ n : ℤ, xs.sum = n := by
  induction xs with
  | nil => exact ⟨0, by simp⟩
  | cons x xs ih =>
    obtain ⟨n, rfl⟩ := h _ List.mem_cons_self
    obtain ⟨n', hn'⟩ := ih fun x hx => h x (List.mem_cons_of_mem _ hx)
    exact ⟨n + n', by rw [List.sum_cons, hn', Int.cast_add]⟩

theorem cast_mathRound {x : ℚ} (h : ∃ n : ℤ, x = n) : (mathRound x : ℚ) = x := by
  obtain ⟨n, rfl⟩ := h
  rw [mathRound_intCast]

theorem expectedAmounts_sum (hwhole : WholeAmounts db m) :
    ((expectedAmounts host db m).sum : ℚ) = (expectedRows host db m).sum := by
  have hrows : expectedAmounts host db m = (expectedRows host db m).map mathRound := by
    rw [expectedAmounts, intervals, expectedRows, List.filter_map, List.map_map, List.map_map]
    rfl
  have hint : ∀ x ∈ expectedRows host db m, ∃ n : ℤ, x = n := by
    intro x hx
    obtain ⟨r, hr, rfl⟩ := List.mem_map.mp hx
    obtain ⟨hmem, hof⟩ := List.mem_filter.mp hr
    obtain ⟨w, _, rfl⟩ := List.mem_map.mp hmem
    refine exists_int_sum _ fun y hy => ?_
    obtain ⟨o, ho, rfl⟩ := List.mem_map.mp hy
    obtain ⟨ho, hjoin⟩ := List.mem_filter.mp ho
    simp only [joins, Bool.and_eq_true, decide_eq_true_eq] at hjoin
    have hmachine : w.2.machineId = m := of_decide_eq_true hof
    exact hwhole o ho (hjoin.1.1.1.1.trans (congrArg some hmachine))
  rw [hrows]
  generalize expectedRows host db m = xs at hint
  induction xs with
  | nil => rfl
  | cons x xs ih =>
    rw [List.map_cons, List.sum_cons, Int.cast_add, List.sum_cons, ih fun y hy => hint y (List.mem_cons_of_mem _ hy),
      cast_mathRound (hint x List.mem_cons_self)]

theorem machineEstimate_eq (hsnack : ∀ s ∈ db.sales, s.machineId ≠ some m) (hwhole : WholeAmounts db m) :
    (machineEstimate host db m : ℚ) = machineAmount host db m := by
  have hround : machineEstimate host db m = mathRound (machineAmount host db m) := by
    rw [machineEstimate, cashEstimate, List.find?_map, machineAmount]
    have hsame : ((fun e : MachineEstimate => decide (e.machineId = m)) ∘
        fun e : MachineCash => (⟨e.machineId, nameOf db e.machineId, mathRound e.amount, e.since⟩ : MachineEstimate)) =
        fun e => decide (e.machineId = m) := rfl
    have hfound : ∀ found : Option MachineCash, ((found.map fun e =>
        (⟨e.machineId, nameOf db e.machineId, mathRound e.amount, e.since⟩ : MachineEstimate)).map (·.amount)).getD 0 =
        mathRound ((found.map (·.amount)).getD 0) := by
      rintro (_ | e)
      · have hzero := mathRound_intCast 0
        rw [Int.cast_zero] at hzero
        exact hzero.symm
      · rfl
    rw [hsame]
    exact hfound _
  rw [hround]
  refine cast_mathRound ?_
  rw [machineAmount_eq hsnack]
  refine exists_int_sum _ fun x hx => ?_
  obtain ⟨o, ho, rfl⟩ := List.mem_map.mp hx
  obtain ⟨ho, hkeep⟩ := List.mem_filter.mp ho
  simp only [isCash, Bool.and_eq_true, decide_eq_true_eq] at hkeep
  exact hwhole o ho hkeep.1.1.1

/-- A receipt of each collection, none before the collection itself. -/
def AllReceived (db : CashDb) (m : String) : Prop :=
  ∀ c ∈ historyOf db m, ∃ r, c.receivedAt = some r ∧ c.collectedAt ≤ r

theorem afterCollections_of_received (hall : AllReceived db m) (h : afterReceipts db m o = true) :
    afterCollections db m o = true := by
  refine List.all_eq_true.mpr fun c hc => decide_eq_true ?_
  obtain ⟨r, hr, hle⟩ := hall c hc
  obtain ⟨hmem, _, hof⟩ := mem_historyOf.mp hc
  have hreceipt : ReceivedCollection.mk c.machineId r ∈ receipts db :=
    List.mem_filterMap.mpr ⟨c, hmem, by rw [hr, Option.map_some]⟩
  have hlt := List.all_eq_true.mp h _ hreceipt
  simp only [hof, ne_eq, not_true_eq_false, decide_false, Bool.false_or, decide_eq_true_eq] at hlt
  omega

/-- Nothing was sold between the last collection and the last receipt. -/
def NothingBetween (host : Js.Host) (db : CashDb) (m : String) : Prop :=
  ∀ o ∈ db.orders, isCash host m o = true → afterCollections db m o = true → afterReceipts db m o = true

/-- A sale that is after all collections exactly when it is after all receipts is counted once; what was collected
and waits for its receipt is counted in the reconciliation and in the machine. Where everything is received and
nothing was sold between the last collection and the last receipt, the parts make up the cash of the machine. -/
structure Partitioned (host : Js.Host) (db : CashDb) (m : String) : Prop where
  once : ∀ o ∈ db.orders, isCash host m o = true → afterCollections db m o = afterReceipts db m o →
    places host db m o = 1
  waiting : ∀ o ∈ db.orders, isCash host m o = true → afterCollections db m o = false → afterReceipts db m o = true →
    (beforeFirst db m o).toNat + joined host db o = 1 ∧ inMachine host db o = true
  parts : AllReceived db m → NothingBetween host db m →
    revenueBefore host db m + (expectedRows host db m).sum + machineAmount host db m = totalCash host db m
  reported : AllReceived db m → NothingBetween host db m → WholeAmounts db m →
    revenueBefore host db m + (expectedAmounts host db m).sum + machineEstimate host db m = totalCash host db m

/-- With distinct times of collection, one reading of the channels, and no snacks in the machine. -/
theorem cash_partition (hdistinct : ((historyOf db m).map (·.collectedAt)).Nodup)
    (hchannel : ∀ o ∈ db.orders, o.machineId = some m →
      orderIsCash host o.orderResource = resourceIn host o.orderResource)
    (hsnack : ∀ s ∈ db.sales, s.machineId ≠ some m) : Partitioned host db m := by
  have hplaces : ∀ o ∈ db.orders, isCash host m o = true →
      (beforeFirst db m o).toNat + joined host db o = (!afterCollections db m o).toNat ∧
        inMachine host db o = afterReceipts db m o := by
    intro o ho hcash
    have hof := hcash
    simp only [isCash, Bool.and_eq_true, decide_eq_true_eq] at hof
    exact places_eq hdistinct hcash (hchannel o ho hof.1.1 ▸ hof.2)
  have hsingle : ∀ o ∈ db.orders, isCash host m o = true → afterCollections db m o = afterReceipts db m o →
      places host db m o = 1 := by
    intro o ho hcash heq
    obtain ⟨hreconciled, hmachine⟩ := hplaces o ho hcash
    rw [places, hreconciled, hmachine, heq]
    cases afterReceipts db m o <;> rfl
  have hsum : AllReceived db m → NothingBetween host db m →
      revenueBefore host db m + (expectedRows host db m).sum + machineAmount host db m = totalCash host db m := by
    intro hall hnone
    refine parts_sum hchannel hsnack fun o ho hcash => hsingle o ho hcash ?_
    exact Bool.eq_iff_iff.mpr ⟨hnone o ho hcash, afterCollections_of_received hall⟩
  refine ⟨hsingle, fun o ho hcash hnot hafter => ?_, hsum, fun hall hnone hwhole => ?_⟩
  · obtain ⟨hreconciled, hmachine⟩ := hplaces o ho hcash
    rw [hreconciled, hmachine, hnot, hafter]
    exact ⟨rfl, rfl⟩
  · rw [expectedAmounts_sum hwhole, machineEstimate_eq hsnack hwhole]
    exact hsum hall hnone

/-! Machine `m`. -/

/-- Lower case as far as the channels of the samples go. -/
def cashHost : Js.Host := ⟨id, fun _ => none, fun _ => "", fun _ => "", fun _ _ => 0, fun _ => ""⟩

def collectionOf (id : String) (collectedAt : ℤ) (receivedAt : Option ℤ) : CollectionRow :=
  ⟨id, "m", collectedAt, receivedAt, receivedAt.map fun _ => 1000, if receivedAt.isSome then .received else .collected⟩

def cashOrder (ts : ℤ) (amount : ℚ) (channel : String) : CoffeeOrderRow := ⟨some "m", ts, amount, some channel, true⟩

/-- Received at ten and at forty; sales before, between and after. -/
def receivedHistory (orders : List CoffeeOrderRow) : CashDb :=
  ⟨[collectionOf "first" 5 (some 10), collectionOf "second" 20 (some 40)], orders, [], []⟩

def threeSales : List CoffeeOrderRow := [cashOrder 3 5 "cash", cashOrder 15 7 "cash", cashOrder 50 9 "cash"]

theorem cash_partition_threeSales : Partitioned cashHost (receivedHistory threeSales) "m" :=
  cash_partition (by decide +kernel) (by decide +kernel) (List.forall_mem_nil _)

/-- Sold between the last collection and its receipt: nowhere. Collected and waiting: twice. Halves of a sum are
rounded up in each part. A blank before the channel: in no interval. -/
theorem cash_not_partitioned :
    (isCash cashHost "m" (cashOrder 30 5 "cash") = true ∧
      places cashHost (receivedHistory [cashOrder 30 5 "cash"]) "m" (cashOrder 30 5 "cash") = 0) ∧
    (isCash cashHost "m" (cashOrder 15 5 "cash") = true ∧
      places cashHost ⟨[collectionOf "first" 5 (some 10), collectionOf "second" 20 none], [cashOrder 15 5 "cash"], [], []⟩ "m"
        (cashOrder 15 5 "cash") = 2) ∧
    (AllReceived (receivedHistory [cashOrder 15 (1 / 2) "cash", cashOrder 50 (1 / 2) "cash"]) "m" ∧
      revenueBefore cashHost (receivedHistory [cashOrder 15 (1 / 2) "cash", cashOrder 50 (1 / 2) "cash"]) "m" +
          (expectedAmounts cashHost (receivedHistory [cashOrder 15 (1 / 2) "cash", cashOrder 50 (1 / 2) "cash"]) "m").sum +
        machineEstimate cashHost (receivedHistory [cashOrder 15 (1 / 2) "cash", cashOrder 50 (1 / 2) "cash"]) "m" ≠
      totalCash cashHost (receivedHistory [cashOrder 15 (1 / 2) "cash", cashOrder 50 (1 / 2) "cash"]) "m") ∧
    (isCash cashHost "m" (cashOrder 15 5 " cash") = true ∧
      places cashHost (receivedHistory [cashOrder 15 5 " cash"]) "m" (cashOrder 15 5 " cash") = 0) := by
  refine ⟨?_, ?_, ⟨?_, ?_⟩, ?_⟩
  · decide +kernel
  · decide +kernel
  · have hhistory : historyOf (receivedHistory [cashOrder 15 (1 / 2) "cash", cashOrder 50 (1 / 2) "cash"]) "m" =
        [collectionOf "first" 5 (some 10), collectionOf "second" 20 (some 40)] := by decide +kernel
    intro c hc
    rw [hhistory] at hc
    rcases List.mem_pair.mp hc with rfl | rfl
    · exact ⟨10, rfl, by decide⟩
    · exact ⟨40, rfl, by decide⟩
  · decide +kernel
  · decide +kernel

end Mydon.Cash
