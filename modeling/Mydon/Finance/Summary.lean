import Mydon.Finance.Rates
import Mydon.Lib.Tally

/-! The finance summary: the open obligations by age, the concentration of the debt, and the query that feeds
them. -/

namespace Mydon.Finance

open Mydon.Lib

/-- A money flow as the mathematics reads it: an amount is missing when its text is no number. -/
structure FlowForMath where
  id : ℕ
  direction : Direction
  status : FlowStatus
  amount : Option ℚ
  currency : String
  rate : Option ℚ
  amountUzs : Option ℚ
  dueDate : Option ℤ
  date : ℤ
  counterpartyKey : Option String
  counterpartyName : Option String
  deriving DecidableEq

structure CurrencyAmount where
  amount : ℚ
  count : ℕ
  deriving DecidableEq

structure BucketSummary where
  count : ℕ
  byCurrency : List (String × CurrencyAmount)
  uzs : ℚ
  unconverted : ℕ
  deriving DecidableEq

def emptyBucket : BucketSummary := ⟨0, [], 0, 0⟩

/-- `ISO_DAY`: days with a year of four digits. -/
def isIsoDay (day : ℤ) : Bool := Clock.ofCivil 0 1 1 ≤ day && day ≤ Clock.ofCivil 9999 12 31

def uzsEquivalent (row : FlowForMath) : Option ℚ :=
  row.amount.bind fun amount =>
    if row.currency = "UZS" then some amount
    else row.amountUzs.or ((row.rate.filter (0 < ·)).map (amount * ·))

def addCurrency (amount : ℚ) (cur : Option CurrencyAmount) : CurrencyAmount :=
  match cur with
  | some cur => ⟨cur.amount + amount, cur.count + 1⟩
  | none => ⟨amount, 1⟩

def addToBucket (b : BucketSummary) (row : FlowForMath) : BucketSummary :=
  match row.amount with
  | none => b
  | some amount =>
    { count := b.count + 1
      byCurrency := OrderedMap.alter (addCurrency amount) row.currency b.byCurrency
      uzs := b.uzs + (uzsEquivalent row).getD 0
      unconverted := b.unconverted + if (uzsEquivalent row).isNone then 1 else 0 }

def currencyLe (host : Js.Host) (a c : String × CurrencyAmount) : Prop :=
  a.1 = "UZS" ∨ c.1 ≠ "UZS" ∧ host.localeCompare a.1 c.1 ≤ 0

instance (host : Js.Host) : DecidableRel (currencyLe host) := fun _ _ => by unfold currencyLe; infer_instance

def sortCurrencies (host : Js.Host) (b : BucketSummary) : BucketSummary :=
  { b with byCurrency := b.byCurrency.insertionSort (currencyLe host) }

def isOpen (r : FlowForMath) : Bool := r.status = .planned

/-! Aging. -/

inductive Bucket
  | notDue
  | d0_30
  | d31_60
  | d61_90
  | d90plus
  | noDue
  deriving DecidableEq

def Bucket.all : List Bucket := [.notDue, .d0_30, .d31_60, .d61_90, .d90plus, .noDue]

structure AgingReport where
  bucket : Bucket → BucketSummary
  total : BucketSummary

/-- The bucket of a row; the texts of the days compare as the days do. -/
def bucketFor (today : ℤ) (row : FlowForMath) : Bucket :=
  match row.dueDate.filter isIsoDay with
  | none => .noDue
  | some due =>
    if today ≤ due then .notDue
    else if today - due ≤ 30 then .d0_30
    else if today - due ≤ 60 then .d31_60
    else if today - due ≤ 90 then .d61_90
    else .d90plus

def AgingReport.add (today : ℤ) (report : AgingReport) (row : FlowForMath) : AgingReport where
  bucket b := if b = bucketFor today row then addToBucket (report.bucket b) row else report.bucket b
  total := addToBucket report.total row

def aging (host : Js.Host) (rows : List FlowForMath) (direction : Direction) (today : ℤ) : AgingReport :=
  let report := (rows.filter fun row => isOpen row && row.direction = direction).foldl (AgingReport.add today)
    ⟨fun _ => emptyBucket, emptyBucket⟩
  ⟨fun b => sortCurrencies host (report.bucket b), sortCurrencies host report.total⟩

/-- `dueSoon`, with its horizon of days. -/
def dueSoon (rows : List FlowForMath) (direction : Direction) (today : ℤ) (horizonDays : ℕ) : List FlowForMath :=
  (rows.filter fun r => isOpen r && r.direction = direction &&
      (r.dueDate.filter isIsoDay).any fun due => due ≤ today + horizonDays).insertionSort
    fun a b => a.dueDate.getD 0 ≤ b.dueDate.getD 0

/-! Concentration. -/

def CONCENTRATION_ALARM : ℚ := 6 / 10

structure Debtor where
  name : String
  bucket : BucketSummary
  deriving DecidableEq

structure ConcentrationRow where
  key : String
  name : String
  uzs : ℚ
  byCurrency : List (String × CurrencyAmount)
  share : Option ℚ
  deriving DecidableEq

structure ConcentrationReport where
  rows : List ConcentrationRow
  topShare : Option ℚ
  alarm : Bool
  totalUzs : ℚ
  unconverted : ℕ
  deriving DecidableEq

def debtorKey (row : FlowForMath) : String := (row.counterpartyKey.or row.counterpartyName).getD "—"

def debtorName (row : FlowForMath) : String := row.counterpartyName.getD (row.counterpartyKey.getD "не указан")

def addDebtor (byKey : List (String × Debtor)) (row : FlowForMath) : List (String × Debtor) :=
  OrderedMap.alter (fun found =>
    let found := found.getD ⟨debtorName row, emptyBucket⟩
    { found with bucket := addToBucket found.bucket row }) (debtorKey row) byKey

def concentration (host : Js.Host) (rows : List FlowForMath) : ConcentrationReport :=
  let byKey := (rows.filter fun r => isOpen r && r.direction = .incoming).foldl addDebtor []
  let totalUzs := (byKey.map fun e => e.2.bucket.uzs).sum
  let unconverted := (byKey.map fun e => e.2.bucket.unconverted).sum
  let rowsOut := (byKey.map fun e =>
    (⟨e.1, e.2.name, e.2.bucket.uzs, (sortCurrencies host e.2.bucket).byCurrency,
      if 0 < totalUzs then some (e.2.bucket.uzs / totalUzs) else none⟩ : ConcentrationRow)).insertionSort
        fun a b => b.uzs ≤ a.uzs
  let topShare := rowsOut.head?.bind ConcentrationRow.share
  { rows := rowsOut, topShare, alarm := topShare.any (CONCENTRATION_ALARM ≤ ·), totalUzs, unconverted }

/-! The summary. -/

/-- A row of `money_flow`, with the organisation it belongs to. -/
structure MoneyRow where
  orgId : Option ℕ
  id : ℕ
  direction : Direction
  status : FlowStatus
  amount : ℚ
  currency : String
  rate : Option ℚ
  amountUzs : Option ℚ
  dueDate : Option ℤ
  date : ℤ
  counterpartyId : Option String
  counterparty : Option String
  deriving DecidableEq

def SUMMARY_FACT_DAYS : ℤ := 366

def SUMMARY_LIMIT : ℕ := 5000

/-- The organisation's plans, and its facts of the last year. -/
def inSummary (org : ℕ) (now : ℤ) (r : MoneyRow) : Bool :=
  r.orgId = some org && (r.status = .planned ||
    r.status = .actual && Clock.tashkentDayStartOf now - SUMMARY_FACT_DAYS * Clock.DAY_MS ≤ r.date)

/-- `order by date desc limit 5000`. -/
def summaryRows (org : ℕ) (now : ℤ) (table : List MoneyRow) : List MoneyRow :=
  (Latest.newestFirst MoneyRow.date (table.filter (inSummary org now))).take SUMMARY_LIMIT

def forMath (entityName : String → Option String) (r : MoneyRow) : FlowForMath where
  id := r.id
  direction := r.direction
  status := r.status
  amount := some r.amount
  currency := r.currency
  rate := r.rate
  amountUzs := r.amountUzs
  dueDate := r.dueDate
  date := r.date
  counterpartyKey := r.counterpartyId.or r.counterparty
  counterpartyName := (r.counterpartyId.bind entityName).or r.counterparty

structure FinanceSummary where
  today : ℤ
  receivables : AgingReport
  payables : AgingReport
  dueSoonIn : List FlowForMath
  dueSoonOut : List FlowForMath
  concentration : ConcentrationReport
  fx : List FxRow

structure SummaryEnv where
  host : Js.Host
  /-- The name of a card, by the left join. -/
  entityName : String → Option String
  fxRates : List FxRow

def summary (env : SummaryEnv) (org : ℕ) (now : ℤ) (table : List MoneyRow) : FinanceSummary :=
  let today := Clock.tashkentDay now
  let rows := (summaryRows org now table).map (forMath env.entityName)
  { today
    receivables := aging env.host rows .incoming today
    payables := aging env.host rows .outgoing today
    dueSoonIn := dueSoon rows .incoming today 7
    dueSoonOut := dueSoon rows .outgoing today 7
    concentration := concentration env.host rows
    fx := fxCurrentFrom env.fxRates }

/-! What a bucket holds. -/

variable {host : Js.Host} {rows rows' : List FlowForMath} {s : BucketSummary} {today : ℤ}

def uzsOf (r : FlowForMath) : ℚ := (uzsEquivalent r).getD 0

def currencySum (rows : List FlowForMath) (currency : String) : CurrencyAmount :=
  let own := rows.filter fun r => r.currency = currency
  ⟨(own.map fun r => r.amount.getD 0).sum, own.length⟩

/-- The bucket counts the rows, each once. -/
structure Sums (rows : List FlowForMath) (s : BucketSummary) : Prop where
  count : s.count = rows.length
  byCurrency : ∀ c, OrderedMap.get s.byCurrency c = if c ∈ rows.map FlowForMath.currency then some (currencySum rows c) else none
  uzs : s.uzs = (rows.map uzsOf).sum
  unconverted : s.unconverted = rows.countP fun r => (uzsEquivalent r).isNone

def Readable (rows : List FlowForMath) : Prop := ∀ r ∈ rows, r.amount.isSome = true

theorem addToBucket_of_some {r : FlowForMath} {amount : ℚ} (h : r.amount = some amount) (b : BucketSummary) :
    addToBucket b r = ⟨b.count + 1, OrderedMap.alter (addCurrency amount) r.currency b.byCurrency, b.uzs + uzsOf r,
      b.unconverted + if (uzsEquivalent r).isNone then 1 else 0⟩ := by
  unfold addToBucket
  rw [h]
  rfl

theorem foldl_addToBucket_keys (rows : List FlowForMath) {b : BucketSummary} (h : (OrderedMap.keys b.byCurrency).Nodup) :
    (OrderedMap.keys (rows.foldl addToBucket b).byCurrency).Nodup := by
  induction rows generalizing b with
  | nil => exact h
  | cons r rows ih =>
    rw [List.foldl_cons]
    apply ih
    unfold addToBucket
    rcases r.amount with _ | amount
    · exact h
    · exact OrderedMap.nodup_keys_alter _ _ h

theorem currencySum_append (rows : List FlowForMath) (r : FlowForMath) (c : String) :
    currencySum (rows ++ [r]) c = if r.currency = c then
      ⟨(currencySum rows c).amount + r.amount.getD 0, (currencySum rows c).count + 1⟩ else currencySum rows c := by
  unfold currencySum
  rw [List.filter_append]
  split_ifs with h <;> simp [h]

/-- A bucket filled from nothing holds its rows. -/
theorem sums_foldl (h : Readable rows) : Sums rows (rows.foldl addToBucket emptyBucket) := by
  induction rows using List.reverseRecOn with
  | nil => exact ⟨rfl, fun _ => rfl, rfl, rfl⟩
  | append_singleton rows r ih =>
    have hrows := ih fun x hx => h x (List.mem_append_left _ hx)
    obtain ⟨amount, hamount⟩ := Option.isSome_iff_exists.mp (h r (List.mem_append_right _ (List.mem_singleton_self r)))
    rw [List.foldl_append, List.foldl_cons, List.foldl_nil, addToBucket_of_some hamount]
    refine ⟨?_, ?_, ?_, ?_⟩
    · dsimp only
      rw [hrows.count, List.length_append, List.length_singleton]
    · intro c
      rw [OrderedMap.get_alter, hrows.byCurrency, currencySum_append, List.map_append, List.map_singleton]
      by_cases hc : r.currency = c
      · subst hc
        by_cases hin : r.currency ∈ rows.map FlowForMath.currency
        · simp [hin, addCurrency, hamount]
        · have hnone : rows.filter (fun x => x.currency = r.currency) = [] := by
            rw [List.filter_eq_nil_iff]
            intro x hx heq
            exact hin (List.mem_map.mpr ⟨x, hx, of_decide_eq_true heq⟩)
          simp [hin, addCurrency, hamount, currencySum, hnone]
      · rw [if_neg hc, if_neg hc, hrows.byCurrency]
        have hmem : c ∈ rows.map FlowForMath.currency ++ [r.currency] ↔ c ∈ rows.map FlowForMath.currency := by
          rw [List.mem_append, List.mem_singleton, or_iff_left (Ne.symm hc)]
        simp only [hmem]
    · dsimp only
      rw [hrows.uzs, List.map_append, List.sum_append, List.map_singleton, List.sum_singleton]
    · dsimp only
      rw [hrows.unconverted, List.countP_append, List.countP_singleton]

theorem get_of_perm {m m' : List (String × CurrencyAmount)} (hperm : m.Perm m') (hn : (OrderedMap.keys m).Nodup) (c : String) :
    OrderedMap.get m' c = OrderedMap.get m c := by
  have hn' : (OrderedMap.keys m').Nodup := (hperm.map _).nodup_iff.mp hn
  rcases h : OrderedMap.get m c with _ | v
  · rw [OrderedMap.get_eq_none_iff] at h ⊢
    exact fun hmem => h ((hperm.map Prod.fst).mem_iff.mpr hmem)
  · exact OrderedMap.get_of_mem hn' (hperm.subset (OrderedMap.mem_of_get h))

/-- Sorting the currencies changes no sum. -/
theorem Sums.sorted (h : Sums rows s) (hn : (OrderedMap.keys s.byCurrency).Nodup) : Sums rows (sortCurrencies host s) := by
  refine ⟨h.count, fun c => ?_, h.uzs, h.unconverted⟩
  rw [← h.byCurrency c]
  exact get_of_perm (List.perm_insertionSort _ _).symm hn c

theorem sums_bucket (h : Readable rows) : Sums rows (sortCurrencies host (rows.foldl addToBucket emptyBucket)) :=
  (sums_foldl h).sorted (foldl_addToBucket_keys rows List.nodup_nil)

theorem currencySum_of_perm (hperm : rows.Perm rows') (c : String) : currencySum rows c = currencySum rows' c := by
  unfold currencySum
  dsimp only
  rw [((hperm.filter _).map _).sum_eq, (hperm.filter _).length_eq]

/-- The order of the rows does not matter. -/
theorem Sums.of_perm (h : Sums rows s) (hperm : rows.Perm rows') : Sums rows' s := by
  refine ⟨h.count.trans hperm.length_eq, fun c => ?_, h.uzs.trans (hperm.map _).sum_eq,
    h.unconverted.trans (hperm.countP_eq _)⟩
  have hmem : c ∈ rows'.map FlowForMath.currency ↔ c ∈ rows.map FlowForMath.currency := (hperm.map _).mem_iff.symm
  rw [h.byCurrency c, currencySum_of_perm hperm]
  simp only [hmem]

/-- A row is in the bucket its due date chooses, and in the total. -/
theorem foldl_aging (rows : List FlowForMath) (report : AgingReport) :
    (∀ b, (rows.foldl (AgingReport.add today) report).bucket b =
      (rows.filter fun r => bucketFor today r = b).foldl addToBucket (report.bucket b)) ∧
      (rows.foldl (AgingReport.add today) report).total = rows.foldl addToBucket report.total := by
  induction rows generalizing report with
  | nil => exact ⟨fun _ => rfl, rfl⟩
  | cons r rows ih =>
    obtain ⟨hbucket, htotal⟩ := ih (report.add today r)
    refine ⟨fun b => ?_, htotal⟩
    rw [List.foldl_cons, hbucket b, List.filter_cons, AgingReport.add]
    dsimp only
    by_cases hb : bucketFor today r = b
    · rw [if_pos hb.symm, if_pos (decide_eq_true hb), List.foldl_cons]
    · rw [if_neg (Ne.symm hb), if_neg (by simpa using hb)]

def inCurrency (s : BucketSummary) (c : String) : CurrencyAmount := (OrderedMap.get s.byCurrency c).getD ⟨0, 0⟩

/-- Every flow is counted once: in the total, and in the bucket its due date chooses. -/
structure CountsOnce (flows : List FlowForMath) (today : ℤ) (report : AgingReport) : Prop where
  total : Sums flows report.total
  bucket : ∀ b, Sums (flows.filter fun r => bucketFor today r = b) (report.bucket b)
  count : report.total.count = (Bucket.all.map fun b => (report.bucket b).count).sum
  amounts : ∀ c, (inCurrency report.total c).amount = (Bucket.all.map fun b => (inCurrency (report.bucket b) c).amount).sum ∧
    (inCurrency report.total c).count = (Bucket.all.map fun b => (inCurrency (report.bucket b) c).count).sum
  uzs : report.total.uzs = (Bucket.all.map fun b => (report.bucket b).uzs).sum
  unconverted : report.total.unconverted = (Bucket.all.map fun b => (report.bucket b).unconverted).sum

theorem Sums.ofCurrency (h : Sums rows s) (c : String) : inCurrency s c = currencySum rows c := by
  unfold inCurrency
  rw [h.byCurrency]
  split_ifs with hc
  · rfl
  · have hnone : rows.filter (fun r => r.currency = c) = [] := by
      rw [List.filter_eq_nil_iff]
      intro r hr heq
      exact hc (List.mem_map.mpr ⟨r, hr, of_decide_eq_true heq⟩)
    simp [currencySum, hnone]

theorem mem_all (b : Bucket) : b ∈ Bucket.all := by cases b <;> decide

theorem sum_buckets {M : Type} [AddCommMonoid M] (f : FlowForMath → M) (rows : List FlowForMath) (today : ℤ) :
    (Bucket.all.map fun b => ((rows.filter fun r => bucketFor today r = b).map f).sum).sum = (rows.map f).sum :=
  sum_by_key f (by decide) fun r _ => mem_all (bucketFor today r)

theorem countP_eq_sum (p : FlowForMath → Bool) (rows : List FlowForMath) :
    rows.countP p = (rows.map fun r => if p r then 1 else 0).sum := by
  induction rows with
  | nil => rfl
  | cons r rows ih => rw [List.countP_cons, ih, List.map_cons, List.sum_cons, Nat.add_comm]

/-- What is counted in the total and in its bucket adds up. -/
theorem countsOnce_of_sums {report : AgingReport} (htotal : Sums rows report.total)
    (hbucket : ∀ b, Sums (rows.filter fun r => bucketFor today r = b) (report.bucket b)) : CountsOnce rows today report := by
  refine ⟨htotal, hbucket, ?_, fun c => ⟨?_, ?_⟩, ?_, ?_⟩
  · simp only [htotal.count, (hbucket _).count, ← List.countP_true, countP_eq_sum]
    exact (sum_buckets _ rows today).symm
  · have hsum := sum_buckets (fun r => r.amount.getD 0) (rows.filter fun r => r.currency = c) today
    simp only [htotal.ofCurrency, (hbucket _).ofCurrency, currencySum]
    simp only [List.filter_filter, Bool.and_comm] at hsum ⊢
    exact hsum.symm
  · have hsum := sum_buckets (fun _ => 1) (rows.filter fun r => r.currency = c) today
    simp only [htotal.ofCurrency, (hbucket _).ofCurrency, currencySum, ← List.countP_true, countP_eq_sum]
    simp only [List.filter_filter, Bool.and_comm] at hsum ⊢
    exact hsum.symm
  · simp only [htotal.uzs, (hbucket _).uzs]
    exact (sum_buckets _ rows today).symm
  · simp only [htotal.unconverted, (hbucket _).unconverted, countP_eq_sum]
    exact (sum_buckets _ rows today).symm

theorem aging_countsOnce {direction : Direction} (h : Readable rows) :
    CountsOnce (rows.filter fun r => isOpen r && r.direction = direction) today (aging host rows direction today) := by
  have hreadable : Readable (rows.filter fun r => isOpen r && r.direction = direction) :=
    fun r hr => h r (List.mem_of_mem_filter hr)
  obtain ⟨hbucket, htotal⟩ := @foldl_aging today (rows.filter fun r => isOpen r && r.direction = direction)
    ⟨fun _ => emptyBucket, emptyBucket⟩
  apply countsOnce_of_sums
  · unfold aging
    dsimp only
    rw [htotal]
    exact sums_bucket hreadable
  · intro b
    unfold aging
    dsimp only
    rw [hbucket b]
    exact sums_bucket fun r hr => hreadable r (List.mem_of_mem_filter hr)

/-! The debtors hold what the total of the receivables holds. -/

theorem sum_addDebtor {M : Type} [AddCommMonoid M] (c : BucketSummary → M) (w : FlowForMath → M) (hempty : c emptyBucket = 0)
    (hadd : ∀ b r, r.amount.isSome = true → c (addToBucket b r) = c b + w r) (h : Readable rows) :
    ((rows.foldl addDebtor []).map fun e => c e.2.bucket).sum = (rows.map w).sum := by
  induction rows using List.reverseRecOn with
  | nil => rfl
  | append_singleton rows r ih =>
    rw [List.foldl_append, List.foldl_cons, List.foldl_nil, List.map_append, List.sum_append, List.map_singleton,
      List.sum_singleton, ← ih fun x hx => h x (List.mem_append_left _ hx)]
    unfold addDebtor
    apply sum_alter_add (c := fun d : Debtor => c d.bucket)
    intro own
    rw [hadd _ _ (h r (List.mem_append_right _ (List.mem_singleton_self r)))]
    rcases own with _ | own
    · rw [Option.getD_none, Option.map_none, Option.getD_none, hempty]
    · rw [Option.getD_some, Option.map_some, Option.getD_some]

theorem addToBucket_uzs (b : BucketSummary) (r : FlowForMath) (h : r.amount.isSome = true) :
    (addToBucket b r).uzs = b.uzs + uzsOf r := by
  obtain ⟨amount, hamount⟩ := Option.isSome_iff_exists.mp h
  rw [addToBucket_of_some hamount]

theorem addToBucket_unconverted (b : BucketSummary) (r : FlowForMath) (h : r.amount.isSome = true) :
    (addToBucket b r).unconverted = b.unconverted + if (uzsEquivalent r).isNone then 1 else 0 := by
  obtain ⟨amount, hamount⟩ := Option.isSome_iff_exists.mp h
  rw [addToBucket_of_some hamount]

theorem concentration_totals (h : Readable rows) :
    (concentration host rows).totalUzs = (aging host rows .incoming today).total.uzs ∧
      (concentration host rows).unconverted = (aging host rows .incoming today).total.unconverted := by
  have hreadable : Readable (rows.filter fun r => isOpen r && r.direction = .incoming) :=
    fun r hr => h r (List.mem_of_mem_filter hr)
  have htotal := (@aging_countsOnce host rows today .incoming h).total
  rw [htotal.uzs, htotal.unconverted, countP_eq_sum]
  exact ⟨sum_addDebtor BucketSummary.uzs uzsOf rfl addToBucket_uzs hreadable,
    sum_addDebtor BucketSummary.unconverted _ rfl addToBucket_unconverted hreadable⟩

/-! The query is capped. -/

variable {env : SummaryEnv} {org : ℕ} {now : ℤ} {table table' : List MoneyRow}

/-- The planned flows of an organisation and a direction. -/
def plans (env : SummaryEnv) (org : ℕ) (direction : Direction) (table : List MoneyRow) : List FlowForMath :=
  (table.filter fun r => r.orgId = some org && r.status = .planned && r.direction = direction).map (forMath env.entityName)

structure SameBucket (a b : BucketSummary) : Prop where
  count : a.count = b.count
  byCurrency : ∀ c, OrderedMap.get a.byCurrency c = OrderedMap.get b.byCurrency c
  uzs : a.uzs = b.uzs
  unconverted : a.unconverted = b.unconverted

structure SameReport (a b : AgingReport) : Prop where
  total : SameBucket a.total b.total
  bucket : ∀ c, SameBucket (a.bucket c) (b.bucket c)

/-- The summary of the rows in one order counts every planned flow once, and says what it says of the table. -/
structure SummaryRight (env : SummaryEnv) (org : ℕ) (now : ℤ) (table table' : List MoneyRow) : Prop where
  receivables : CountsOnce (plans env org .incoming table) (Clock.tashkentDay now) (summary env org now table').receivables
  payables : CountsOnce (plans env org .outgoing table) (Clock.tashkentDay now) (summary env org now table').payables
  totalUzs : (summary env org now table').concentration.totalUzs = (summary env org now table').receivables.total.uzs
  unconverted :
    (summary env org now table').concentration.unconverted = (summary env org now table').receivables.total.unconverted
  sameReceivables : SameReport (summary env org now table').receivables (summary env org now table).receivables
  samePayables : SameReport (summary env org now table').payables (summary env org now table).payables

/-- No plan has more than 5000 of the selected rows, itself among them, that are not older. -/
def PlansFit (org : ℕ) (now : ℤ) (table : List MoneyRow) : Prop :=
  ∀ p ∈ table, p.orgId = some org → p.status = .planned →
    (table.countP fun r => inSummary org now r && p.date ≤ r.date) ≤ SUMMARY_LIMIT

theorem Sums.same {a b : BucketSummary} (ha : Sums rows a) (hb : Sums rows b) : SameBucket a b :=
  ⟨ha.count.trans hb.count.symm, fun c => (ha.byCurrency c).trans (hb.byCurrency c).symm, ha.uzs.trans hb.uzs.symm,
    ha.unconverted.trans hb.unconverted.symm⟩

theorem CountsOnce.same {a b : AgingReport} (ha : CountsOnce rows today a) (hb : CountsOnce rows today b) : SameReport a b :=
  ⟨ha.total.same hb.total, fun c => (ha.bucket c).same (hb.bucket c)⟩

theorem CountsOnce.of_perm {report : AgingReport} (h : CountsOnce rows today report) (hperm : rows.Perm rows') :
    CountsOnce rows' today report :=
  countsOnce_of_sums (h.total.of_perm hperm) fun b => (h.bucket b).of_perm (hperm.filter _)

theorem readable_forMath (env : SummaryEnv) (rows : List MoneyRow) : Readable (rows.map (forMath env.entityName)) := by
  intro r hr
  obtain ⟨row, -, rfl⟩ := List.mem_map.mp hr
  rfl

/-- What the summary takes for the open flows of a direction. -/
theorem open_summaryRows (direction : Direction) :
    ((summaryRows org now table).map (forMath env.entityName)).filter (fun r => isOpen r && r.direction = direction) =
      ((summaryRows org now table).filter fun r => r.status = .planned && r.direction = direction).map
        (forMath env.entityName) := by
  rw [List.filter_map]
  rfl

theorem newestFirst_perm (l : List MoneyRow) : (Latest.newestFirst MoneyRow.date l).Perm l :=
  (List.reverse_perm _).trans (Latest.sorted_perm l)

theorem plans_perm_of_all (env : SummaryEnv) (org : ℕ) (now : ℤ) (table : List MoneyRow) (direction : Direction) :
    (((Latest.newestFirst MoneyRow.date (table.filter (inSummary org now))).filter fun r =>
      r.status = .planned && r.direction = direction).map (forMath env.entityName)).Perm (plans env org direction table) := by
  unfold plans
  have hsame : (table.filter (inSummary org now)).filter (fun r => r.status = .planned && r.direction = direction) =
      table.filter fun r => r.orgId = some org && r.status = .planned && r.direction = direction := by
    rw [List.filter_filter]
    apply List.filter_congr
    intro r _
    unfold inSummary
    rcases r.status <;> rcases decide (r.orgId = some org) <;> simp
  rw [← hsame]
  exact ((newestFirst_perm _).filter _).map _

/-- When the plans fit under the cap the summary reads all of them. -/
theorem plans_perm (hfit : PlansFit org now table) (direction : Direction) :
    (((summaryRows org now table).map (forMath env.entityName)).filter fun r => isOpen r && r.direction = direction).Perm
      (plans env org direction table) := by
  rw [open_summaryRows]
  refine List.Perm.trans ?_ (plans_perm_of_all env org now table direction)
  have hdrop : ((Latest.newestFirst MoneyRow.date (table.filter (inSummary org now))).drop SUMMARY_LIMIT).filter
      (fun r => r.status = .planned && r.direction = direction) = [] := by
    rw [List.filter_eq_nil_iff]
    intro p hp hplanned
    obtain ⟨hstatus, -⟩ := Bool.and_eq_true_iff.mp hplanned
    obtain ⟨hmem, hin⟩ := List.mem_filter.mp ((newestFirst_perm _).subset (List.mem_of_mem_drop hp))
    have horg : p.orgId = some org := of_decide_eq_true (Bool.and_eq_true_iff.mp hin).1
    have hlt := Latest.lt_countP_of_mem_drop hp
    rw [List.countP_filter] at hlt
    have hle := hfit p hmem horg (of_decide_eq_true hstatus)
    simp only [Bool.and_comm] at hlt hle
    omega
  conv_rhs => rw [← List.take_append_drop SUMMARY_LIMIT (Latest.newestFirst MoneyRow.date (table.filter (inSummary org now))),
    List.filter_append, hdrop, List.append_nil]
  exact List.Perm.refl _

theorem plansFit_of_perm (hperm : table'.Perm table) (hfit : PlansFit org now table) : PlansFit org now table' := by
  intro p hp horg hplanned
  rw [hperm.countP_eq]
  exact hfit p (hperm.subset hp) horg hplanned

theorem plans_of_perm (env : SummaryEnv) (org : ℕ) (hperm : table'.Perm table) (direction : Direction) :
    (plans env org direction table').Perm (plans env org direction table) := (hperm.filter _).map _

/-- Where the plans fit every one is counted once. -/
theorem counts_of_fit (env : SummaryEnv) (hfit : PlansFit org now table) (hperm : table'.Perm table) :
    CountsOnce (plans env org .incoming table) (Clock.tashkentDay now) (summary env org now table').receivables ∧
      CountsOnce (plans env org .outgoing table) (Clock.tashkentDay now) (summary env org now table').payables := by
  have hfit' := plansFit_of_perm hperm hfit
  constructor
  · exact (aging_countsOnce (readable_forMath env _)).of_perm ((plans_perm hfit' .incoming).trans (plans_of_perm env org hperm .incoming))
  · exact (aging_countsOnce (readable_forMath env _)).of_perm ((plans_perm hfit' .outgoing).trans (plans_of_perm env org hperm .outgoing))

theorem summaryRight_of_fit (hfit : PlansFit org now table) (hperm : table'.Perm table) :
    SummaryRight env org now table table' := by
  obtain ⟨hin, hout⟩ := counts_of_fit env hfit hperm
  obtain ⟨hin', hout'⟩ := counts_of_fit env hfit (List.Perm.refl table)
  obtain ⟨huzs, hunconverted⟩ := @concentration_totals env.host _ (Clock.tashkentDay now)
    (readable_forMath env (summaryRows org now table'))
  exact ⟨hin, hout, huzs, hunconverted, hin.same hin', hout.same hout'⟩

/-- A plan with too many rows that are not older is left out when it comes first among those of its day. -/
theorem not_counted (env : SummaryEnv) (p : MoneyRow) (rest : List MoneyRow) (horg : p.orgId = some org) (hplanned : p.status = .planned)
    (hcount : SUMMARY_LIMIT ≤ rest.countP fun r => inSummary org now r && p.date ≤ r.date) :
    (((summaryRows org now (p :: rest)).map (forMath env.entityName)).filter fun r =>
      isOpen r && r.direction = p.direction).length < (plans env org p.direction (p :: rest)).length := by
  have hin : inSummary org now p = true := by simp [inSummary, horg, hplanned]
  have hplan : (p.status = .planned && p.direction = p.direction : Bool) = true := by simp [hplanned]
  obtain ⟨newer, older, heq, hlen, hperm⟩ := @Latest.newestFirst_cons _ _ _ MoneyRow.date p (rest.filter (inSummary org now))
  rw [← (plans_perm_of_all env org now (p :: rest) p.direction).length_eq, open_summaryRows, List.length_map, List.length_map]
  unfold summaryRows
  rw [List.filter_cons_of_pos hin, heq]
  rw [List.countP_filter] at hlen
  simp only [Bool.and_comm] at hlen hcount
  rw [List.take_append_of_le_length (by omega), List.filter_append, List.filter_cons, if_pos hplan, List.length_append,
    List.length_cons]
  have hle := ((List.take_sublist SUMMARY_LIMIT newer).filter fun r => r.status = .planned && r.direction = p.direction).length_le
  omega

theorem not_summaryRight {p : MoneyRow} {rest : List MoneyRow} (horg : p.orgId = some org) (hplanned : p.status = .planned)
    (hcount : SUMMARY_LIMIT ≤ rest.countP fun r => inSummary org now r && p.date ≤ r.date)
    (hperm : (p :: rest).Perm table) : ¬SummaryRight env org now table (p :: rest) := by
  intro hright
  have hlt := not_counted env p rest horg hplanned hcount
  have hplans := (plans_of_perm env org hperm p.direction).length_eq
  have hown := fun direction => (@aging_countsOnce env.host _ (Clock.tashkentDay now) direction
    (readable_forMath env (summaryRows org now (p :: rest)))).total.count
  rcases hdir : p.direction with _ | _
  · rw [hdir] at hlt hplans
    exact absurd ((hown .incoming).symm.trans hright.receivables.total.count) (by omega)
  · rw [hdir] at hlt hplans
    exact absurd ((hown .outgoing).symm.trans hright.payables.total.count) (by omega)

/-- The summary counts every planned flow once, whatever the order of the rows, exactly when the plans fit under the cap
of the query. -/
theorem summaryRight_iff :
    (∀ table', table'.Perm table → SummaryRight env org now table table') ↔ PlansFit org now table := by
  refine ⟨fun hright p hp horg hplanned => ?_, fun hfit table' hperm => summaryRight_of_fit hfit hperm⟩
  by_contra hcount
  obtain ⟨front, back, rfl⟩ := List.append_of_mem hp
  have hperm : (p :: (front ++ back)).Perm (front ++ p :: back) := List.perm_middle.symm
  have hin : inSummary org now p = true := by simp [inSummary, horg, hplanned]
  rw [← hperm.countP_eq, List.countP_cons_of_pos (by simp [hin])] at hcount
  exact not_summaryRight horg hplanned (by omega) hperm (hright _ hperm)

def summaryEnv : SummaryEnv := ⟨ratesHost, fun _ => none, []⟩

def oldPlan : MoneyRow := ⟨some 1, 1, .incoming, .planned, 700, "UZS", none, none, some 19000, 0, none, none⟩

def recentFact : MoneyRow := ⟨some 1, 2, .incoming, .actual, 1, "UZS", none, none, none, 1000, none, none⟩

/-- A debt that is older than five thousand payments of the year is in no bucket and not in the total. -/
theorem oldPlan_missed : ¬SummaryRight summaryEnv 1 1000 (oldPlan :: List.replicate SUMMARY_LIMIT recentFact)
    (oldPlan :: List.replicate SUMMARY_LIMIT recentFact) := by
  apply not_summaryRight rfl rfl _ (List.Perm.refl _)
  rw [List.countP_replicate, if_pos (by decide)]

end Mydon.Finance
