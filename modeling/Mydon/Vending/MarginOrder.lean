import Mydon.Js.Order
import Mydon.Js.Parse
import Mydon.Vending.MarginCounts

/-! The order of the sales changes the margin report in nothing but the spelling of the products, and so in the
order of the product rows that the spelling puts after one another. -/

namespace Mydon.Vending

open Mydon.Lib Mydon.Cash

variable {env : MarginEnv} {rows rows' : List SaleRow} {s k : String}

/-! The order of the rows of a report: by a number, the greatest first, and then by a text. -/

section ranked

variable {α ω : Type} [LinearOrder ω] {value : α → ω} {text : α → String}

theorem before_false_iff {a b : String} : Js.before b a = false ↔ Js.codeUnits a ≤ Js.codeUnits b := by
  rw [← Bool.not_eq_true, Js.before_iff, not_lt]

def Ranked (value : α → ω) (text : α → String) (a b : α) : Prop :=
  value b < value a ∨ value a = value b ∧ Js.before (text b) (text a) = false

theorem ranked_total (a b : α) : Ranked value text a b ∨ Ranked value text b a := by
  unfold Ranked
  rw [before_false_iff, before_false_iff]
  rcases lt_trichotomy (value a) (value b) with hlt | heq | hlt
  · exact .inr (.inl hlt)
  · rcases le_total (Js.codeUnits (text a)) (Js.codeUnits (text b)) with hle | hle
    · exact .inl (.inr ⟨heq, hle⟩)
    · exact .inr (.inr ⟨heq.symm, hle⟩)
  · exact .inl (.inl hlt)

theorem ranked_trans {a b c : α} (h : Ranked value text a b) (h' : Ranked value text b c) : Ranked value text a c := by
  unfold Ranked at h h' ⊢
  rw [before_false_iff] at h h' ⊢
  rcases h with hlt | ⟨heq, hle⟩
  · rcases h' with hlt' | ⟨heq', -⟩
    · exact .inl (hlt'.trans hlt)
    · exact .inl (heq' ▸ hlt)
  · rcases h' with hlt' | ⟨heq', hle'⟩
    · exact .inl (heq ▸ hlt')
    · exact .inr ⟨heq.trans heq', hle.trans hle'⟩

theorem ranked_antisymm {a b : α} (h : Ranked value text a b) (h' : Ranked value text b a) :
    value a = value b ∧ text a = text b := by
  unfold Ranked at h h'
  rw [before_false_iff] at h h'
  rcases h with hlt | ⟨heq, hle⟩
  · rcases h' with hlt' | ⟨heq', -⟩
    · exact absurd hlt' (lt_asymm hlt)
    · exact absurd heq' hlt.ne'.symm
  · rcases h' with hlt' | ⟨-, hle'⟩
    · exact absurd heq hlt'.ne
    · exact ⟨heq, Js.codeUnits_inj (le_antisymm hle hle')⟩

theorem le_of_ranked {a b : α} (h : Ranked value text a b) : value b ≤ value a := by
  rcases h with hlt | ⟨heq, -⟩
  · exact hlt.le
  · exact heq.ge

variable {le le' : α → α → Prop} [DecidableRel le] [DecidableRel le']

theorem pairwise_ranked (hle : ∀ a b, le a b ↔ Ranked value text a b) (l : List α) : (l.insertionSort le).Pairwise le := by
  have htotal : Std.Total le := ⟨fun a b => by rw [hle, hle]; exact ranked_total a b⟩
  have htrans : IsTrans α le := ⟨fun a b c h h' => by rw [hle] at h h' ⊢; exact ranked_trans h h'⟩
  exact List.pairwise_insertionSort le l

/-- Elements that the text tells apart have one order, wherever they came from. -/
theorem insertionSort_of_perm {l l' : List α} (hle : ∀ a b, le a b ↔ Ranked value text a b)
    (hle' : ∀ a b, le' a b ↔ Ranked value text a b) (h : l.Perm l') (hinj : ∀ a ∈ l, ∀ b ∈ l, text a = text b → a = b) :
    l.insertionSort le = l'.insertionSort le' := by
  apply List.Perm.eq_of_pairwise _ ((pairwise_ranked hle l).imp (hle _ _).mp) ((pairwise_ranked hle' l').imp (hle' _ _).mp)
    ((List.perm_insertionSort le l).trans (h.trans (List.perm_insertionSort le' l').symm))
  intro a b ha hb hab hba
  rw [List.mem_insertionSort] at ha hb
  exact hinj a ha b (h.symm.subset hb) (ranked_antisymm hab hba).2

end ranked

theorem productLe_iff (a b : MarginProduct) : productLe a b ↔ Ranked (fun p => p.margin) (fun p => p.product) a b := Iff.rfl

theorem machineLe_iff (a b : MarginMachine) : machineLe a b ↔ Ranked (fun m => m.margin) (fun m => m.serial) a b := Iff.rfl

theorem excludedLe_iff (a b : MarginExcluded) : excludedLe a b ↔ Ranked (fun e => e.amount) (fun e => e.serial) a b := Iff.rfl

/-! What two reports share. -/

/-- A product row under the key of its product. -/
def MarginEnv.canonical (env : MarginEnv) (p : MarginProduct) : MarginProduct :=
  { p with product := normalizeProductName env.host p.product }

/-- The same rows but for the spelling, and in an order that differs only among rows of equal margin. -/
structure SameProducts (env : MarginEnv) (ps ps' : List MarginProduct) : Prop where
  rows : (ps.map env.canonical).Perm (ps'.map env.canonical)
  margins : ps.map (fun p => p.margin) = ps'.map fun p => p.margin

structure SameMachine (env : MarginEnv) (m m' : MarginMachine) : Prop where
  serial : m.serial = m'.serial
  name : m.name = m'.name
  figures : m.toMarginFigures = m'.toMarginFigures
  products : SameProducts env m.products m'.products

structure SameUpToSpelling (env : MarginEnv) (rep rep' : MarginReport) : Prop where
  header : (rep.days, rep.from_, rep.to_, rep.lowPct) = (rep'.days, rep'.from_, rep'.to_, rep'.lowPct)
  machines : List.Forall₂ (SameMachine env) rep.machines rep'.machines
  products : SameProducts env rep.products rep'.products
  totals : rep.totals = rep'.totals
  unknownUnits : rep.unknownUnits = rep'.unknownUnits
  unknownProducts : (rep.unknownProducts.map (normalizeProductName env.host)).Perm
    (rep'.unknownProducts.map (normalizeProductName env.host))
  excluded : rep.excluded = rep'.excluded

/-- The price depends on nothing but the key of the product. -/
def MarginEnv.CostByKey (env : MarginEnv) : Prop :=
  ∀ p q, normalizeProductName env.host p = normalizeProductName env.host q → env.cost p = env.cost q

theorem sameProducts {l l' : List MarginProduct} (h : (l.map env.canonical).Perm (l'.map env.canonical)) :
    SameProducts env (l.insertionSort productLe) (l'.insertionSort productLe) := by
  have hrows : ((l.insertionSort productLe).map env.canonical).Perm ((l'.insertionSort productLe).map env.canonical) :=
    ((List.perm_insertionSort _ l).map _).trans (h.trans ((List.perm_insertionSort _ l').symm.map _))
  refine ⟨hrows, ?_⟩
  have hmargins := hrows.map fun p => p.margin
  rw [List.map_map, List.map_map] at hmargins
  have hsorted : ∀ l : List MarginProduct,
      ((l.insertionSort productLe).map fun p => p.margin).Pairwise fun x y => y ≤ x := by
    intro l
    rw [List.pairwise_map]
    exact (pairwise_ranked productLe_iff l).imp fun hab => le_of_ranked ((productLe_iff _ _).mp hab)
  exact List.Perm.eq_of_pairwise (fun _ _ _ _ hab hba => le_antisymm hba hab) (hsorted l) (hsorted l') hmargins

/-! The parts of the report. -/

theorem keySet_perm {α : Type} [DecidableEq α] {ks ks' : List α} (h : ks.Perm ks') :
    (OrderedMap.keySet ks).Perm (OrderedMap.keySet ks') := by
  rw [List.perm_ext_iff_of_nodup (nodup_keySet ks) (nodup_keySet ks')]
  intro k
  rw [mem_keySet, mem_keySet]
  exact h.mem_iff

section permuted

variable (hcost : env.CostByKey) (h : rows.Perm rows')

include h

theorem counted_perm : (counted env rows).Perm (counted env rows') := h.filter _

theorem qtySum_perm : qtySum rows = qtySum rows' := (h.map _).sum_eq

theorem amountSum_perm : amountSum rows = amountSum rows' := (h.map _).sum_eq

theorem machineKeys_perm : (machineKeys env rows).Perm (machineKeys env rows') := keySet_perm ((counted_perm h).map _)

theorem soldBy_perm (s : String) : (soldBy env rows s).Perm (soldBy env rows' s) := (counted_perm h).filter _

theorem soldIn_perm (s k : String) : (soldIn env rows s k).Perm (soldIn env rows' s k) := (soldBy_perm h s).filter _

theorem productKeys_perm (s : String) : (productKeys env rows s).Perm (productKeys env rows' s) :=
  keySet_perm ((soldBy_perm h s).map _)

include hcost

theorem unitOf_perm (hk : k ∈ (counted env rows).map env.productKey) : unitOf env rows k = unitOf env rows' k := by
  have hk' : k ∈ (counted env rows').map env.productKey := ((counted_perm h).map _).subset hk
  unfold unitOf MarginEnv.price
  rw [hcost (spelling env rows k) (spelling env rows' k)]
  rw [productKey_spelling hk, productKey_spelling hk']

theorem figures_productAt (hk : k ∈ productKeys env rows s) :
    (productAt env rows s k).toMarginFigures = (productAt env rows' s k).toMarginFigures := by
  obtain ⟨r, hr, hkey⟩ := mem_productKeys.mp hk
  have hunit := unitOf_perm hcost h (List.mem_map.mpr ⟨r, hr, (Prod.mk.inj hkey).2⟩)
  unfold productAt finishProduct cellAt
  rw [hunit, qtySum_perm (soldIn_perm h s k), amountSum_perm (soldIn_perm h s k)]

theorem canonical_productAt (hk : k ∈ productKeys env rows s) :
    env.canonical (productAt env rows s k) = env.canonical (productAt env rows' s k) := by
  have hk' := (productKeys_perm h s).subset hk
  unfold MarginEnv.canonical
  rw [product_productAt hk, product_productAt hk', figures_productAt hcost h hk]

theorem canonical_products (s : String) :
    (((productKeys env rows s).map (productAt env rows s)).map env.canonical).Perm
      (((productKeys env rows' s).map (productAt env rows' s)).map env.canonical) := by
  rw [List.map_map, List.map_map]
  apply (List.Perm.of_eq _).trans ((productKeys_perm h s).map _)
  apply List.map_congr_left
  intro k hk
  exact canonical_productAt hcost h hk

end permuted

theorem rollUp_perm {fs fs' : List MarginFigures} (h : fs.Perm fs') : rollUp env fs = rollUp env fs' := by
  unfold rollUp
  rw [(h.map fun r : MarginFigures => r.qty).sum_eq, (h.map fun r : MarginFigures => r.revenue).sum_eq, (h.map fun r : MarginFigures => r.cogs).sum_eq,
    (h.map fun r : MarginFigures => r.unknownUnits).sum_eq]

theorem figures_of_canonical {ps ps' : List MarginProduct} (h : (ps.map env.canonical).Perm (ps'.map env.canonical)) :
    (ps.map MarginProduct.toMarginFigures).Perm (ps'.map MarginProduct.toMarginFigures) := by
  have hmap := h.map MarginProduct.toMarginFigures
  rw [List.map_map, List.map_map] at hmap
  exact hmap

theorem products_machineAt (s : String) : (finishMachine env (machineAt env rows s)).products =
    ((productKeys env rows s).map (productAt env rows s)).insertionSort productLe := by
  change ((finishCells env (machineAt env rows s)).map Prod.snd).insertionSort productLe = _
  rw [finishCells_machineAt, List.map_map]
  rfl

theorem sameMachine (hcost : env.CostByKey) (h : rows.Perm rows') (s : String) :
    SameMachine env (finishMachine env (machineAt env rows s)) (finishMachine env (machineAt env rows' s)) := by
  have hproducts : SameProducts env (finishMachine env (machineAt env rows s)).products
      (finishMachine env (machineAt env rows' s)).products := by
    rw [products_machineAt, products_machineAt]
    exact sameProducts (canonical_products hcost h s)
  exact ⟨rfl, rfl, rollUp_perm (figures_of_canonical hproducts.rows), hproducts⟩

def machineOf (env : MarginEnv) (rows : List SaleRow) (s : String) : MarginMachine := finishMachine env (machineAt env rows s)

/-- The order of the machines, as one of their keys. -/
def machineKeyLe (env : MarginEnv) (rows : List SaleRow) (s t : String) : Prop :=
  machineLe (machineOf env rows s) (machineOf env rows t)

instance : DecidableRel (machineKeyLe env rows) := fun _ _ => inferInstanceAs (Decidable (machineLe _ _))

theorem machines_sorted (env : MarginEnv) (rows : List SaleRow) : (marginByMachine env rows).machines =
    ((machineKeys env rows).insertionSort (machineKeyLe env rows)).map (machineOf env rows) := by
  rw [machines_report]
  exact (List.map_insertionSort (machineKeyLe env rows) machineLe (machineOf env rows) (machineKeys env rows)
    fun _ _ _ _ => Iff.rfl).symm

theorem machines_perm (hcost : env.CostByKey) (h : rows.Perm rows') :
    List.Forall₂ (SameMachine env) (marginByMachine env rows).machines (marginByMachine env rows').machines := by
  have hle : ∀ s t, machineKeyLe env rows' s t ↔
      Ranked (fun s => (machineOf env rows s).margin) (fun s => (machineOf env rows s).serial) s t := by
    intro s t
    have hs := sameMachine hcost h s
    have ht := sameMachine hcost h t
    unfold machineKeyLe machineLe Ranked machineOf
    dsimp only
    rw [hs.serial, ht.serial, hs.figures, ht.figures]
  have hkeys : (machineKeys env rows').insertionSort (machineKeyLe env rows') =
      (machineKeys env rows).insertionSort (machineKeyLe env rows) := by
    apply insertionSort_of_perm hle (fun s t => machineLe_iff _ _) (machineKeys_perm h).symm
    intro s hs t ht heq
    have hs' := serial_startMachine ((machineKeys_perm h).symm.subset hs)
    have ht' := serial_startMachine ((machineKeys_perm h).symm.subset ht)
    exact hs'.symm.trans ((congrArg (normalizeMachineSerial env.host) heq).trans ht')
  rw [machines_sorted, machines_sorted, hkeys, List.forall₂_map_left_iff, List.forall₂_map_right_iff, List.forall₂_same]
  exact fun s _ => sameMachine hcost h s

/-! The rows of the products. -/

/-- The figures of all cells, under the keys of their products. -/
def allFigures (env : MarginEnv) (rows : List SaleRow) : List (String × MarginFigures) :=
  (allCells env rows).map fun e => (e.1, e.2.toMarginFigures)

theorem keys_allFigures (env : MarginEnv) (rows : List SaleRow) :
    (allFigures env rows).map Prod.fst = (allCells env rows).map Prod.fst := by
  rw [allFigures, List.map_map]
  rfl

theorem allFigures_perm (hcost : env.CostByKey) (h : rows.Perm rows') : (allFigures env rows).Perm (allFigures env rows') := by
  unfold allFigures allCells
  rw [List.map_flatMap, List.map_flatMap]
  apply (machineKeys_perm h).flatMap
  intro s _
  rw [List.map_map, List.map_map]
  apply (List.Perm.of_eq _).trans ((productKeys_perm h s).map _)
  apply List.map_congr_left
  intro k hk
  rw [Function.comp_apply, Function.comp_apply, figures_productAt hcost h hk]

def bucketAt (env : MarginEnv) (rows : List SaleRow) (k : String) : MarginProduct :=
  ⟨rollUp env (((allFigures env rows).filter fun e => e.1 = k).map Prod.snd), k⟩

theorem figures_bucket (k : String) :
    (((allCells env rows).filter fun e => e.1 = k).map Prod.snd).map MarginProduct.toMarginFigures =
      ((allFigures env rows).filter fun e => e.1 = k).map Prod.snd := by
  rw [allFigures, List.filter_map, List.map_map, List.map_map]
  rfl

theorem canonical_bucket (hk : k ∈ (allCells env rows).map Prod.fst) :
    env.canonical (finishBucket env (((allCells env rows).filter fun e => e.1 = k).map Prod.snd)) = bucketAt env rows k := by
  unfold MarginEnv.canonical bucketAt
  rw [product_bucket hk, ← figures_bucket]
  rfl

theorem products_perm (hcost : env.CostByKey) (h : rows.Perm rows') :
    SameProducts env (marginByMachine env rows).products (marginByMachine env rows').products := by
  have hcanonical : ∀ rows, ((group Prod.fst (allCells env rows)).map fun e => finishBucket env (e.2.map Prod.snd)).map
      env.canonical = (OrderedMap.keySet ((allFigures env rows).map Prod.fst)).map (bucketAt env rows) := by
    intro rows
    rw [keys_allFigures, group_eq, List.map_map, List.map_map]
    apply List.map_congr_left
    intro k hk
    exact canonical_bucket (mem_keySet.mp hk)
  have hperm := allFigures_perm hcost h
  have hbucket : bucketAt env rows = bucketAt env rows' := by
    funext k
    unfold bucketAt
    rw [rollUp_perm ((hperm.filter _).map _)]
  rw [products_report, products_report]
  apply sameProducts
  rw [hcanonical, hcanonical, hbucket]
  exact (keySet_perm (hperm.map _)).map _

/-! The names of the products without a price. -/

theorem unknownNames_eq (env : MarginEnv) (rows l : List SaleRow) : l.foldl (noteUnknown env rows) [] =
    tally env.productKey (fun _ => "") (fun _ r => spelling env rows (env.productKey r))
      (l.filter fun r => unitOf env rows (env.productKey r) = none) := by
  induction l using List.reverseRecOn with
  | nil => rfl
  | append_singleton l r ih =>
    rw [List.foldl_append, List.foldl_cons, List.foldl_nil, ih, List.filter_append]
    unfold noteUnknown
    split_ifs with hunit
    · rw [List.filter_cons, if_pos (decide_eq_true hunit), List.filter_nil, tally_concat]
      rfl
    · rw [List.filter_cons, if_neg (by rw [decide_eq_true_iff]; exact hunit), List.filter_nil, List.append_nil]

theorem foldl_last {α β : Type} {f : α → β} {l : List α} {b : β} (h : ∀ a ∈ l, f a = b) (hne : l ≠ []) (start : β) :
    l.foldl (fun _ a => f a) start = b := by
  obtain ⟨front, last, rfl⟩ := (List.eq_nil_or_concat l).resolve_left hne
  rw [List.concat_eq_append, List.foldl_append]
  exact h last (by simp)

/-- The keys of the counted products without a price. -/
def unknownKeys (env : MarginEnv) (rows : List SaleRow) : List String :=
  OrderedMap.keySet (((counted env rows).filter fun r => unitOf env rows (env.productKey r) = none).map env.productKey)

theorem unknownProducts_perm_spelling (env : MarginEnv) (rows : List SaleRow) :
    (marginByMachine env rows).unknownProducts.Perm ((unknownKeys env rows).map (spelling env rows)) := by
  have hstate : (marginByMachine env rows).unknownProducts =
      ((gatheredState env rows).unknownNames.map Prod.snd).insertionSort fun a b => Js.before b a = false := rfl
  rw [hstate, gatheredState, (gathered env rows).unknownNames, unknownNames_eq, tally_eq, List.map_map]
  apply (List.perm_insertionSort _ _).trans
  apply List.Perm.of_eq
  apply List.map_congr_left
  intro k hk
  rw [Function.comp_apply]
  apply foldl_last
  · intro r hr
    rw [of_decide_eq_true (List.mem_filter.mp hr).2]
  · obtain ⟨r, hr, hkey⟩ := List.mem_map.mp (mem_keySet.mp hk)
    exact List.ne_nil_of_mem (List.mem_filter.mpr ⟨hr, decide_eq_true hkey⟩)

theorem unknownKeys_perm (hcost : env.CostByKey) (h : rows.Perm rows') :
    (unknownKeys env rows).Perm (unknownKeys env rows') := by
  apply keySet_perm
  apply List.Perm.map
  have hunit : (counted env rows).filter (fun r => unitOf env rows (env.productKey r) = none) =
      (counted env rows).filter fun r => unitOf env rows' (env.productKey r) = none := by
    apply List.filter_congr
    intro r hr
    rw [unitOf_perm hcost h (List.mem_map_of_mem hr)]
  rw [hunit]
  exact (counted_perm h).filter _

theorem unknownProducts_perm (hcost : env.CostByKey) (h : rows.Perm rows') :
    ((marginByMachine env rows).unknownProducts.map (normalizeProductName env.host)).Perm
      ((marginByMachine env rows').unknownProducts.map (normalizeProductName env.host)) := by
  have hkeys : ∀ rows, ((marginByMachine env rows).unknownProducts.map (normalizeProductName env.host)).Perm
      (unknownKeys env rows) := by
    intro rows
    apply ((unknownProducts_perm_spelling env rows).map _).trans
    rw [List.map_map]
    apply List.Perm.of_eq
    rw [List.map_congr_left (g := id), List.map_id]
    intro k hk
    obtain ⟨r, hr, hkey⟩ := List.mem_map.mp (mem_keySet.mp hk)
    exact productKey_spelling (List.mem_map.mpr ⟨r, List.mem_of_mem_filter hr, hkey⟩)
  exact (hkeys rows).trans ((unknownKeys_perm hcost h).trans (hkeys rows').symm)

/-! The lines of what is left out. -/

theorem excluded_perm (h : rows.Perm rows') : (marginByMachine env rows).excluded = (marginByMachine env rows').excluded := by
  have hstrangers : (strangers env rows).Perm (strangers env rows') := h.filter _
  have hline : excludedAt env rows = excludedAt env rows' := by
    funext s
    unfold excludedAt
    rw [qtySum_perm (hstrangers.filter _), amountSum_perm (hstrangers.filter _)]
  rw [excluded_report, excluded_report, hline]
  apply insertionSort_of_perm excludedLe_iff excludedLe_iff ((keySet_perm (hstrangers.map _)).map _)
  intro e he e' he' heq
  obtain ⟨s, -, rfl⟩ := List.mem_map.mp he
  obtain ⟨s', -, rfl⟩ := List.mem_map.mp he'
  obtain rfl : s = s' := heq
  rfl

theorem sameUpToSpelling (hcost : env.CostByKey) (h : rows.Perm rows') :
    SameUpToSpelling env (marginByMachine env rows) (marginByMachine env rows') := by
  have hmachines := machines_perm hcost h
  have htotals : (marginByMachine env rows).totals = (marginByMachine env rows').totals := by
    have hfigures : ∀ {ms ms' : List MarginMachine}, List.Forall₂ (SameMachine env) ms ms' →
        ms.map MarginMachine.toMarginFigures = ms'.map MarginMachine.toMarginFigures := by
      intro ms ms' hms
      induction hms with
      | nil => rfl
      | cons hm _ ih => rw [List.map_cons, List.map_cons, hm.figures, ih]
    exact congrArg (fun fs => (rollUp env fs).toMarginTotals) (hfigures hmachines)
  exact ⟨rfl, hmachines, products_perm hcost h, htotals, congrArg MarginTotals.unknownUnits htotals,
    unknownProducts_perm hcost h, excluded_perm h⟩

/-! The order of the sales matters through the spelling only. -/

section spelled

variable (hcost : env.CostByKey) (h : rows.Perm rows') (hspelling : spelling env rows = spelling env rows')

include hcost h hspelling

theorem productAt_spelled (hk : k ∈ productKeys env rows s) : productAt env rows s k = productAt env rows' s k := by
  have hfigures := figures_productAt hcost h hk
  have hproduct : (productAt env rows s k).product = (productAt env rows' s k).product := congrFun hspelling k
  exact congrArg₂ MarginProduct.mk hfigures hproduct

theorem machineOf_spelled (s : String) : machineOf env rows s = machineOf env rows' s := by
  have hproducts : (finishMachine env (machineAt env rows s)).products = (finishMachine env (machineAt env rows' s)).products := by
    rw [products_machineAt, products_machineAt]
    apply insertionSort_of_perm productLe_iff productLe_iff
    · apply (List.Perm.of_eq _).trans ((productKeys_perm h s).map _)
      exact List.map_congr_left fun k hk => productAt_spelled hcost h hspelling hk
    · intro p hp p' hp' heq
      obtain ⟨k, hk, rfl⟩ := List.mem_map.mp hp
      obtain ⟨k', hk', rfl⟩ := List.mem_map.mp hp'
      rw [← product_productAt hk, ← product_productAt hk', heq]
  have hsame := sameMachine hcost h s
  unfold machineOf
  rcases hm : finishMachine env (machineAt env rows s) with ⟨figures, serial, name, products⟩
  rcases hm' : finishMachine env (machineAt env rows' s) with ⟨figures', serial', name', products'⟩
  rw [hm, hm'] at hproducts hsame
  obtain rfl : products = products' := hproducts
  obtain rfl : figures = figures' := hsame.figures
  obtain rfl : serial = serial' := hsame.serial
  obtain rfl : name = name' := hsame.name
  rfl

theorem machines_spelled : (marginByMachine env rows).machines = (marginByMachine env rows').machines := by
  rw [machines_report, machines_report]
  apply insertionSort_of_perm machineLe_iff machineLe_iff
  · apply (List.Perm.of_eq _).trans ((machineKeys_perm h).map _)
    exact List.map_congr_left fun s _ => machineOf_spelled hcost h hspelling s
  · intro m hm m' hm' heq
    obtain ⟨s, hs, rfl⟩ := List.mem_map.mp hm
    obtain ⟨s', hs', rfl⟩ := List.mem_map.mp hm'
    have hkey : s = s' := (serial_startMachine hs).symm.trans
      ((congrArg (normalizeMachineSerial env.host) heq).trans (serial_startMachine hs'))
    rw [hkey]

theorem bucket_spelled (hk : k ∈ (allCells env rows).map Prod.fst) :
    finishBucket env (((allCells env rows).filter fun e => e.1 = k).map Prod.snd) =
      finishBucket env (((allCells env rows').filter fun e => e.1 = k).map Prod.snd) := by
  have hperm := allFigures_perm hcost h
  have hk' : k ∈ (allCells env rows').map Prod.fst := by
    rw [← keys_allFigures] at hk ⊢
    exact (hperm.map _).subset hk
  have hrollUp : rollUp env ((((allCells env rows).filter fun e => e.1 = k).map Prod.snd).map MarginProduct.toMarginFigures) =
      rollUp env ((((allCells env rows').filter fun e => e.1 = k).map Prod.snd).map MarginProduct.toMarginFigures) := by
    rw [figures_bucket, figures_bucket, rollUp_perm ((hperm.filter _).map _)]
  exact congrArg₂ MarginProduct.mk hrollUp
    ((product_bucket_spelling hk).trans ((congrFun hspelling k).trans (product_bucket_spelling hk').symm))

theorem products_spelled : (marginByMachine env rows).products = (marginByMachine env rows').products := by
  have hkeys : (OrderedMap.keySet ((allCells env rows).map Prod.fst)).Perm
      (OrderedMap.keySet ((allCells env rows').map Prod.fst)) := by
    rw [← keys_allFigures, ← keys_allFigures]
    exact keySet_perm ((allFigures_perm hcost h).map _)
  rw [products_report, products_report, group_eq, group_eq, List.map_map, List.map_map]
  apply insertionSort_of_perm productLe_iff productLe_iff
  · apply (List.Perm.of_eq _).trans (hkeys.map _)
    exact List.map_congr_left fun k hk => bucket_spelled hcost h hspelling (mem_keySet.mp hk)
  · intro p hp p' hp' heq
    obtain ⟨k, hk, rfl⟩ := List.mem_map.mp hp
    obtain ⟨k', hk', rfl⟩ := List.mem_map.mp hp'
    have hkey : k = k' := (product_bucket (mem_keySet.mp hk)).symm.trans
      ((congrArg (normalizeProductName env.host) heq).trans (product_bucket (mem_keySet.mp hk')))
    rw [hkey]

theorem unknownProducts_spelled : (marginByMachine env rows).unknownProducts = (marginByMachine env rows').unknownProducts := by
  have hperm : (marginByMachine env rows).unknownProducts.Perm (marginByMachine env rows').unknownProducts := by
    apply (unknownProducts_perm_spelling env rows).trans
    apply List.Perm.trans _ (unknownProducts_perm_spelling env rows').symm
    rw [hspelling]
    exact (unknownKeys_perm hcost h).map _
  have hsorted : ∀ rows, (marginByMachine env rows).unknownProducts.Pairwise fun a b => Js.codeUnits a ≤ Js.codeUnits b := by
    intro rows
    have hle : ∀ a b : String, Js.before b a = false ↔ Ranked (fun _ => (0 : ℕ)) id a b := by
      intro a b
      unfold Ranked
      rw [eq_self_iff_true, true_and, or_iff_right (lt_irrefl _)]
      rfl
    exact (pairwise_ranked hle _).imp fun hab => before_false_iff.mp hab
  exact List.Perm.eq_of_pairwise (fun _ _ _ _ hab hba => Js.codeUnits_inj (le_antisymm hab hba)) (hsorted rows)
    (hsorted rows') hperm

/-- Sales in another order, of products spelled as before, give the same report. -/
theorem report_spelled : marginByMachine env rows = marginByMachine env rows' := by
  have hmachines := machines_spelled hcost h hspelling
  have hproducts := products_spelled hcost h hspelling
  have hunknown := unknownProducts_spelled hcost h hspelling
  have hexcluded := @excluded_perm env _ _ h
  have htotals := (sameUpToSpelling hcost h).totals
  unfold marginByMachine reportOfState at hmachines hproducts hunknown hexcluded htotals ⊢
  dsimp only at hmachines hproducts hunknown hexcluded htotals ⊢
  rw [hproducts, hunknown, hexcluded, htotals, hmachines]

end spelled

/-- Each sale is counted once, the figures add up, and the order of the sales is seen in the spelling of the
products alone, and in the order of the rows that have equal margins and are put after one another by it. -/
structure MarginRolls (env : MarginEnv) (rows : List SaleRow) : Prop where
  once : CountsOnce env rows (marginByMachine env rows)
  sums : RollsUp env rows (marginByMachine env rows)
  order : ∀ rows', rows.Perm rows' → SameUpToSpelling env (marginByMachine env rows) (marginByMachine env rows')
  spelled : ∀ rows', rows.Perm rows' → spelling env rows = spelling env rows' →
    marginByMachine env rows = marginByMachine env rows'

theorem marginByMachine_rolls (env : MarginEnv) (hcost : env.CostByKey) (rows : List SaleRow) : MarginRolls env rows :=
  ⟨countsOnce env rows, rollsUp env rows, fun _ h => sameUpToSpelling hcost h, fun _ h => report_spelled hcost h⟩

def bazaarHost : Js.Host :=
  ⟨fun s => if s = "Apple" then "apple" else if s = "Banana" then "banana" else s, fun _ => none, fun _ => "",
    fun _ => "", fun _ _ => 0, fun _ => ""⟩

/-- Every good costs three. -/
def bazaarEnv : MarginEnv := ⟨bazaarHost, fun _ => some 3, [("7", "Hall")], 30, "2026-01-01", "2026-01-30", 15⟩

def soldAs (product : String) : SaleRow := ⟨"7", product, some 1, some 10⟩

theorem marginByMachine_rolls_bazaar : MarginRolls bazaarEnv [soldAs "apple", soldAs "Banana", soldAs "Banana", soldAs "Apple"] :=
  marginByMachine_rolls bazaarEnv (fun _ _ _ => rfl) _

/-- The first spelling of a product decides which of two rows of equal margin comes first. -/
theorem bananas_first : bazaarEnv.CostByKey ∧
    [soldAs "apple", soldAs "Banana", soldAs "Banana", soldAs "Apple"].Perm
      [soldAs "Apple", soldAs "Banana", soldAs "Banana", soldAs "apple"] ∧
    (marginByMachine bazaarEnv [soldAs "apple", soldAs "Banana", soldAs "Banana", soldAs "Apple"]).products.map
      (fun p => (normalizeProductName bazaarHost p.product, p.margin)) = [("banana", 14), ("apple", 14)] ∧
    (marginByMachine bazaarEnv [soldAs "Apple", soldAs "Banana", soldAs "Banana", soldAs "apple"]).products.map
      (fun p => (normalizeProductName bazaarHost p.product, p.margin)) = [("apple", 14), ("banana", 14)] :=
  ⟨fun _ _ _ => rfl, by decide +kernel, by decide +kernel, by decide +kernel⟩

end Mydon.Vending
