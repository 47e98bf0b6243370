import Mathlib.Algebra.BigOperators.Group.Finset.Basic
import Mathlib.Algebra.Order.BigOperators.Group.List
import Mydon.Stock.PlaceMerge

/-! What a merge does to the balances. Every row keeps its effect but those
recorded between the two places: a transfer from one to the other becomes a
transfer of the target to itself, which the balance counts as an issue. -/

namespace Mydon.Stock.PlaceMerge

/-! The journal after the merge. -/

def rename (s t place : String) : String := if place = s then t else place

/-- A row with both places renamed. -/
def mergeRow (s t : String) (r : StockMovementRow) : StockMovementRow :=
  { r with warehouseId := rename s t r.warehouseId, counterpartyId := r.counterpartyId.map (rename s t) }

theorem updateMovement_warehouse (s t : String) (r : StockMovementRow) :
    updateMovement "warehouse_id" s t r = { r with warehouseId := rename s t r.warehouseId } := by
  unfold updateMovement rename
  rw [if_pos rfl]
  split_ifs <;> rfl

theorem updateMovement_counterparty (s t : String) (r : StockMovementRow) :
    updateMovement "counterparty_id" s t r = { r with counterpartyId := r.counterpartyId.map (rename s t) } := by
  unfold updateMovement rename
  rw [if_neg (by decide), if_pos rfl]
  have hc : r.counterpartyId.map (fun place => if place = s then t else place) =
      if r.counterpartyId = some s then some t else r.counterpartyId := by
    cases r.counterpartyId with
    | none => rfl
    | some c => by_cases h : c = s <;> simp [h]
  rw [hc]
  split_ifs <;> rfl

theorem updateReference_other {s t : String} {ref : Reference} (h : ref.table ≠ "stock_movement")
    (db : Database) : (updateReference s t db ref).stockMovement = db.stockMovement := by
  rw [updateReference, if_neg h]

theorem updateReference_movement {s t : String} {ref : Reference} (h : ref.table = "stock_movement")
    (db : Database) :
    (updateReference s t db ref).stockMovement = db.stockMovement.map (updateMovement ref.column s t) := by
  rw [updateReference, if_pos h]

theorem foldl_updateReference_other {s t : String} {refs : List Reference}
    (h : ∀ ref ∈ refs, ref.table ≠ "stock_movement") (db : Database) :
    (refs.foldl (updateReference s t) db).stockMovement = db.stockMovement := by
  induction refs generalizing db with
  | nil => rfl
  | cons ref refs ih =>
    rw [List.foldl_cons, ih (fun r hr => h r (List.mem_cons_of_mem _ hr)),
      updateReference_other (h ref List.mem_cons_self)]

/-- The loop over the references rewrites both columns of every row. -/
theorem references_stockMovement (s t : String) (db : Database) :
    (REFERENCES.foldl (updateReference s t) db).stockMovement = db.stockMovement.map (mergeRow s t) := by
  have hsplit : REFERENCES = REFERENCES.take 7 ++
      [⟨"stock_movement", "warehouse_id", none⟩, ⟨"stock_movement", "counterparty_id", none⟩] ++
      REFERENCES.drop 9 := by decide
  rw [hsplit, List.foldl_append, List.foldl_append, foldl_updateReference_other (by decide)]
  simp only [List.foldl_cons, List.foldl_nil]
  rw [updateReference_movement rfl, updateReference_movement rfl,
    foldl_updateReference_other (by decide), List.map_map]
  apply List.map_congr_left
  intro r _
  rw [Function.comp_apply, updateMovement_warehouse, updateMovement_counterparty]
  rfl

theorem merge_stockMovement {db db' : Database} {s t actorRef : String} {input : MergeInput} {now : ℤ}
    {preview : MergePreview} (h : merge db s t input actorRef now = .ok (db', preview)) :
    s ≠ t ∧ db'.stockMovement = db.stockMovement.map (mergeRow s t) := by
  unfold merge at h
  split at h
  · cases h
  · rename_i hproblem
    have hne : s ≠ t := by
      rintro rfl
      simp [mergeRequestProblem] at hproblem
    split at h
    · cases h
    · split_ifs at h
      cases h
      exact ⟨hne, references_stockMovement s t db⟩

/-! What one row contributes, as a function of its places. -/

section Effects

variable (kind : StockMovementKind) (w : String) (c : Option String) (q : ℚ)

def ledgerEffect (p : String) : ℚ :=
  if w = p ∨ c = some p then
    match kind with
    | .intake | .return | .adjustment => q
    | .consumption => -q
    | .transfer => if w = p then -q else if c = some p then q else 0
  else 0

def balanceEffect (p : String) : ℚ :=
  match kind with
  | .intake | .return | .adjustment => if w = p then q else 0
  | .consumption => if w = p then -q else 0
  | .transfer => if w = p then -q else if c = some p then q else 0

/-- The row was recorded between the two places. -/
def between (s t : String) : Prop := (w = s ∧ c = some t) ∨ (w = t ∧ c = some s)

instance (s t : String) : Decidable (between w c s t) :=
  inferInstanceAs (Decidable ((w = s ∧ c = some t) ∨ (w = t ∧ c = some s)))

def ledgerLoss (s t : String) : ℚ :=
  if between w c s t then
    match kind with
    | .consumption => -q
    | _ => q
  else 0

def balanceLoss (s t : String) : ℚ := if between w c s t ∧ kind = .transfer then q else 0

variable {s t : String}

theorem rename_eq_iff {p : String} (hs : p ≠ s) (ht : p ≠ t) (place : String) :
    rename s t place = p ↔ place = p := by
  unfold rename
  split_ifs with h
  · exact ⟨fun h' => absurd h'.symm ht, fun h' => absurd (h'.symm.trans h) hs⟩
  · rfl

theorem map_rename_eq_iff {p : String} (hs : p ≠ s) (ht : p ≠ t) :
    c.map (rename s t) = some p ↔ c = some p := by
  cases c with
  | none => simp
  | some c => simp [rename_eq_iff hs ht]

theorem ledgerEffect_other {p : String} (hs : p ≠ s) (ht : p ≠ t) :
    ledgerEffect kind (rename s t w) (c.map (rename s t)) q p = ledgerEffect kind w c q p := by
  simp only [ledgerEffect, rename_eq_iff hs ht, map_rename_eq_iff c hs ht]

theorem balanceEffect_other {p : String} (hs : p ≠ s) (ht : p ≠ t) :
    balanceEffect kind (rename s t w) (c.map (rename s t)) q p = balanceEffect kind w c q p := by
  simp only [balanceEffect, rename_eq_iff hs ht, map_rename_eq_iff c hs ht]

variable (hne : s ≠ t)
include hne

theorem rename_ne_source (place : String) : rename s t place ≠ s := by
  unfold rename
  split_ifs with h
  · exact hne.symm
  · exact h

theorem map_rename_ne_source : c.map (rename s t) ≠ some s := by
  cases c with
  | none => simp
  | some c => simpa using rename_ne_source hne c

theorem ledgerEffect_source : ledgerEffect kind (rename s t w) (c.map (rename s t)) q s = 0 := by
  simp [ledgerEffect, rename_ne_source hne, map_rename_ne_source c hne]

theorem balanceEffect_source : balanceEffect kind (rename s t w) (c.map (rename s t)) q s = 0 := by
  cases kind <;> simp [balanceEffect, rename_ne_source hne, map_rename_ne_source c hne]

theorem ledgerEffect_target :
    ledgerEffect kind (rename s t w) (c.map (rename s t)) q t =
      ledgerEffect kind w c q s + ledgerEffect kind w c q t - ledgerLoss kind w c q s t := by
  unfold ledgerEffect ledgerLoss between rename
  cases c with
  | none => by_cases hs : w = s <;> by_cases ht : w = t <;> cases kind <;> simp_all
  | some c =>
    by_cases hs : w = s <;> by_cases ht : w = t <;> by_cases hcs : c = s <;> by_cases hct : c = t <;>
      cases kind <;> simp_all

theorem balanceEffect_target :
    balanceEffect kind (rename s t w) (c.map (rename s t)) q t =
      balanceEffect kind w c q s + balanceEffect kind w c q t - balanceLoss kind w c q s t := by
  unfold balanceEffect balanceLoss between rename
  cases c with
  | none => by_cases hs : w = s <;> by_cases ht : w = t <;> cases kind <;> simp_all
  | some c =>
    by_cases hs : w = s <;> by_cases ht : w = t <;> by_cases hcs : c = s <;> by_cases hct : c = t <;>
      cases kind <;> simp_all

end Effects

/-! The balances are sums of these effects. -/

/-- The quantity of a row in the base unit, where it converts. -/
def StockMovementRow.converted (base : QtyUnit) (r : StockMovementRow) : Option ℚ :=
  r.toMovement.bind fun m => convertQty m.qty m.unit base

theorem ledgerContribution_eq (p cardId : String) (r : StockMovementRow) :
    ledgerContribution p cardId r =
      if r.ingredientId = cardId then ledgerEffect r.kind r.warehouseId r.counterpartyId r.qty p else 0 := by
  unfold ledgerContribution ledgerWhere ledgerCase ledgerEffect
  by_cases hi : r.ingredientId = cardId
  · by_cases hp : r.warehouseId = p ∨ r.counterpartyId = some p
    · cases r.kind <;> simp [hi, hp]
    · simp [hi, hp]
  · simp [hi]

theorem rowContribution_eq (p cardId : String) (base : QtyUnit) (r : StockMovementRow) :
    rowContribution cardId base (some p) r =
      if r.ingredientId = cardId then
        balanceEffect r.kind r.warehouseId r.counterpartyId ((StockMovementRow.converted base r).getD 0) p
      else 0 := by
  unfold rowContribution StockMovementRow.converted StockMovementRow.toMovement
  by_cases hi : r.ingredientId = cardId
  · rw [if_pos hi, if_pos hi]
    cases QtyUnit.ofText r.unit with
    | none => cases hk : r.kind <;> simp [balanceEffect]
    | some unit =>
      simp only [Option.map_some, Option.getD_some, Option.bind_some, contribution]
      cases convertQty r.qty unit base with
      | none => cases hk : r.kind <;> simp [balanceEffect]
      | some converted => cases hk : r.kind <;> simp [balanceEffect, signedFor]
  · rw [if_neg hi, if_neg hi]

/-- What the rows of an item recorded between the two places add to the balance
of the query: it counts such a row once after the merge, twice before. -/
def ledgerBetween (s t cardId : String) (journal : List StockMovementRow) : ℚ :=
  (journal.map fun r =>
    if r.ingredientId = cardId then ledgerLoss r.kind r.warehouseId r.counterpartyId r.qty s t else 0).sum

/-- What was transferred of an item between the two places, either way. -/
def transferredBetween (s t cardId : String) (base : QtyUnit) (journal : List StockMovementRow) : ℚ :=
  (journal.map fun r =>
    if r.ingredientId = cardId then
      balanceLoss r.kind r.warehouseId r.counterpartyId ((StockMovementRow.converted base r).getD 0) s t
    else 0).sum

theorem sum_map_add_sub {α : Type} {f a b c : α → ℚ} (l : List α) (h : ∀ x ∈ l, f x = a x + b x - c x) :
    (l.map f).sum = (l.map a).sum + (l.map b).sum - (l.map c).sum := by
  induction l with
  | nil => simp
  | cons x l ih =>
    simp only [List.map_cons, List.sum_cons]
    rw [h x List.mem_cons_self, ih fun y hy => h y (List.mem_cons_of_mem _ hy)]
    ring

section Balances

variable {s t : String} (journal : List StockMovementRow) (cardId : String) (base : QtyUnit)

theorem converted_mergeRow (r : StockMovementRow) :
    StockMovementRow.converted base (mergeRow s t r) = StockMovementRow.converted base r := by
  unfold StockMovementRow.converted StockMovementRow.toMovement mergeRow
  cases QtyUnit.ofText r.unit <;> rfl

theorem ledgerQty_other {p : String} (hs : p ≠ s) (ht : p ≠ t) :
    ledgerQty (journal.map (mergeRow s t)) p cardId = ledgerQty journal p cardId := by
  rw [ledgerQty_eq, ledgerQty_eq, List.map_map]
  congr 1
  apply List.map_congr_left
  intro r _
  rw [Function.comp_apply, ledgerContribution_eq, ledgerContribution_eq]
  simp only [mergeRow, ledgerEffect_other _ _ _ _ hs ht]

theorem itemBalance_other {p : String} (hs : p ≠ s) (ht : p ≠ t) :
    (itemBalance (journal.map (mergeRow s t)) cardId base (some p)).qty =
      (itemBalance journal cardId base (some p)).qty := by
  rw [itemBalance_qty, itemBalance_qty, List.map_map]
  congr 1
  apply List.map_congr_left
  intro r _
  rw [Function.comp_apply, rowContribution_eq, rowContribution_eq, converted_mergeRow]
  simp only [mergeRow, balanceEffect_other _ _ _ _ hs ht]

/-- The balance over all warehouses looks at no warehouse. -/
theorem itemBalance_all :
    (itemBalance (journal.map (mergeRow s t)) cardId base none).qty =
      (itemBalance journal cardId base none).qty := by
  rw [itemBalance_qty, itemBalance_qty, List.map_map]
  congr 1
  apply List.map_congr_left
  intro r _
  unfold Function.comp rowContribution StockMovementRow.toMovement mergeRow contribution signedFor
  cases QtyUnit.ofText r.unit <;> simp

variable (hne : s ≠ t)
include hne

theorem ledgerQty_source : ledgerQty (journal.map (mergeRow s t)) s cardId = 0 := by
  rw [ledgerQty_eq, List.map_map]
  apply List.sum_eq_zero
  intro x hx
  obtain ⟨r, _, rfl⟩ := List.mem_map.mp hx
  rw [Function.comp_apply, ledgerContribution_eq]
  simp only [mergeRow, ledgerEffect_source _ _ _ _ hne, ite_self]

theorem itemBalance_source :
    (itemBalance (journal.map (mergeRow s t)) cardId base (some s)).qty = 0 := by
  rw [itemBalance_qty, List.map_map]
  apply List.sum_eq_zero
  intro x hx
  obtain ⟨r, _, rfl⟩ := List.mem_map.mp hx
  rw [Function.comp_apply, rowContribution_eq]
  simp only [mergeRow, balanceEffect_source _ _ _ _ hne, ite_self]

theorem ledgerQty_target :
    ledgerQty (journal.map (mergeRow s t)) t cardId =
      ledgerQty journal s cardId + ledgerQty journal t cardId - ledgerBetween s t cardId journal := by
  rw [ledgerQty_eq, ledgerQty_eq, ledgerQty_eq, List.map_map]
  apply sum_map_add_sub
  intro r _
  rw [Function.comp_apply, ledgerContribution_eq, ledgerContribution_eq, ledgerContribution_eq]
  simp only [mergeRow, ledgerEffect_target _ _ _ _ hne]
  split_ifs <;> simp

theorem itemBalance_target :
    (itemBalance (journal.map (mergeRow s t)) cardId base (some t)).qty =
      (itemBalance journal cardId base (some s)).qty + (itemBalance journal cardId base (some t)).qty -
        transferredBetween s t cardId base journal := by
  rw [itemBalance_qty, itemBalance_qty, itemBalance_qty, List.map_map]
  apply sum_map_add_sub
  intro r _
  rw [Function.comp_apply, rowContribution_eq, rowContribution_eq, rowContribution_eq, converted_mergeRow]
  simp only [mergeRow, balanceEffect_target _ _ _ _ hne]
  split_ifs <;> simp

/-- A sum over places keeps its value when the source's share moves to the target. -/
theorem sum_places {f g : String → ℚ} {places : Finset String} (hs : s ∈ places) (ht : t ∈ places)
    (hother : ∀ p, p ≠ s → p ≠ t → f p = g p) (hsource : f s = 0) :
    ∑ p ∈ places, f p = ∑ p ∈ places, g p ↔ f t = g s + g t := by
  have hdiff : ∑ p ∈ places, (f p - g p) = (f s - g s) + (f t - g t) :=
    Finset.sum_eq_add s t hne (fun p _ hp => sub_eq_zero.mpr (hother p hp.1 hp.2))
      (fun h => absurd hs h) (fun h => absurd ht h)
  rw [Finset.sum_sub_distrib, hsource] at hdiff
  constructor
  · intro h
    rw [h, sub_self] at hdiff
    linarith
  · intro h
    rw [h] at hdiff
    linarith

end Balances

structure MergePreserves (before after : List StockMovementRow) (s t cardId : String) (base : QtyUnit) :
    Prop where
  ledgerTarget : ledgerQty after t cardId = ledgerQty before s cardId + ledgerQty before t cardId
  ledgerOther : ∀ p, p ≠ s → p ≠ t → ledgerQty after p cardId = ledgerQty before p cardId
  ledgerTotal : ∀ places : Finset String, s ∈ places → t ∈ places →
    ∑ p ∈ places, ledgerQty after p cardId = ∑ p ∈ places, ledgerQty before p cardId
  balanceTarget : (itemBalance after cardId base (some t)).qty =
    (itemBalance before cardId base (some s)).qty + (itemBalance before cardId base (some t)).qty
  balanceOther : ∀ p, p ≠ s → p ≠ t →
    (itemBalance after cardId base (some p)).qty = (itemBalance before cardId base (some p)).qty
  balanceTotal : ∀ places : Finset String, s ∈ places → t ∈ places →
    ∑ p ∈ places, (itemBalance after cardId base (some p)).qty =
      ∑ p ∈ places, (itemBalance before cardId base (some p)).qty
  balanceAll : (itemBalance after cardId base none).qty = (itemBalance before cardId base none).qty

theorem merge_preserves_iff {db db' : Database} {s t actorRef : String} {input : MergeInput} {now : ℤ}
    {preview : MergePreview} (h : merge db s t input actorRef now = .ok (db', preview))
    (cardId : String) (base : QtyUnit) :
    MergePreserves db.stockMovement db'.stockMovement s t cardId base ↔
      ledgerBetween s t cardId db.stockMovement = 0 ∧
        transferredBetween s t cardId base db.stockMovement = 0 := by
  obtain ⟨hne, hjournal⟩ := merge_stockMovement h
  rw [hjournal]
  generalize db.stockMovement = journal
  constructor
  · intro hp
    have hl := ledgerQty_target journal cardId hne
    have hb := itemBalance_target journal cardId base hne
    rw [hp.ledgerTarget] at hl
    rw [hp.balanceTarget] at hb
    exact ⟨by linarith, by linarith⟩
  · rintro ⟨hl, hb⟩
    have hlt := ledgerQty_target journal cardId hne
    have hbt := itemBalance_target journal cardId base hne
    rw [hl, sub_zero] at hlt
    rw [hb, sub_zero] at hbt
    refine ⟨hlt, fun p => ledgerQty_other journal cardId, ?_, hbt, fun p => itemBalance_other journal cardId base,
      ?_, itemBalance_all journal cardId base⟩
    · intro places hs ht
      exact (sum_places hne hs ht (fun p => ledgerQty_other journal cardId)
        (ledgerQty_source journal cardId hne)).mpr hlt
    · intro places hs ht
      exact (sum_places hne hs ht (fun p => itemBalance_other journal cardId base)
        (itemBalance_source journal cardId base hne)).mpr hbt

def sampleMovement (kind : StockMovementKind) (warehouseId : String) (counterpartyId : Option String)
    (qty : ℚ) : StockMovementRow where
  id := "m"
  kind := kind
  ingredientId := "coffee"
  warehouseId := warehouseId
  counterpartyId := counterpartyId
  batchId := none
  dt := "2026-09-01"
  qty := qty
  unit := "шт"
  unitPrice := none
  total := none
  supplier := none
  source := "owner"
  note := none
  clientKey := none
  createdBy := "owner"

/-- Two warehouse cards and a journal; nothing else refers to either. -/
def sampleDb (journal : List StockMovementRow) : Database where
  entity := [⟨"w1", "warehouse", "Склад", []⟩, ⟨"w2", "warehouse", "Склад 2", []⟩]
  stockMovement := journal
  tables := fun _ => []
  geoPoint := []
  placeCard := []
  auditLog := []

def sampleMerge (journal : List StockMovementRow) : Except Js.HttpError (Database × MergePreview) :=
  merge (sampleDb journal) "w1" "w2" ⟨some .ownerWord, "одно и то же место"⟩ "owner" 0

theorem exists_of_isOk {ε α β : Type} (x : Except ε (α × β)) (h : x.isOk = true) :
    ∃ a b, x = .ok (a, b) := by
  cases x with
  | error e => cases h
  | ok r => exact ⟨r.1, r.2, rfl⟩

/-- Five pieces come in, two of them move to the second warehouse: three are left after the merge. -/
theorem merge_loses_transfer :
    ∃ db' preview,
      sampleMerge [sampleMovement .intake "w1" none 5, sampleMovement .transfer "w1" (some "w2") 2] =
        .ok (db', preview) ∧
      ¬ MergePreserves
        [sampleMovement .intake "w1" none 5, sampleMovement .transfer "w1" (some "w2") 2]
        db'.stockMovement "w1" "w2" "coffee" .piece := by
  obtain ⟨db', preview, hok⟩ := exists_of_isOk (sampleMerge
    [sampleMovement .intake "w1" none 5, sampleMovement .transfer "w1" (some "w2") 2]) (by decide)
  refine ⟨db', preview, hok, fun hp => ?_⟩
  have htarget := hp.ledgerTarget
  rw [(merge_stockMovement hok).2] at htarget
  revert htarget
  decide +kernel

/-- An intake at one and a transfer to a third warehouse merge without loss. -/
theorem merge_preserves_sample :
    ∃ db' preview,
      sampleMerge [sampleMovement .intake "w1" none 5, sampleMovement .transfer "w1" (some "w3") 2] =
        .ok (db', preview) ∧
      MergePreserves
        [sampleMovement .intake "w1" none 5, sampleMovement .transfer "w1" (some "w3") 2]
        db'.stockMovement "w1" "w2" "coffee" .piece := by
  obtain ⟨db', preview, hok⟩ := exists_of_isOk (sampleMerge
    [sampleMovement .intake "w1" none 5, sampleMovement .transfer "w1" (some "w3") 2]) (by decide)
  exact ⟨db', preview, hok, (merge_preserves_iff hok "coffee" .piece).mpr (by decide +kernel)⟩

end Mydon.Stock.PlaceMerge
