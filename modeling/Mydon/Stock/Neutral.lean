import Mydon.Stock.BatchLink

/-! What the import of an item does to the balances and to the money. An item that is closed
as it comes in leaves every balance as it was; one that is not adds what the batch took in,
to one warehouse and one card. -/

namespace Mydon.Stock

open Mydon.Lib

/-- The balance that is shown for a card, which is kept in the card's base unit. -/
def balanceOf (env : StockEnv) (t : Tables) (cardId : String) (warehouseId : Option String) : Option StockBalance :=
  ((findCard env.cards cardId).bind baseUnitOfCard).map fun base => itemBalance t.journal cardId base warehouseId

def StockBalance.plus (kept : ℚ) (b : StockBalance) : StockBalance := { b with qty := b.qty + kept }

def packageWeight (env : StockEnv) (cardId : String) : Option ℚ :=
  (findCard env.cards cardId).bind fun card => strictNumber env.host (OrderedMap.get card.attrs "вес упаковки, г")

/-- A quantity in the base unit: converted, or weighed where it is counted in pieces. -/
def inBase (qty : ℚ) (unit base : QtyUnit) (weight : Option ℚ) : Option ℚ :=
  match convertQty qty unit base with
  | some q => some q
  | none => if unit = .piece then weight.bind fun w => convertQty (qty * w) .gram base else none

def ImportBatchItem.cardId (item : ImportBatchItem) : String := item.ingredientId.getD ""

/-- What the batch keeps of the item: its quantity, at the three decimals of the column. -/
structure Keeps (env : StockEnv) (item : ImportBatchItem) (base : QtyUnit) (b : StockBatch) (asked kept : ℚ) : Prop where
  quantity : ∃ unit, QtyUnit.ofText item.unit = some unit ∧
    inBase item.qtyReceived unit base (packageWeight env item.cardId) = some asked
  stored : ∃ unit x, b.unit = QtyUnit.text unit ∧ convertQty x unit base = some asked ∧
    numeric 14 3 x = .ok b.qtyReceived ∧ convertQty b.qtyReceived unit base = some kept ∧
    (kept = asked ↔ ∃ k : ℤ, x = k / 10 ^ 3)

/-- The item is on the books: its batch, the movement that took it in, the balances and the money. -/
structure Books (env : StockEnv) (item : ImportBatchItem) (closeOn : Option String) (t t' : Tables) (b : StockBatch)
    (m : StockMovementRow) (kept : ℚ) (total : Option ℚ) : Prop where
  batches : t'.batches = t.batches ++ [b]
  intake : carriers t'.journal b.id = [m]
  neutral : closeOn.isSome = true → ∀ cardId warehouseId,
    balanceOf env t' cardId warehouseId = balanceOf env t cardId warehouseId
  spent : closeOn.isSome = true → remaining t'.journal b = 0
  grows : closeOn = none → ∀ cardId warehouseId,
    balanceOf env t' cardId warehouseId =
      if cardId = item.cardId ∧ (warehouseId = none ∨ warehouseId = some item.warehouseId) then
        (balanceOf env t cardId warehouseId).map (StockBalance.plus kept)
      else balanceOf env t cardId warehouseId
  total : m.total = total

/-! Converting, whatever the quantity. -/

section
variable {x q : ℚ} {unit base : QtyUnit}

theorem QtyUnit.per_pos (unit : QtyUnit) : 0 < unit.per := by
  cases unit <;> norm_num [QtyUnit.per]

/-- Whether a unit converts does not depend on the quantity, and the factor is one. -/
theorem convertQty_scale (h : convertQty x unit base = some q) :
    ∃ k : ℚ, 0 < k ∧ ∀ y, convertQty y unit base = some (y * k) := by
  unfold convertQty at h ⊢
  by_cases heq : unit = base
  · refine ⟨1, one_pos, fun y => ?_⟩
    rw [if_pos heq, mul_one]
  · rw [if_neg heq] at h
    by_cases hdim : unit.dim ≠ base.dim ∨ unit.dim = .pieces
    · rw [if_pos hdim] at h
      cases h
    · refine ⟨unit.per / base.per, div_pos unit.per_pos base.per_pos, fun y => ?_⟩
      rw [if_neg heq, if_neg hdim, mul_div_assoc]

theorem convertQty_self (x : ℚ) (unit : QtyUnit) : convertQty x unit unit = some x := if_pos rfl

theorem convertQty_piece (hne : QtyUnit.piece ≠ base) : convertQty x .piece base = none := by
  unfold convertQty
  rw [if_neg hne, if_pos (Or.inr (by rfl))]

theorem QtyUnit.ofText_text (unit : QtyUnit) : QtyUnit.ofText unit.text = some unit := by
  cases unit <;> decide +kernel

/-- A packed quantity is the one asked for: the same in the base unit, in a unit that converts, and scaled as the price is. -/
theorem packedQty_inBase {name : String} {weight : Option ℚ} {packed : Packed} {qty : ℚ} (hqty : 0 < qty)
    (h : packedQty qty unit (some base) name weight = .ok packed) :
    ∃ asked, inBase qty unit base weight = some asked ∧ convertQty packed.qty packed.unit base = some asked ∧
      packed.qty = packed.priceScale * qty ∧ 0 < packed.priceScale := by
  unfold packedQty at h
  dsimp only at h
  by_cases hpieces : unit ≠ base ∧ unit = .piece ∧ convertQty 1 .gram base ≠ none
  · rw [if_pos hpieces] at h
    obtain ⟨hne, rfl, hgram⟩ := hpieces
    obtain ⟨one, hone⟩ := Option.ne_none_iff_exists'.mp hgram
    obtain ⟨k, hk, hscale⟩ := convertQty_scale hone
    rcases hw : weight.filter (0 < ·) with _ | w
    · rw [hw] at h
      cases h
    · obtain ⟨rfl, hpos⟩ := Option.filter_eq_some_iff.mp hw
      rw [hw] at h
      dsimp only at h
      rw [hscale] at h
      obtain rfl := Except.ok.inj h
      have hw0 : 0 < w := of_decide_eq_true hpos
      refine ⟨qty * w * k, ?_, convertQty_self _ _, (div_mul_cancel₀ _ hqty.ne').symm, ?_⟩
      · unfold inBase
        rw [convertQty_piece hne]
        exact hscale _
      · exact div_pos (mul_pos (mul_pos hqty hw0) hk) hqty
  · rw [if_neg hpieces] at h
    by_cases hconv : unit ≠ base ∧ convertQty qty unit base = none
    · rw [if_pos hconv] at h
      cases h
    · rw [if_neg hconv] at h
      obtain rfl := Except.ok.inj h
      obtain ⟨asked, hasked⟩ : ∃ asked, convertQty qty unit base = some asked := by
        by_cases heq : unit = base
        · exact ⟨qty, heq ▸ convertQty_self qty unit⟩
        · exact Option.ne_none_iff_exists'.mp fun hnone => hconv ⟨heq, hnone⟩
      refine ⟨asked, ?_, hasked, (one_mul qty).symm, one_pos⟩
      unfold inBase
      rw [hasked]

end

/-! What one row, and two that cancel, do to a balance. -/

section
variable {env : StockEnv} {base : QtyUnit} {warehouseId : Option String} {cardId : String} {kept : ℚ} {place : String}
  {journal : List StockMovementRow} {r : StockMovementRow}

theorem itemBalance_append_other (h : r.ingredientId ≠ cardId) :
    itemBalance (journal ++ [r]) cardId base warehouseId = itemBalance journal cardId base warehouseId := by
  unfold itemBalance
  rw [List.filter_append, List.filter_cons_of_neg (by simpa using h), List.filter_nil, List.append_nil]

theorem itemBalance_append_row {unit : QtyUnit} (hcard : r.ingredientId = cardId)
    (hunit : r.unit = unit.text) (hkept : convertQty r.qty unit base = some kept) :
    itemBalance (journal ++ [r]) cardId base warehouseId =
      (itemBalance journal cardId base warehouseId).plus
        (signedFor ⟨r.kind, r.warehouseId, r.counterpartyId, r.qty, unit⟩ warehouseId kept) := by
  have hmove : r.toMovement = some ⟨r.kind, r.warehouseId, r.counterpartyId, r.qty, unit⟩ := by
    unfold StockMovementRow.toMovement
    rw [hunit, QtyUnit.ofText_text]
    rfl
  unfold itemBalance stockBalance toBalanceInput StockBalance.plus
  rw [List.filter_append, List.filter_cons_of_pos (by simpa using hcard), List.filter_nil, List.filterMap_append,
    List.filterMap_cons, hmove, List.filterMap_nil, List.foldl_append, List.foldl_cons, List.foldl_nil]
  unfold addMovement
  rw [hkept]

theorem StockBalance.plus_plus (b : StockBalance) (x y : ℚ) : (b.plus x).plus y = b.plus (x + y) := by
  unfold StockBalance.plus
  rw [add_assoc]

theorem StockBalance.plus_zero (b : StockBalance) : b.plus 0 = b := by
  unfold StockBalance.plus
  rw [add_zero]

/-- The movement takes `kept` of the card in, or out, at one warehouse. -/
structure Moves (kind : StockMovementKind) (cardId warehouseId : String) (base : QtyUnit) (kept : ℚ)
    (r : StockMovementRow) : Prop where
  kind : r.kind = kind
  card : r.ingredientId = cardId
  warehouse : r.warehouseId = warehouseId
  counterparty : r.counterpartyId = none
  qty : ∃ unit, r.unit = QtyUnit.text unit ∧ convertQty r.qty unit base = some kept

theorem itemBalance_intake (h : Moves .intake cardId place base kept r) :
    itemBalance (journal ++ [r]) cardId base warehouseId =
      if warehouseId = none ∨ warehouseId = some place then (itemBalance journal cardId base warehouseId).plus kept
      else itemBalance journal cardId base warehouseId := by
  obtain ⟨unit, hunit, hkept⟩ := h.qty
  rw [itemBalance_append_row h.card hunit hkept, h.kind, h.warehouse]
  unfold signedFor
  dsimp only
  by_cases hown : warehouseId = none ∨ some place = warehouseId
  · rw [if_pos hown, if_pos (hown.imp_right Eq.symm)]
  · rw [if_neg hown, if_neg fun h => hown (h.imp_right Eq.symm), StockBalance.plus_zero]

/-- What was taken in and closed at once leaves the balance as it was. -/
theorem itemBalance_closed {c : StockMovementRow} (h : Moves .intake cardId place base kept r)
    (hc : Moves .consumption cardId place base kept c) :
    itemBalance (journal ++ [r, c]) cardId base warehouseId = itemBalance journal cardId base warehouseId := by
  obtain ⟨unit, hunit, hkept⟩ := hc.qty
  rw [List.append_cons, itemBalance_append_row hc.card hunit hkept, itemBalance_intake h, hc.kind, hc.warehouse]
  unfold signedFor
  dsimp only
  by_cases hown : warehouseId = none ∨ some place = warehouseId
  · rw [if_pos hown, if_pos (hown.imp_right Eq.symm), StockBalance.plus_plus, add_neg_cancel, StockBalance.plus_zero]
  · rw [if_neg hown, if_neg fun h => hown (h.imp_right Eq.symm), StockBalance.plus_zero]

theorem balanceOf_intake {t : Tables} {batches : List StockBatch}
    (hbase : (findCard env.cards cardId).bind baseUnitOfCard = some base) (h : Moves .intake cardId place base kept r)
    (anyId : String) :
    balanceOf env ⟨batches, t.journal ++ [r]⟩ anyId warehouseId =
      if anyId = cardId ∧ (warehouseId = none ∨ warehouseId = some place) then
        (balanceOf env t anyId warehouseId).map (StockBalance.plus kept)
      else balanceOf env t anyId warehouseId := by
  unfold balanceOf
  by_cases hcard : anyId = cardId
  · subst hcard
    rw [hbase, Option.map_some, Option.map_some, itemBalance_intake h]
    by_cases hown : warehouseId = none ∨ warehouseId = some place
    · rw [if_pos hown, if_pos ⟨rfl, hown⟩]
      rfl
    · rw [if_neg hown, if_neg fun hboth => hown hboth.2]
  · rw [if_neg fun hboth => hcard hboth.1]
    have hne : r.ingredientId ≠ anyId := fun heq => hcard (heq.symm.trans h.card)
    simp only [itemBalance_append_other hne]

theorem balanceOf_closed {t : Tables} {batches : List StockBatch} {c : StockMovementRow}
    (hbase : (findCard env.cards cardId).bind baseUnitOfCard = some base) (h : Moves .intake cardId place base kept r)
    (hc : Moves .consumption cardId place base kept c) (anyId : String) :
    balanceOf env ⟨batches, t.journal ++ [r, c]⟩ anyId warehouseId = balanceOf env t anyId warehouseId := by
  unfold balanceOf
  by_cases hcard : anyId = cardId
  · subst hcard
    rw [hbase, Option.map_some, Option.map_some, itemBalance_closed h hc]
  · have hne : r.ingredientId ≠ anyId := fun heq => hcard (heq.symm.trans h.card)
    have hne' : c.ingredientId ≠ anyId := fun heq => hcard (heq.symm.trans hc.card)
    simp only [List.append_cons t.journal r [c], itemBalance_append_other hne, itemBalance_append_other hne']

end

/-! The rows that an item writes. -/

section
variable {env : StockEnv} {t t' : Tables} {input : CreateBatchInput} {prep : NewBatch} {ids : BatchIds}
  {closeOn : Option String} {item : ImportBatchItem} {source : String}

theorem intakeValues_total {m : StockMovementRow} (h : intakeValues env input prep ids = .ok m) :
    m.counterpartyId = none ∧ numericOption 15 2 (prep.unitPriceGross.map (· * prep.qtyReceived)) = .ok m.total := by
  unfold intakeValues at h
  simp only [Js.bind_eq_ok] at h
  obtain ⟨_, _, _, _, _, _, total, htotal, h⟩ := h
  cases h
  exact ⟨rfl, htotal⟩

/-- The closing takes out what the intake took in, where it took it in. -/
theorem closingValues_spec {closeOn : String} {c : StockMovementRow}
    (h : closingValues env input prep ids closeOn = .ok c) :
    c.ingredientId = input.ingredientId ∧ c.warehouseId = input.warehouseId ∧ c.counterpartyId = none ∧
      c.unit = prep.unit.text ∧ numeric 14 3 prep.qtyReceived = .ok c.qty := by
  unfold closingValues at h
  simp only [Js.bind_eq_ok] at h
  obtain ⟨_, _, _, hqty, h⟩ := h
  cases h
  exact ⟨rfl, rfl, rfl, rfl, hqty⟩

theorem closingRows_of_closeDate {closing : List StockMovementRow}
    (h : closingRows env (batchInput env source (closeDate closeOn) item) prep ids = .ok closing) :
    ((closeDate closeOn).isSome = true →
      ∃ c day, closing = [c] ∧ closingValues env (batchInput env source (closeDate closeOn) item) prep ids day = .ok c) ∧
    (closeDate closeOn = none → closing = []) := by
  unfold closingRows at h
  have hinput : (batchInput env source (closeDate closeOn) item).closeOn = closeDate closeOn := rfl
  rw [hinput] at h
  unfold closeDate at h ⊢
  rcases closeOn with _ | day
  · obtain rfl := Except.ok.inj h
    exact ⟨fun hsome => (nomatch hsome), fun _ => rfl⟩
  · rw [Option.filter_some] at h ⊢
    by_cases hday : Js.trim day = ""
    · rw [if_neg (by simpa using hday)] at h ⊢
      obtain rfl := Except.ok.inj h
      exact ⟨fun hsome => (nomatch hsome), fun _ => rfl⟩
    · rw [if_pos (by simpa using hday), Option.map_some] at h ⊢
      rw [Option.filter_some, if_pos (by simpa using hday)] at h
      obtain ⟨c, hc, rfl⟩ := Js.map_eq_ok.mp h
      exact ⟨fun _ => ⟨c, _, rfl, hc⟩, fun hnone => (nomatch hnone)⟩

/-- A batch that is new has no movement yet. -/
theorem consumed_fresh {id : String} (hfk : ∀ m ∈ t.journal, ∀ id ∈ m.batchId, ∃ b ∈ t.batches, b.id = id)
    (hid : ∀ r ∈ t.batches, r.id ≠ id) : consumed t.journal id = 0 := by
  have hnil : batchMovements t.journal .consumption id = [] := by
    rw [batchMovements, List.filter_eq_nil_iff]
    intro r hr h
    rw [Bool.and_eq_true, decide_eq_true_eq, decide_eq_true_eq] at h
    obtain ⟨d, hd, hdid⟩ := hfk r hr id h.2
    exact hid d hd hdid
  rw [consumed, hnil]
  rfl

theorem carriers_fresh {id : String} (hfk : ∀ m ∈ t.journal, ∀ id ∈ m.batchId, ∃ b ∈ t.batches, b.id = id)
    (hid : ∀ r ∈ t.batches, r.id ≠ id) : carriers t.journal id = [] := by
  rw [carriers, List.filter_eq_nil_iff]
  intro r hr h
  obtain ⟨d, hd, hdid⟩ := hfk r hr id (takes_iff.mp h).2
  exact hid d hd hdid

/-- The closing spends the batch. -/
theorem remaining_closed {b : StockBatch} {m out : StockMovementRow}
    (hfk : ∀ m ∈ t.journal, ∀ id ∈ m.batchId, ∃ b ∈ t.batches, b.id = id) (hid : ∀ r ∈ t.batches, r.id ≠ b.id)
    (hm : m.kind = .intake) (hout : out.kind = .consumption) (hbatch : out.batchId = some b.id)
    (hqty : out.qty = b.qtyReceived) : remaining (t.journal ++ [m, out]) b = 0 := by
  have hconsumed : consumed (t.journal ++ [m, out]) b.id = b.qtyReceived := by
    have hfresh := consumed_fresh hfk hid
    unfold consumed batchMovements at hfresh ⊢
    rw [List.filter_append, List.map_append, List.sum_append, hfresh, zero_add]
    simp [hm, hout, hbatch, hqty]
  unfold remaining round3
  rw [hconsumed, sub_self, zero_mul, zero_add]
  norm_num

/-- What the checks of an item find, for a card with a base unit. -/
theorem checkBatch_item
    {c : Packed × Option QtyUnit × Option ℚ} (h : checkBatch env (batchInput env source closeOn item) = .ok c) :
    ∃ unit card, 0 < item.qtyReceived ∧ QtyUnit.ofText item.unit = some unit ∧
      findCard env.cards item.cardId = some card ∧ c.2.1 = baseUnitOfCard card ∧
      packedQty item.qtyReceived unit (baseUnitOfCard card) card.name (packageWeight env item.cardId) = .ok c.1 := by
  unfold checkBatch at h
  obtain ⟨_, hpos, h⟩ := Js.bind_eq_ok.mp h
  obtain ⟨_, _, h⟩ := Js.bind_eq_ok.mp h
  obtain ⟨_, _, h⟩ := Js.bind_eq_ok.mp h
  obtain ⟨_, _, h⟩ := Js.bind_eq_ok.mp h
  obtain ⟨unit, hunit, h⟩ := Js.bind_eq_ok.mp h
  obtain ⟨card, hcard, h⟩ := Js.bind_eq_ok.mp h
  obtain ⟨_, _, h⟩ := Js.bind_eq_ok.mp h
  obtain ⟨packed, hpacked, h⟩ := Js.bind_eq_ok.mp h
  obtain ⟨_, _, h⟩ := Js.bind_eq_ok.mp h
  obtain rfl := Except.ok.inj h
  have hfound : findCard env.cards item.cardId = some card := by
    unfold stockCard at hcard
    have hid : (batchInput env source closeOn item).ingredientId = item.cardId := rfl
    rw [hid] at hcard
    rcases hf : findCard env.cards item.cardId with _ | found
    · rw [hf] at hcard
      cases hcard
    · rw [hf] at hcard
      dsimp only at hcard
      split_ifs at hcard
      · exact congrArg some (Except.ok.inj hcard)
      · exact congrArg some (Except.ok.inj hcard)
  refine ⟨unit, card, Js.require_eq_ok.mp hpos, Js.orThrow_eq_ok.mp hunit, hfound, rfl, ?_⟩
  unfold packageWeight
  rw [hfound]
  exact hpacked

/-- Dividing the price by what the pieces were multiplied by leaves the money as it was. -/
theorem newBatch_total {packed : Packed}
    {base : Option QtyUnit} {weight : Option ℚ} (hqty : packed.qty = packed.priceScale * item.qtyReceived)
    (hscale : 0 < packed.priceScale) :
    (newBatch env (batchInput env source closeOn item) packed base weight).unitPriceGross.map
        (· * (newBatch env (batchInput env source closeOn item) packed base weight).qtyReceived) =
      item.unitPriceGross.map (item.qtyReceived * ·) := by
  have hgross : grossPrice (batchInput env source closeOn item) = item.unitPriceGross := by
    unfold grossPrice batchInput
    rcases item.unitPriceGross with _ | gross <;> rfl
  unfold newBatch
  rw [hgross, Option.map_map]
  refine Option.map_congr fun gross _ => ?_
  rw [Function.comp_apply, hqty]
  by_cases hone : packed.priceScale = 1
  · rw [if_neg (not_not_intro hone), hone, one_mul, mul_comm]
  · rw [if_pos hone]
    field_simp

/-- The rows of one item, and what they hold. -/
theorem writeBatchTx_books {base : QtyUnit}
    {c : Packed × Option QtyUnit × Option ℚ}
    (hfk : ∀ m ∈ t.journal, ∀ id ∈ m.batchId, ∃ b ∈ t.batches, b.id = id)
    (hbase : (findCard env.cards item.cardId).bind baseUnitOfCard = some base)
    (hcheck : checkBatch env (batchInput env source (closeDate closeOn) item) = .ok c)
    (h : writeBatchTx env t (batchInput env source (closeDate closeOn) item)
      (newBatch env (batchInput env source (closeDate closeOn) item) c.1 c.2.1 c.2.2) ids = .ok t') :
    ∃ b m asked kept total, Keeps env item base b asked kept ∧
      numericOption 15 2 (item.unitPriceGross.map (item.qtyReceived * ·)) = .ok total ∧
      Books env item (closeDate closeOn) t t' b m kept total := by
  obtain ⟨unit, card, hpos, hunit, hcard, _, hpacked⟩ := checkBatch_item hcheck
  rw [hcard, Option.bind_some] at hbase
  rw [hbase] at hpacked
  obtain ⟨asked, hasked, hconv, hqty, hscale⟩ := packedQty_inBase hpos hpacked
  obtain ⟨k, hk, hfactor⟩ := convertQty_scale hconv
  obtain ⟨b, m, closing, hb, hfresh, hm, _, _, hclosing, _, rfl⟩ := writeBatchTx_eq_ok.mp h
  obtain ⟨hbid, hbcard, hbplace, hbunit, hbqty, _⟩ := batchValues_id hb
  obtain ⟨_, hmkind, hmcard, hmplace, hmbatch, hmunit, hmqty, _⟩ := intakeValues_eq_ok hm
  obtain ⟨hmcounter, hmtotal⟩ := intakeValues_total hm
  obtain ⟨hclosed, hopen⟩ := closingRows_of_closeDate hclosing
  have hmb : m.qty = b.qtyReceived := Except.ok.inj (hmqty.symm.trans hbqty)
  have hmoves : Moves .intake item.cardId item.warehouseId base (b.qtyReceived * k) m :=
    ⟨hmkind, hmcard, hmplace, hmcounter, c.1.unit, hmunit, hmb ▸ hfactor m.qty⟩
  have hasked' : c.1.qty * k = asked := Option.some.inj ((hfactor c.1.qty).symm.trans hconv)
  have hexact : b.qtyReceived * k = asked ↔ ∃ n : ℤ, c.1.qty = n / 10 ^ 3 := by
    rw [← hasked', mul_left_inj' hk.ne']
    exact numeric_eq_self_iff hbqty
  have htakes : takes b.id m = true := takes_iff.mpr ⟨by rw [hmkind]; rfl, hmbatch.trans (congrArg some hbid.symm)⟩
  rw [newBatch_total hqty hscale] at hmtotal
  refine ⟨b, m, asked, b.qtyReceived * k, m.total,
    ⟨⟨unit, hunit, hasked⟩, c.1.unit, c.1.qty, hbunit, hconv, hbqty, hfactor b.qtyReceived, hexact⟩, hmtotal, rfl, ?_,
    fun hsome => ?_, fun hsome => ?_, fun hnone => ?_, rfl⟩
  · -- the closing takes no batch in
    have hrest : carriers closing b.id = [] := by
      rw [carriers, List.filter_eq_nil_iff]
      intro r hr htake
      obtain ⟨_, hkind, _⟩ := (closingRows_eq_ok hclosing).2 r hr
      rw [takes_iff, hkind] at htake
      exact absurd htake.1 (by decide)
    have hfirst : carriers [m] b.id = [m] := by rw [carriers_singleton, if_pos htakes]
    dsimp only
    rw [List.append_cons, carriers_append, carriers_append, carriers_fresh hfk hfresh.id, hfirst, hrest]
    rfl
  · obtain ⟨out, day, rfl, hout⟩ := hclosed hsome
    obtain ⟨hocard, hoplace, hocounter, hounit, hoqty⟩ := closingValues_spec hout
    obtain ⟨_, hokind, _⟩ := closingValues_eq_ok hout
    have hob : out.qty = b.qtyReceived := Except.ok.inj (hoqty.symm.trans hbqty)
    have hout' : Moves .consumption item.cardId item.warehouseId base (b.qtyReceived * k) out :=
      ⟨hokind, hocard, hoplace, hocounter, c.1.unit, hounit, hob ▸ hfactor out.qty⟩
    exact fun cardId _ => balanceOf_closed (by rw [hcard, Option.bind_some, hbase]) hmoves hout' cardId
  · obtain ⟨out, day, rfl, hout⟩ := hclosed hsome
    obtain ⟨_, _, _, _, hoqty⟩ := closingValues_spec hout
    obtain ⟨_, hokind, hobatch, _⟩ := closingValues_eq_ok hout
    exact remaining_closed hfk hfresh.id hmkind hokind (hobatch.trans (congrArg some hbid.symm))
      (Except.ok.inj (hoqty.symm.trans hbqty))
  · rw [hopen hnone]
    exact fun cardId _ => balanceOf_intake (by rw [hcard, Option.bind_some, hbase]) hmoves cardId

end

/-! An import, item after item. -/

section
variable (env : StockEnv) (source : String) (closeOn : Option String) (t : Tables) (items : List ImportBatchItem)
  (ids : ℕ → BatchIds)

/-- The tables after the first `n` items of an import. -/
def tablesAfter (n : ℕ) : Tables := (importItems env source (closeDate closeOn) false ids 0 t (items.take n)).2

end

section
variable {env : StockEnv} {source : String} {closeOn : Option String} {t : Tables} {items : List ImportBatchItem}
  {ids : ℕ → BatchIds} {item : ImportBatchItem} {n : ℕ}

theorem importItems_take {rest : List ImportBatchItem} {k : ℕ} {o : ItemOutcome}
    (hitem : rest[k]? = some item) (h : (importItems env source closeOn false ids n t rest).1[k]? = some o) :
    importItem env source closeOn false (importItems env source closeOn false ids n t (rest.take k)).2 item (ids (n + k)) =
      (o, (importItems env source closeOn false ids n t (rest.take (k + 1))).2) := by
  induction rest generalizing n t k with
  | nil => cases hitem
  | cons first rest ih =>
    unfold importItems at h
    rcases k with _ | k
    · rw [List.getElem?_cons_zero, Option.some.injEq] at hitem h
      subst hitem h
      simp only [List.take_zero, List.take_succ_cons, importItems, Nat.add_zero]
    · rw [List.getElem?_cons_succ] at hitem h
      have hrest := ih hitem h
      rw [Nat.add_right_comm, Nat.add_assoc] at hrest
      simpa only [List.take_succ_cons, importItems] using hrest

/-- An item writes the rows of its batch, or nothing. -/
theorem importItem_writes (ids : BatchIds) :
    ((importItem env source closeOn false t item ids).1 ≠ .created ∧
        (importItem env source closeOn false t item ids).2 = t) ∨
      ∃ c, checkBatch env (batchInput env source closeOn item) = .ok c ∧
        writeBatchTx env t (batchInput env source closeOn item)
          (newBatch env (batchInput env source closeOn item) c.1 c.2.1 c.2.2) ids =
            .ok (importItem env source closeOn false t item ids).2 := by
  rcases hm : isMatched item with _ | _
  · rw [importItem_unmatched hm]
    refine .inl ⟨?_, rfl⟩
    split_ifs <;> exact ItemOutcome.noConfusion
  rw [importItem_matched hm]
  rcases hp : prepareBatch env t (batchInput env source closeOn item) with e | row | prep
  · exact .inl ⟨ItemOutcome.noConfusion, rfl⟩
  · exact .inl ⟨ItemOutcome.noConfusion, rfl⟩
  · obtain ⟨⟨c, hc, rfl⟩, _⟩ := prepareBatch_new.mp hp
    dsimp only
    rw [if_neg Bool.false_ne_true]
    rcases writeBatch_cases env t (batchInput env source closeOn item)
      (newBatch env (batchInput env source closeOn item) c.1 c.2.1 c.2.2) ids with ⟨e, _, hw⟩ | ⟨t', result, htx, hw, _⟩
    · rw [hw]
      exact .inl ⟨ItemOutcome.noConfusion, rfl⟩
    · rw [hw]
      refine .inr ⟨c, hc, htx.trans ?_⟩
      rcases result with e | row <;> rfl

/-- Every item that an import creates is on the books for what its batch keeps and what its money column holds. -/
theorem import_books {base : QtyUnit} (hs : Sound t) (hitem : items[n]? = some item)
    (hbase : (findCard env.cards item.cardId).bind baseUnitOfCard = some base)
    (hout : (importOutcomes env source closeOn false t items ids)[n]? = some .created) :
    ∃ b m asked kept total, Keeps env item base b asked kept ∧
      numericOption 15 2 (item.unitPriceGross.map (item.qtyReceived * ·)) = .ok total ∧
      Books env item (closeDate closeOn) (tablesAfter env source closeOn t items ids n)
        (tablesAfter env source closeOn t items ids (n + 1)) b m kept total := by
  have hstep := importItems_take hitem hout
  rw [Nat.zero_add] at hstep
  obtain ⟨c, hc, hw⟩ := (importItem_writes (ids n)).resolve_left fun h => h.1 (congrArg Prod.fst hstep)
  have hsound : Sound (tablesAfter env source closeOn t items ids n) := (importItems_links false ids _ 0 hs).1
  rw [hstep] at hw
  exact writeBatchTx_books hsound.batch hbase hc hw

end

/-! Four packs of coffee, weighed; and half a gram of it. -/

def packedEnv : StockEnv :=
  { stockEnv with
    cards := [⟨"coffee", "ingredient", "coffee", [("единица", .str "г"), ("вес упаковки, г", .num 250)]⟩,
      ⟨"central", "warehouse", "central", []⟩] }

def fourPacks : ImportBatchItem := { sampleItem "1" with qtyReceived := 4, unit := "шт", unitPriceGross := some 30000 }

def halfGram : ImportBatchItem :=
  { sampleItem "1" with qtyReceived := 1 / 2000, unit := "кг", unitPriceGross := some 30000 }

theorem import_books_fourPacks :
    ∃ b m asked kept total, Keeps packedEnv fourPacks .gram b asked kept ∧
      numericOption 15 2 (fourPacks.unitPriceGross.map (fourPacks.qtyReceived * ·)) = .ok total ∧
      Books packedEnv fourPacks (closeDate (some "2026-08-31"))
        (tablesAfter packedEnv "registry" (some "2026-08-31") ⟨[], []⟩ [fourPacks] sampleIds 0)
        (tablesAfter packedEnv "registry" (some "2026-08-31") ⟨[], []⟩ [fourPacks] sampleIds 1) b m kept total :=
  import_books ⟨List.nodup_nil, List.forall_mem_nil _, List.forall_mem_nil _⟩ rfl (by decide +kernel) (by decide +kernel)

/-- The column keeps a whole gram of the half: the balance grows by another quantity than the one asked for. -/
theorem halfGram_kept_whole :
    (importOutcomes packedEnv "registry" none false ⟨[], []⟩ [halfGram] sampleIds)[0]? = some .created ∧
      inBase halfGram.qtyReceived .kilogram .gram (packageWeight packedEnv halfGram.cardId) = some (1 / 2) ∧
      ∀ b m total, ¬ Books packedEnv halfGram (closeDate none) ⟨[], []⟩
        (tablesAfter packedEnv "registry" none ⟨[], []⟩ [halfGram] sampleIds 1) b m (1 / 2) total := by
  refine ⟨by decide +kernel, by decide +kernel, fun b m total h => ?_⟩
  have hgrown := h.grows rfl "coffee" (some "central")
  revert hgrown
  decide +kernel

end Mydon.Stock
