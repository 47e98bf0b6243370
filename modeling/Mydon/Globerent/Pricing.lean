import Mydon.Lib.Grid
import Mathlib.Data.Rat.Floor

/-! The calculator of a sale: the scenario that a price gives, the price that a target profit needs, and the price that is
round without VAT. Amounts and rates are rational numbers. -/

namespace Mydon.Globerent.Pricing

open Mydon.Lib

def round2 (n : ℚ) : ℚ := ⌊n * 100 + 1 / 2⌋ / 100

def round4 (n : ℚ) : ℚ := ⌊n * 10000 + 1 / 2⌋ / 10000

/-- What the scenario reads of the costs. -/
structure CostAggregates where
  costDdpOfficialUzs : ℚ
  costCashUzs : ℚ
  vatCustomsUzs : ℚ
  importVatBaseUzs : ℚ
  deriving DecidableEq

/-- What the scenario reads of the estimation. -/
structure EstimationInputs where
  vatSaleRate : ℚ
  corporateTaxRate : ℚ
  adminExpensesRate : ℚ
  salespersonBonusRate : ℚ
  deriving DecidableEq

structure ScenarioResult where
  salePriceWithVatUzs : ℚ
  salePriceNoVatUzs : ℚ
  vatOutputUzs : ℚ
  vatExtraPaymentUzs : ℚ
  vatToPayGniUzs : ℚ
  grossProfitOfficialUzs : ℚ
  adminExpensesUzs : ℚ
  profitBeforeTaxUzs : ℚ
  corporateTaxUzs : ℚ
  netProfitOfficialUzs : ℚ
  netProfitTotalUzs : ℚ
  salespersonBonusUzs : ℚ
  ownerTakeHomeUzs : ℚ
  markupPct : ℚ
  isProfitableOfficial : Bool
  isProfitableTotal : Bool
  deriving DecidableEq

def calculateScenario (salePriceWithVatUzs : ℚ) (costs : CostAggregates) (inputs : EstimationInputs)
    (scenarioBonusRate : Option ℚ) : ScenarioResult :=
  let salePriceNoVat := round2 (salePriceWithVatUzs / (1 + inputs.vatSaleRate))
  let vatOutput := round2 (salePriceWithVatUzs - salePriceNoVat)
  let grossProfitOfficial := round2 (salePriceNoVat - costs.costDdpOfficialUzs)
  let markupPct := if 0 < costs.costDdpOfficialUzs then round4 (grossProfitOfficial / costs.costDdpOfficialUzs) else 0
  -- a sale below the base of the import pays the difference of the VAT
  let vatExtraBase := max 0 (costs.importVatBaseUzs - salePriceNoVat)
  let vatExtraPayment := round2 (vatExtraBase * inputs.vatSaleRate)
  let vatToPayRaw := vatOutput + vatExtraPayment - costs.vatCustomsUzs
  let vatToPayGni := max 0 (round2 vatToPayRaw)
  let adminExpenses := round2 (salePriceWithVatUzs * inputs.adminExpensesRate)
  let profitBeforeTax := round2 (grossProfitOfficial - adminExpenses)
  let corporateTax := round2 (max 0 profitBeforeTax * inputs.corporateTaxRate)
  let netProfitOfficial := round2 (profitBeforeTax - corporateTax)
  let netProfitTotal := round2 (netProfitOfficial - costs.costCashUzs)
  let effectiveBonusRate := scenarioBonusRate.getD inputs.salespersonBonusRate
  let salespersonBonus := round2 (max 0 netProfitTotal * effectiveBonusRate)
  let ownerTakeHome := round2 (netProfitTotal - salespersonBonus)
  { salePriceWithVatUzs := round2 salePriceWithVatUzs
    salePriceNoVatUzs := salePriceNoVat
    vatOutputUzs := vatOutput
    vatExtraPaymentUzs := vatExtraPayment
    vatToPayGniUzs := vatToPayGni
    grossProfitOfficialUzs := grossProfitOfficial
    adminExpensesUzs := adminExpenses
    profitBeforeTaxUzs := profitBeforeTax
    corporateTaxUzs := corporateTax
    netProfitOfficialUzs := netProfitOfficial
    netProfitTotalUzs := netProfitTotal
    salespersonBonusUzs := salespersonBonus
    ownerTakeHomeUzs := ownerTakeHome
    markupPct := markupPct
    isProfitableOfficial := 0 ≤ netProfitOfficial
    isProfitableTotal := 0 ≤ netProfitTotal }

def computeBreakevenSalePrice (costDdpOfficial vatSaleRate adminRate : ℚ) : ℚ :=
  let factor := 1 / (1 + vatSaleRate) - adminRate
  if factor ≤ 0 then 0 else round2 (costDdpOfficial / factor)

def computeSalePriceForTargetNetProfit (costDdpOfficial targetNetProfitPct vatSaleRate adminRate corporateTaxRate : ℚ) : ℚ :=
  let factor := 1 / (1 + vatSaleRate) - adminRate
  if factor ≤ 0 then 0
  else
    let numerator := targetNetProfitPct / (1 - corporateTaxRate) + 1
    round2 (costDdpOfficial * numerator / factor)

inductive RoundMode
  | up
  | nearest
  deriving DecidableEq

structure RoundPrice where
  salePriceNoVatUzs : ℚ
  salePriceWithVatUzs : ℚ
  deriving DecidableEq

def roundSalePriceToNoVatStep (salePriceWithVatUzs vatSaleRate stepUzs : ℚ) (mode : RoundMode) : RoundPrice :=
  let noVatRaw := salePriceWithVatUzs / (1 + vatSaleRate)
  if ¬ 0 < stepUzs then ⟨round2 noVatRaw, round2 salePriceWithVatUzs⟩
  else
    let steps : ℤ := match mode with
      | .up => ⌈noVatRaw / stepUzs⌉
      | .nearest => ⌊noVatRaw / stepUzs + 1 / 2⌋
    let noVat := steps * stepUzs
    ⟨noVat, round2 (noVat * (1 + vatSaleRate))⟩

/-! Roundings. -/

theorem round2_eq (n : ℚ) : round2 n = roundTo 100 n := by
  rw [round2, roundTo, round_eq]
  norm_num

theorem onGrid_round2 (n : ℚ) : OnGrid 100 (round2 n) := round2_eq n ▸ onGrid_roundTo 100 n

theorem round2_of_onGrid {n : ℚ} (h : OnGrid 100 n) : round2 n = n :=
  (round2_eq n).trans (roundTo_of_onGrid (by norm_num) h)

theorem abs_round2_sub (n : ℚ) : |round2 n - n| ≤ 1 / 200 := by
  have h := abs_roundTo_sub (n := 100) (by norm_num) n
  norm_num at h
  rw [round2_eq]
  norm_num
  exact h

theorem round2_of_near {x y : ℚ} (hx : OnGrid 100 x) (hnear : |y - x| < 1 / 200) : round2 y = x := by
  rw [round2_eq]
  exact roundTo_of_near (by norm_num) hx (by norm_num at hnear ⊢; exact hnear)

/-! The price for a target profit. -/

/-- The profit before tax that a price gives, without the roundings of amounts that are whole already. -/
def profitBeforeTax (price cost : ℚ) (inputs : EstimationInputs) : ℚ :=
  round2 (price / (1 + inputs.vatSaleRate)) - cost - round2 (price * inputs.adminExpensesRate)

theorem onGrid_profitBeforeTax {cost : ℚ} (hcost : OnGrid 100 cost) (price : ℚ) (inputs : EstimationInputs) :
    OnGrid 100 (profitBeforeTax price cost inputs) :=
  ((onGrid_round2 _).sub hcost).sub (onGrid_round2 _)

theorem scenario_netProfit {costs : CostAggregates} (hcost : OnGrid 100 costs.costDdpOfficialUzs) (price : ℚ)
    (inputs : EstimationInputs) (bonus : Option ℚ) :
    (calculateScenario price costs inputs bonus).netProfitOfficialUzs =
      profitBeforeTax price costs.costDdpOfficialUzs inputs -
        round2 (max 0 (profitBeforeTax price costs.costDdpOfficialUzs inputs) * inputs.corporateTaxRate) := by
  have hgross : OnGrid 100 (round2 (price / (1 + inputs.vatSaleRate)) - costs.costDdpOfficialUzs) :=
    (onGrid_round2 _).sub hcost
  have hprofit := onGrid_profitBeforeTax hcost price inputs
  unfold profitBeforeTax at hprofit ⊢
  simp only [calculateScenario]
  rw [round2_of_onGrid hgross, round2_of_onGrid hprofit, round2_of_onGrid (hprofit.sub (onGrid_round2 _))]

/-- Of the roundings of the price, of its VAT and of the expenses, none moves the profit by more than half a hundredth. -/
theorem profitBeforeTax_near {price cost target : ℚ} {inputs : EstimationInputs} (hvat : 0 ≤ inputs.vatSaleRate)
    (hadmin : 0 ≤ inputs.adminExpensesRate) (hfactor : inputs.adminExpensesRate < 1 / (1 + inputs.vatSaleRate))
    (hprice : price * (1 / (1 + inputs.vatSaleRate) - inputs.adminExpensesRate) = cost + target) :
    |profitBeforeTax (round2 price) cost inputs - target| ≤ 3 / 200 := by
  set factor := 1 / (1 + inputs.vatSaleRate) - inputs.adminExpensesRate with hdef
  have hpos : 0 < factor := sub_pos.mpr hfactor
  have hone : 1 / (1 + inputs.vatSaleRate) ≤ 1 := by
    rw [div_le_one (by linarith)]
    linarith
  have hle : factor ≤ 1 := by linarith
  have hnoVat := abs_le.mp (abs_round2_sub (round2 price / (1 + inputs.vatSaleRate)))
  have hexpenses := abs_le.mp (abs_round2_sub (round2 price * inputs.adminExpensesRate))
  have hrounded : |(round2 price - price) * factor| ≤ 1 / 200 := by
    rw [abs_mul, abs_of_pos hpos]
    exact (mul_le_of_le_one_right (abs_nonneg _) hle).trans (abs_round2_sub price)
  have hmoved := abs_le.mp hrounded
  have hsplit : round2 price / (1 + inputs.vatSaleRate) - round2 price * inputs.adminExpensesRate - cost - target =
      (round2 price - price) * factor := by
    have : round2 price / (1 + inputs.vatSaleRate) = round2 price * (1 / (1 + inputs.vatSaleRate)) := by ring
    rw [sub_mul, hprice, hdef, this]
    ring
  rw [profitBeforeTax, abs_le]
  constructor <;> linarith [hmoved.1, hmoved.2, hnoVat.1, hnoVat.2, hexpenses.1, hexpenses.2]

/-- The tax keeps what is near a target near the target after tax; a loss pays none. -/
theorem afterTax_near {profit target t : ℚ} (htarget : 0 ≤ target) (ht₀ : 0 ≤ t) (ht₁ : t < 1)
    (hnear : |profit - target| ≤ 3 / 200) : |profit - round2 (max 0 profit * t) - target * (1 - t)| ≤ 1 / 50 := by
  obtain ⟨hlow, hhigh⟩ := abs_le.mp hnear
  rcases le_total 0 profit with hgain | hloss
  · rw [max_eq_right hgain]
    have htax := abs_le.mp (abs_round2_sub (profit * t))
    have hscaled : |(profit - target) * (1 - t)| ≤ 3 / 200 := by
      rw [abs_mul, abs_of_pos (sub_pos.mpr ht₁)]
      exact (mul_le_of_le_one_right (abs_nonneg _) (by linarith)).trans hnear
    have hmoved := abs_le.mp hscaled
    rw [abs_le]
    constructor <;> linarith [hmoved.1, hmoved.2, htax.1, htax.2]
  · have hshare : target * (1 - t) ≤ target := mul_le_of_le_one_right htarget (by linarith)
    have hshare₀ : 0 ≤ target * (1 - t) := mul_nonneg htarget (by linarith)
    rw [max_eq_left hloss, zero_mul, round2_of_onGrid onGrid_zero, sub_zero, abs_le]
    constructor <;> linarith

theorem netProfit_near {costs : CostAggregates} {inputs : EstimationInputs} {price target : ℚ} (bonus : Option ℚ)
    (hcost : OnGrid 100 costs.costDdpOfficialUzs) (htarget : 0 ≤ target) (hvat : 0 ≤ inputs.vatSaleRate)
    (ht₀ : 0 ≤ inputs.corporateTaxRate) (ht₁ : inputs.corporateTaxRate < 1) (hadmin : 0 ≤ inputs.adminExpensesRate)
    (hfactor : inputs.adminExpensesRate < 1 / (1 + inputs.vatSaleRate))
    (hprice : price * (1 / (1 + inputs.vatSaleRate) - inputs.adminExpensesRate) = costs.costDdpOfficialUzs + target) :
    |(calculateScenario (round2 price) costs inputs bonus).netProfitOfficialUzs -
      target * (1 - inputs.corporateTaxRate)| ≤ 1 / 50 := by
  rw [scenario_netProfit hcost]
  exact afterTax_near htarget ht₀ ht₁ (profitBeforeTax_near hvat hadmin hfactor hprice)

/-- The price for a target share of the cost gives that profit, and the break-even price gives none, to two hundredths. -/
theorem target_price_inverts_scenario {costs : CostAggregates} {inputs : EstimationInputs} {targetNetProfitPct : ℚ}
    (bonus : Option ℚ) (hcost : OnGrid 100 costs.costDdpOfficialUzs) (hcost₀ : 0 ≤ costs.costDdpOfficialUzs)
    (htarget : 0 ≤ targetNetProfitPct) (hvat : 0 ≤ inputs.vatSaleRate) (ht₀ : 0 ≤ inputs.corporateTaxRate)
    (ht₁ : inputs.corporateTaxRate < 1) (hadmin : 0 ≤ inputs.adminExpensesRate)
    (hfactor : inputs.adminExpensesRate < 1 / (1 + inputs.vatSaleRate)) :
    |(calculateScenario (computeSalePriceForTargetNetProfit costs.costDdpOfficialUzs targetNetProfitPct
        inputs.vatSaleRate inputs.adminExpensesRate inputs.corporateTaxRate) costs inputs bonus).netProfitOfficialUzs -
      targetNetProfitPct * costs.costDdpOfficialUzs| ≤ 2 / 100 ∧
    |(calculateScenario (computeBreakevenSalePrice costs.costDdpOfficialUzs inputs.vatSaleRate
        inputs.adminExpensesRate) costs inputs bonus).netProfitOfficialUzs| ≤ 2 / 100 := by
  have hpos : 0 < 1 / (1 + inputs.vatSaleRate) - inputs.adminExpensesRate := sub_pos.mpr hfactor
  have hkept : 0 < 1 - inputs.corporateTaxRate := sub_pos.mpr ht₁
  have hbound : (2 : ℚ) / 100 = 1 / 50 := by norm_num
  rw [computeSalePriceForTargetNetProfit, computeBreakevenSalePrice, if_neg hpos.not_ge, if_neg hpos.not_ge, hbound]
  constructor
  · have hpretax : 0 ≤ targetNetProfitPct * costs.costDdpOfficialUzs / (1 - inputs.corporateTaxRate) :=
      div_nonneg (mul_nonneg htarget hcost₀) hkept.le
    have hprice : costs.costDdpOfficialUzs * (targetNetProfitPct / (1 - inputs.corporateTaxRate) + 1) /
        (1 / (1 + inputs.vatSaleRate) - inputs.adminExpensesRate) *
          (1 / (1 + inputs.vatSaleRate) - inputs.adminExpensesRate) =
        costs.costDdpOfficialUzs + targetNetProfitPct * costs.costDdpOfficialUzs / (1 - inputs.corporateTaxRate) := by
      rw [div_mul_cancel₀ _ hpos.ne']
      ring
    have hnear := netProfit_near bonus hcost hpretax hvat ht₀ ht₁ hadmin hfactor hprice
    rwa [div_mul_cancel₀ _ hkept.ne'] at hnear
  · have hprice : costs.costDdpOfficialUzs / (1 / (1 + inputs.vatSaleRate) - inputs.adminExpensesRate) *
          (1 / (1 + inputs.vatSaleRate) - inputs.adminExpensesRate) = costs.costDdpOfficialUzs + 0 := by
      rw [div_mul_cancel₀ _ hpos.ne', add_zero]
    have hnear := netProfit_near bonus hcost le_rfl hvat ht₀ ht₁ hadmin hfactor hprice
    rwa [zero_mul, sub_zero] at hnear

/-- VAT 12 %, income tax 15 %, expenses 1.4 %. -/
def usualRates : EstimationInputs := ⟨12 / 100, 15 / 100, 14 / 1000, 3 / 100⟩

theorem target_price_of_million :
    |(calculateScenario (computeSalePriceForTargetNetProfit 1000000 (6 / 100) (12 / 100) (14 / 1000) (15 / 100))
        ⟨1000000, 5000, 120000, 900000⟩ usualRates none).netProfitOfficialUzs - 6 / 100 * 1000000| ≤ 2 / 100 ∧
    |(calculateScenario (computeBreakevenSalePrice 1000000 (12 / 100) (14 / 1000))
        ⟨1000000, 5000, 120000, 900000⟩ usualRates none).netProfitOfficialUzs| ≤ 2 / 100 :=
  @target_price_inverts_scenario ⟨1000000, 5000, 120000, 900000⟩ usualRates (6 / 100) none ⟨100000000, by norm_num⟩
    (by norm_num) (by norm_num) (by norm_num [usualRates]) (by norm_num [usualRates]) (by norm_num [usualRates])
    (by norm_num [usualRates]) (by norm_num [usualRates])

/-! The price that is round without VAT. -/

/-- Half a hundredth of the price with VAT is less than half a hundredth of the price without. -/
theorem noVat_near {noVat vat : ℚ} (hvat : 0 ≤ vat) (hgrid : OnGrid 100 noVat) :
    |round2 (noVat * (1 + vat)) / (1 + vat) - noVat| < 1 / 200 := by
  have hpos : 0 < 1 + vat := by linarith
  rcases hvat.eq_or_lt with rfl | hvat
  · rw [add_zero, mul_one, div_one, round2_of_onGrid hgrid, sub_self, abs_zero]
    norm_num
  · have heq : round2 (noVat * (1 + vat)) / (1 + vat) - noVat = (round2 (noVat * (1 + vat)) - noVat * (1 + vat)) / (1 + vat) := by
      field_simp
    rw [heq, abs_div, abs_of_pos hpos, div_lt_iff₀ hpos]
    have hround := abs_round2_sub (noVat * (1 + vat))
    linarith

/-- The whole number of steps that a price is set to. -/
def stepsOf (noVatRaw step : ℚ) : RoundMode → ℤ
  | .up => ⌈noVatRaw / step⌉
  | .nearest => ⌊noVatRaw / step + 1 / 2⌋

theorem roundSalePrice_eq {price vat step : ℚ} (hstep : 0 < step) (mode : RoundMode) :
    roundSalePriceToNoVatStep price vat step mode =
      ⟨stepsOf (price / (1 + vat)) step mode * step,
        round2 (stepsOf (price / (1 + vat)) step mode * step * (1 + vat))⟩ := by
  simp only [roundSalePriceToNoVatStep, not_not.mpr hstep, if_false]
  cases mode <;> rfl

/-- A price next to a multiple of the step is set to that multiple. -/
theorem stepsOf_near {step x : ℚ} {k : ℤ} (hstep : 0 < step) (hgrid : OnGrid 100 step) (hnear : |x - k * step| < 1 / 200) :
    stepsOf x step .nearest = k := by
  have hle : 1 / 100 ≤ step := by simpa using hgrid.one_div_le hstep
  have heq : x / step - k = (x - k * step) / step := by field_simp
  have hshare : |x / step - k| < 1 / 2 := by
    rw [heq, abs_div, abs_of_pos hstep, div_lt_iff₀ hstep]
    linarith
  obtain ⟨hlow, hhigh⟩ := abs_lt.mp hshare
  rw [stepsOf, Int.floor_eq_iff]
  constructor <;> linarith

/-- A round price survives the calculator. -/
structure RoundPriceKept (price step : ℚ) (inputs : EstimationInputs) : Prop where
  scenario : ∀ mode costs bonus,
    (calculateScenario (roundSalePriceToNoVatStep price inputs.vatSaleRate step mode).salePriceWithVatUzs costs inputs
        bonus).salePriceNoVatUzs =
      (roundSalePriceToNoVatStep price inputs.vatSaleRate step mode).salePriceNoVatUzs
  whole : ∀ mode, ∃ k : ℤ, (roundSalePriceToNoVatStep price inputs.vatSaleRate step mode).salePriceNoVatUzs = k * step
  above : price / (1 + inputs.vatSaleRate) ≤ (roundSalePriceToNoVatStep price inputs.vatSaleRate step .up).salePriceNoVatUzs
  least : ∀ k : ℤ, price / (1 + inputs.vatSaleRate) ≤ k * step →
    (roundSalePriceToNoVatStep price inputs.vatSaleRate step .up).salePriceNoVatUzs ≤ k * step
  again : ∀ mode,
    roundSalePriceToNoVatStep (roundSalePriceToNoVatStep price inputs.vatSaleRate step mode).salePriceWithVatUzs
      inputs.vatSaleRate step .nearest = roundSalePriceToNoVatStep price inputs.vatSaleRate step mode

theorem round_price_kept {price step : ℚ} {inputs : EstimationInputs} (hvat : 0 ≤ inputs.vatSaleRate) (hstep : 0 < step)
    (hgrid : OnGrid 100 step) : RoundPriceKept price step inputs := by
  have hwhole : ∀ k : ℤ, OnGrid 100 (k * step) := fun k => hgrid.int_mul k
  constructor
  · intro mode costs bonus
    rw [roundSalePrice_eq hstep]
    exact round2_of_near (hwhole _) (noVat_near hvat (hwhole _))
  · intro mode
    rw [roundSalePrice_eq hstep]
    exact ⟨_, rfl⟩
  · rw [roundSalePrice_eq hstep]
    exact (div_le_iff₀ hstep).mp (Int.le_ceil _)
  · intro k hk
    rw [roundSalePrice_eq hstep]
    have hsteps : ⌈price / (1 + inputs.vatSaleRate) / step⌉ ≤ k := Int.ceil_le.mpr ((div_le_iff₀ hstep).mpr hk)
    exact mul_le_mul_of_nonneg_right (by exact_mod_cast hsteps) hstep.le
  · intro mode
    rw [roundSalePrice_eq hstep mode, roundSalePrice_eq hstep, stepsOf_near hstep hgrid (noVat_near hvat (hwhole _))]

theorem round_price_kept_of_million : RoundPriceKept (129653933845 / 100) 1000000 usualRates :=
  round_price_kept (by norm_num [usualRates]) (by norm_num) ⟨100000000, by norm_num⟩

end Mydon.Globerent.Pricing
