import Mydon.Contracts.Service
import Mydon.Lib.Repayment

/-! The instalment plan with its rows: interest, principal and balance of each payment. The plan of the
contract's schedule reads the dates and amounts of the same rows. -/

namespace Mydon.Contracts.Annuity

open Mydon.Lib

structure InstallmentRow where
  n : ℕ
  due : ℤ
  amount : ℚ
  interestPart : ℚ
  principalPart : ℚ
  balance : ℚ
  deriving DecidableEq

structure InstallmentInput where
  totalWithVat : ℚ
  prepayPct : ℚ
  months : ℤ
  annualRatePct : ℚ
  firstDate : ℤ

def InstallmentInput.principal (input : InstallmentInput) : ℚ :=
  input.totalWithVat * (1 - input.prepayPct / 100)

/-- The rate of one month. -/
def InstallmentInput.r (input : InstallmentInput) : ℚ :=
  input.annualRatePct / 100 / 12

def InstallmentInput.monthly (input : InstallmentInput) : ℚ :=
  if 0 < input.r then
    input.principal * (input.r * (1 + input.r) ^ input.months) / ((1 + input.r) ^ input.months - 1)
  else input.principal / input.months

/-- The loop over the months, at month `i` with `left` of them to go. -/
def paymentRows (monthly r : ℚ) (firstDate : ℤ) (i : ℕ) (balance : ℚ) : ℕ → List InstallmentRow
  | 0 => []
  | left + 1 =>
    let interestPart := balance * r
    let principalPart := monthly - interestPart
    let next := max 0 (balance - principalPart)
    ⟨i + 1, addMonths firstDate i, monthly, interestPart, principalPart, next⟩ ::
      paymentRows monthly r firstDate (i + 1) next left

def installmentSchedule (input : InstallmentInput) : List InstallmentRow :=
  if input.months ≤ 0 then []
  else paymentRows input.monthly input.r input.firstDate 0 input.principal input.months.toNat

variable {monthly r balance : ℚ} {firstDate : ℤ} {i left : ℕ}

/-! What every row has, whatever the payment is. -/

theorem length_paymentRows : (paymentRows monthly r firstDate i balance left).length = left := by
  induction left generalizing i balance with
  | zero => rfl
  | succ left ih => rw [paymentRows, List.length_cons, ih]

theorem amount_eq_monthly : ∀ row ∈ paymentRows monthly r firstDate i balance left,
    row.amount = monthly ∧ row.amount = row.interestPart + row.principalPart := by
  induction left generalizing i balance with
  | zero => exact List.forall_mem_nil _
  | succ left ih => exact List.forall_mem_cons.mpr ⟨⟨rfl, by simp⟩, ih⟩

/-- The balance before each payment. -/
def balancesBefore (principal : ℚ) (rows : List InstallmentRow) : List ℚ :=
  (principal :: rows.map (·.balance)).dropLast

theorem balancesBefore_cons (principal : ℚ) (row : InstallmentRow) (rows : List InstallmentRow) :
    balancesBefore principal (row :: rows) = principal :: balancesBefore row.balance rows :=
  rfl

theorem interest_eq : (paymentRows monthly r firstDate i balance left).map (·.interestPart) =
    (balancesBefore balance (paymentRows monthly r firstDate i balance left)).map (· * r) := by
  induction left generalizing i balance with
  | zero => rfl
  | succ left ih => rw [paymentRows, balancesBefore_cons, List.map_cons, List.map_cons, ih]

/-! When the payments repay the balance, the clamp is idle and the last balance is 0. -/

theorem next_balance (hr : 0 ≤ r) (hmonthly : 0 ≤ monthly) (hrepays : Repays monthly r balance (left + 1)) :
    max 0 (balance - (monthly - balance * r)) = balance - (monthly - balance * r) :=
  max_eq_right (hrepays.next.nonneg hr hmonthly)

section

variable (hr : 0 ≤ r) (hmonthly : 0 ≤ monthly) (hrepays : Repays monthly r balance left)
include hr hmonthly hrepays

/-- A row's balance is the balance before less the principal part: `max` changes nothing. -/
theorem balance_eq : (paymentRows monthly r firstDate i balance left).map (·.balance) =
    List.zipWith (· - ·) (balancesBefore balance (paymentRows monthly r firstDate i balance left))
      ((paymentRows monthly r firstDate i balance left).map (·.principalPart)) := by
  induction left generalizing i balance with
  | zero => rfl
  | succ left ih =>
    have hnext := next_balance hr hmonthly hrepays
    rw [paymentRows, balancesBefore_cons, List.map_cons, List.map_cons, List.zipWith_cons_cons]
    simp only [hnext]
    rw [ih hrepays.next]

theorem balances_decrease :
    (balance :: (paymentRows monthly r firstDate i balance left).map (·.balance)).IsChain (· ≥ ·) := by
  induction left generalizing i balance with
  | zero => exact List.isChain_singleton _
  | succ left ih =>
    have hnext := next_balance hr hmonthly hrepays
    rw [paymentRows]
    simp only [hnext, List.map_cons, List.isChain_cons_cons]
    exact ⟨by linarith [hrepays.interest_le hr hmonthly], ih hrepays.next⟩

theorem last_balance :
    (balance :: (paymentRows monthly r firstDate i balance left).map (·.balance)).getLast? = some 0 := by
  induction left generalizing i balance with
  | zero => rw [hrepays.closed]; rfl
  | succ left ih =>
    have hnext := next_balance hr hmonthly hrepays
    rw [paymentRows]
    simp only [hnext, List.map_cons, List.getLast?_cons_cons]
    exact ih hrepays.next

theorem sum_principalPart :
    ((paymentRows monthly r firstDate i balance left).map (·.principalPart)).sum = balance := by
  induction left generalizing i balance with
  | zero => rw [hrepays.closed]; rfl
  | succ left ih =>
    have hnext := next_balance hr hmonthly hrepays
    rw [paymentRows]
    simp only [hnext, List.map_cons, List.sum_cons]
    rw [ih hrepays.next]
    ring

/-- No interest is paid exactly when the rate is 0 or nothing was owed. -/
theorem sum_interest :
    0 ≤ ((paymentRows monthly r firstDate i balance left).map (·.interestPart)).sum ∧
      (((paymentRows monthly r firstDate i balance left).map (·.interestPart)).sum = 0 ↔
        r = 0 ∨ balance = 0) := by
  induction left generalizing i balance with
  | zero => exact ⟨le_rfl, fun _ => Or.inr hrepays.closed, fun _ => rfl⟩
  | succ left ih =>
    have hnext := next_balance hr hmonthly hrepays
    obtain ⟨hrest, hzero⟩ := @ih _ (i + 1) hrepays.next
    have hfirst : 0 ≤ balance * r := mul_nonneg (hrepays.nonneg hr hmonthly) hr
    rw [paymentRows]
    simp only [hnext, List.map_cons, List.sum_cons]
    refine ⟨add_nonneg hfirst hrest, fun hsum => ?_, ?_⟩
    · have hproduct : balance * r = 0 := by linarith
      exact (mul_eq_zero.mp hproduct).symm
    · rintro (hrate | hdebt)
      · rw [hzero.mpr (Or.inl hrate), hrate, mul_zero, add_zero]
      · -- a debt of 0 has payments of 0, and stays 0
        have hpaid : monthly = 0 := by
          have hworth : monthly * annuityWorth r (left + 1) = 0 := by
            rw [← show balance * (1 + r) ^ (left + 1) = _ from hrepays, hdebt, zero_mul]
          exact (mul_eq_zero.mp hworth).resolve_right (annuityWorth_pos hr left.succ_pos).ne'
        rw [hzero.mpr (Or.inr (by rw [hdebt, hpaid]; ring)), hdebt, zero_mul, add_zero]

end

/-! The payment that the plan asks for repays its principal. -/

variable {input : InstallmentInput}

theorem monthly_repays (hmonths : 1 ≤ input.months) (hrate : 0 ≤ input.r) :
    Repays input.monthly input.r input.principal input.months.toNat := by
  have hleft : 0 < input.months.toNat := by omega
  have hcast : ((input.months.toNat : ℕ) : ℤ) = input.months := Int.toNat_of_nonneg (by omega)
  unfold InstallmentInput.monthly
  split_ifs with hpos
  · have hpow : (1 + input.r) ^ input.months = (1 + input.r) ^ input.months.toNat := by
      rw [← zpow_natCast, hcast]
    rw [hpow]
    exact repays_annuity hpos hleft
  · have hzero : input.r = 0 := le_antisymm (not_lt.mp hpos) hrate
    have hdivisor : (input.months : ℚ) = (input.months.toNat : ℚ) := by
      rw [← Int.cast_natCast, hcast]
    rw [hzero, hdivisor]
    exact repays_share hleft

theorem monthly_nonneg (hmonths : 1 ≤ input.months) (hrate : 0 ≤ input.r) (hdebt : 0 ≤ input.principal) :
    0 ≤ input.monthly := by
  have hworth := annuityWorth_pos hrate (show 0 < input.months.toNat by omega)
  have htotal : 0 ≤ input.monthly * annuityWorth input.r input.months.toNat := by
    rw [← show input.principal * (1 + input.r) ^ input.months.toNat = _ from monthly_repays hmonths hrate]
    positivity
  exact nonneg_of_mul_nonneg_left htotal hworth

/-- The plan closes the debt exactly. -/
structure ClosesDebt (input : InstallmentInput) (rows : List InstallmentRow) : Prop where
  length : (rows.length : ℤ) = input.months
  common : ∃ amount, ∀ row ∈ rows, row.amount = amount
  split : ∀ row ∈ rows, row.amount = row.interestPart + row.principalPart
  interest : rows.map (·.interestPart) = (balancesBefore input.principal rows).map (· * input.r)
  unclamped : rows.map (·.balance) =
    List.zipWith (· - ·) (balancesBefore input.principal rows) (rows.map (·.principalPart))
  decreasing : (input.principal :: rows.map (·.balance)).IsChain (· ≥ ·)
  principal : (rows.map (·.principalPart)).sum = input.principal
  closed : (rows.map (·.balance)).getLast? = some 0
  covered : input.principal ≤ (rows.map (·.amount)).sum
  exact_iff : (rows.map (·.amount)).sum = input.principal ↔ input.annualRatePct = 0 ∨ input.principal = 0

theorem sum_amount {rows : List InstallmentRow}
    (hsplit : ∀ row ∈ rows, row.amount = row.interestPart + row.principalPart) :
    (rows.map (·.amount)).sum = (rows.map (·.interestPart)).sum + (rows.map (·.principalPart)).sum := by
  rw [List.map_congr_left hsplit, List.sum_map_add]

theorem schedule_closes_debt (input : InstallmentInput) (htotal : 0 ≤ input.totalWithVat)
    (hprepay : 0 ≤ input.prepayPct ∧ input.prepayPct ≤ 100) (hrate : 0 ≤ input.annualRatePct)
    (hmonths : 1 ≤ input.months) : ClosesDebt input (installmentSchedule input) := by
  have hr : 0 ≤ input.r := by unfold InstallmentInput.r; positivity
  have hdebt : 0 ≤ input.principal := mul_nonneg htotal (by linarith [hprepay.2])
  have hrepays := monthly_repays hmonths hr
  have hmonthly := monthly_nonneg hmonths hr hdebt
  have hrows : installmentSchedule input =
      paymentRows input.monthly input.r input.firstDate 0 input.principal input.months.toNat :=
    if_neg (by omega)
  have hamounts := @amount_eq_monthly input.monthly input.r input.principal input.firstDate 0 input.months.toNat
  have hprincipal := @sum_principalPart _ _ _ input.firstDate 0 _ hr hmonthly hrepays
  have hinterest := @sum_interest _ _ _ input.firstDate 0 _ hr hmonthly hrepays
  have hsum := sum_amount fun row hrow => (hamounts row hrow).2
  rw [hrows]
  refine ⟨?_, ⟨_, fun row hrow => (hamounts row hrow).1⟩, fun row hrow => (hamounts row hrow).2, interest_eq,
    balance_eq hr hmonthly hrepays, balances_decrease hr hmonthly hrepays, hprincipal, ?_, ?_, ?_⟩
  · rw [length_paymentRows]
    omega
  · have hlast := @last_balance _ _ _ input.firstDate 0 _ hr hmonthly hrepays
    obtain ⟨left, hleft⟩ : ∃ left, input.months.toNat = left + 1 := ⟨input.months.toNat - 1, by omega⟩
    rw [hleft] at hlast ⊢
    rwa [paymentRows, List.map_cons, List.getLast?_cons_cons, ← List.map_cons, ← paymentRows] at hlast
  · rw [hsum, hprincipal]
    linarith [hinterest.1]
  · have hzero : input.annualRatePct = 0 ↔ input.r = 0 := by simp [InstallmentInput.r]
    rw [hsum, hprincipal, add_eq_right, hinterest.2, hzero]

/-- A loan of 1200 after a prepayment of a half, at 12 % a year for two months. -/
theorem schedule_of_two_months : ClosesDebt ⟨2400, 50, 2, 12, 0⟩ (installmentSchedule ⟨2400, 50, 2, 12, 0⟩) :=
  schedule_closes_debt ⟨2400, 50, 2, 12, 0⟩ (by norm_num) (by norm_num) (by norm_num) (by norm_num)

/-! The contract's schedule is made of these rows. -/

theorem due_amount_eq : (paymentRows monthly r firstDate i balance left).map (fun row => (row.due, row.amount)) =
    (List.range' i left).map fun k => (addMonths firstDate k, monthly) := by
  induction left generalizing i balance with
  | zero => rfl
  | succ left ih => rw [paymentRows, List.map_cons, ih, List.range'_succ, List.map_cons]

/-- With whole months, and powers that are exact on them. -/
theorem installmentSchedule_eq (env : Env) (hpow : env.pow (1 + input.r) input.months = (1 + input.r) ^ input.months) :
    Contracts.installmentSchedule env input.totalWithVat input.prepayPct input.months input.annualRatePct
        input.firstDate =
      (installmentSchedule input).map fun row => (row.due, row.amount) := by
  have hcall : Contracts.installmentSchedule env input.totalWithVat input.prepayPct input.months
      input.annualRatePct input.firstDate =
      (List.range input.months.toNat).map fun k => (addMonths input.firstDate k, input.monthly) := by
    unfold Contracts.installmentSchedule
    rw [Int.ceil_intCast]
    simp only [InstallmentInput.r] at hpow
    simp only [hpow]
    rfl
  rw [hcall, installmentSchedule]
  split_ifs with hmonths
  · rw [Int.toNat_of_nonpos hmonths]
    rfl
  · rw [due_amount_eq, List.range_eq_range']

end Mydon.Contracts.Annuity
