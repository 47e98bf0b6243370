import Mydon.Ledger.Amounts

/-! The reserve bounds the settlement. A reserve is made before the call, from the two
ceilings alone; the settlement prices what the provider reports. Each kind of input
token is priced at no more than the dearest input rate. -/

namespace Mydon.Ledger

theorem divideCeil_le_divideCeil {a b : ℕ} (h : a ≤ b) (denominator : ℕ) :
    divideCeil a denominator ≤ divideCeil b denominator := by
  unfold divideCeil
  by_cases ha : a = 0
  · simp [ha]
  · rw [if_neg ha, if_neg (by omega)]
    exact Nat.div_le_div_right (by omega)

theorem le_foldl_max (values : List ℕ) (m : ℕ) :
    m ≤ values.foldl (fun m value => if m < value then value else m) m ∧
      ∀ value ∈ values, value ≤ values.foldl (fun m value => if m < value then value else m) m := by
  induction values generalizing m with
  | nil => exact ⟨Nat.le_refl m, List.forall_mem_nil _⟩
  | cons value values ih =>
    obtain ⟨hm, hvalues⟩ := ih (if m < value then value else m)
    have hstep : m ≤ (if m < value then value else m) ∧ value ≤ (if m < value then value else m) := by
      split <;> omega
    refine ⟨hstep.1.trans hm, ?_⟩
    intro other hother
    rcases List.mem_cons.mp hother with rfl | hother
    · exact hstep.2.trans hm
    · exact hvalues other hother

theorem le_maxNat {value : ℕ} {values : List ℕ} (h : value ∈ values) : value ≤ maxNat values :=
  (le_foldl_max values 0).2 value h

namespace LedgerPriceSnapshot

variable (price : LedgerPriceSnapshot)

/-- The rate every input token is reserved at. -/
def inputRate : ℕ :=
  maxNat [price.inputUsdPerMtok, price.cacheReadUsdPerMtok, price.cacheWrite5mUsdPerMtok, price.cacheWrite1hUsdPerMtok]

theorem rates_le_inputRate : price.inputUsdPerMtok ≤ price.inputRate ∧ price.cacheReadUsdPerMtok ≤ price.inputRate ∧
    price.cacheWrite5mUsdPerMtok ≤ price.inputRate ∧ price.cacheWrite1hUsdPerMtok ≤ price.inputRate :=
  ⟨le_maxNat (by simp), le_maxNat (by simp), le_maxNat (by simp), le_maxNat (by simp)⟩

theorem cacheWrite_le_inputRate :
    maxNat [price.cacheWrite5mUsdPerMtok, price.cacheWrite1hUsdPerMtok] ≤ price.inputRate := by
  obtain ⟨-, -, h5m, h1h⟩ := price.rates_le_inputRate
  simp only [maxNat, List.foldl_cons, List.foldl_nil]
  split_ifs <;> omega

end LedgerPriceSnapshot

/-- Cache-creation tokens, as the usage reports them: split by lifetime, or in one number. -/
def TokenUsage.cacheCreationTokens (usage : TokenUsage) : ℕ :=
  if usage.cacheCreation5mInputTokens.isSome || usage.cacheCreation1hInputTokens.isSome then
    usage.cacheCreation5mInputTokens.getD 0 + usage.cacheCreation1hInputTokens.getD 0
  else usage.cacheCreationInputTokens.getD 0

/-- The reported usage keeps to the ceilings the reserve was made for. -/
structure TokenUsage.Within (usage : TokenUsage) (consumer : Consumer) (inputTokenCeiling outputTokenCeiling : ℕ) :
    Prop where
  input : usage.inputTokens + usage.cacheReadInputTokens.getD 0 + usage.cacheCreationTokens ≤
    billableInputTokenCeiling consumer inputTokenCeiling
  output : usage.outputTokens ≤ outputTokenCeiling

theorem cacheCreationCostNumerator_le {price : LedgerPriceSnapshot} {usage : TokenUsage} {cost : ℕ}
    (h : cacheCreationCostNumerator price usage = .ok cost) : cost ≤ price.inputRate * usage.cacheCreationTokens := by
  obtain ⟨-, -, h5m, h1h⟩ := price.rates_le_inputRate
  unfold cacheCreationCostNumerator at h
  unfold TokenUsage.cacheCreationTokens
  by_cases hsplit : (usage.cacheCreation5mInputTokens.isSome || usage.cacheCreation1hInputTokens.isSome) = true
  · simp only [hsplit, Bool.not_true, Bool.false_eq_true, if_false, if_true] at h ⊢
    split at h
    · cases h
    · obtain rfl := Except.ok.inj h
      rw [Nat.mul_add]
      exact Nat.add_le_add (Nat.mul_le_mul_right _ h5m) (Nat.mul_le_mul_right _ h1h)
  · simp only [Bool.eq_false_iff.mpr hsplit, Bool.not_false, if_true, Bool.false_eq_true, if_false] at h ⊢
    obtain rfl := Except.ok.inj h
    exact Nat.mul_le_mul_right _ price.cacheWrite_le_inputRate

/-- All the tokens at their own rates cost no more than the ceilings at the reserve's rates. -/
theorem numerator_le {price : LedgerPriceSnapshot} {usage : TokenUsage} {consumer : Consumer} {input output cost : ℕ}
    (hwithin : usage.Within consumer input output) (hcost : cost ≤ price.inputRate * usage.cacheCreationTokens) :
    price.inputUsdPerMtok * usage.inputTokens + price.outputUsdPerMtok * usage.outputTokens +
        price.cacheReadUsdPerMtok * usage.cacheReadInputTokens.getD 0 + cost ≤
      price.inputRate * billableInputTokenCeiling consumer input + price.outputUsdPerMtok * output := by
  obtain ⟨hinput, hread, -, -⟩ := price.rates_le_inputRate
  have hin := Nat.mul_le_mul_right usage.inputTokens hinput
  have hcache := Nat.mul_le_mul_right (usage.cacheReadInputTokens.getD 0) hread
  have hout := Nat.mul_le_mul_left price.outputUsdPerMtok hwithin.output
  have hall := Nat.mul_le_mul_left price.inputRate hwithin.input
  rw [Nat.mul_add, Nat.mul_add] at hall
  omega

variable {host : Js.Host} {price : LedgerPriceSnapshot} {consumer : Consumer} {input output : ℕ} {usage : TokenUsage}
  {reported : Option ℚ}

/-- A token price always has a reserve, and its settlement within the ceilings is bounded by it. -/
theorem settlementCostNano_le_reserve (htokens : price.settlementKind = .tokens)
    (hwithin : usage.Within consumer input output) :
    ∃ reserve, reserveCostNano price consumer input output = .ok reserve ∧
      ∀ cost, settlementCostNano host price consumer (some usage) reported = .ok cost → ∃ c, cost = some c ∧ c ≤ reserve := by
  unfold reserveCostNano settlementCostNano
  by_cases hsubscription : price.billingKind = .subscription
  · simp only [hsubscription, if_true]
    refine ⟨0, rfl, ?_⟩
    intro cost hcost
    exact ⟨0, (Except.ok.inj hcost).symm, Nat.le_refl 0⟩
  · simp only [hsubscription, if_false, htokens, reduceCtorEq]
    refine ⟨_, rfl, ?_⟩
    intro cost hcost
    obtain ⟨creation, hcreation, hcost⟩ := Js.bind_eq_ok.mp hcost
    obtain rfl := Except.ok.inj hcost
    refine ⟨_, rfl, ?_⟩
    have hnumerator := numerator_le hwithin (cacheCreationCostNumerator_le hcreation)
    exact Nat.add_le_add_right (Nat.add_le_add_right (divideCeil_le_divideCeil hnumerator _) _) _

/-- The reserve of a route is no less than the reserve at any of its active prices. -/
theorem reserveCostNano_le_route {requested : LedgerPriceSnapshot} {active : List LedgerPriceSnapshot} {route : ℕ}
    (hrouted : consumer = .agents ∨ consumer = .embeddings) (hprice : price ∈ active)
    (hroute : reserveProviderRouteCostNano requested active consumer input output = .ok route) :
    ∃ reserve, reserveCostNano price consumer input output = .ok reserve ∧ reserve ≤ route := by
  unfold reserveProviderRouteCostNano at hroute
  simp only [hrouted, if_true] at hroute
  obtain ⟨reserves, hreserves, rfl⟩ := Js.map_eq_ok.mp hroute
  obtain ⟨reserve, hmem, hreserve⟩ := (Js.mapM_eq_ok hreserves).2 price hprice
  exact ⟨reserve, hreserve, le_maxNat hmem⟩

/-- The reserve bounds the settlement, at the requested price and at every price the route may
be settled at. -/
theorem settlement_within_reserve (host : Js.Host) (consumer : Consumer) (inputTokenCeiling outputTokenCeiling : ℕ)
    (usage : TokenUsage) (reported : Option ℚ) (hwithin : usage.Within consumer inputTokenCeiling outputTokenCeiling) :
    (∀ price : LedgerPriceSnapshot, price.settlementKind = .tokens →
      ∃ reserve, reserveCostNano price consumer inputTokenCeiling outputTokenCeiling = .ok reserve ∧
        ∀ cost, settlementCostNano host price consumer (some usage) reported = .ok cost →
          ∃ c, cost = some c ∧ c ≤ reserve) ∧
    (∀ (requestedPrice : LedgerPriceSnapshot) (activeProviderPrices : List LedgerPriceSnapshot) (reserve : ℕ),
      consumer = .agents ∨ consumer = .embeddings →
      reserveProviderRouteCostNano requestedPrice activeProviderPrices consumer inputTokenCeiling outputTokenCeiling =
        .ok reserve →
      ∀ price ∈ activeProviderPrices, price.settlementKind = .tokens →
        ∀ cost, settlementCostNano host price consumer (some usage) reported = .ok cost →
          ∃ c, cost = some c ∧ c ≤ reserve) := by
  refine ⟨fun price htokens => settlementCostNano_le_reserve htokens hwithin, ?_⟩
  intro requestedPrice activeProviderPrices route hrouted hroute price hprice htokens cost hcost
  obtain ⟨reserve, hreserve, hle⟩ := reserveCostNano_le_route hrouted hprice hroute
  obtain ⟨_, hreserve', hbound⟩ := @settlementCostNano_le_reserve host _ _ _ _ _ reported htokens hwithin
  obtain rfl := Except.ok.inj (hreserve.symm.trans hreserve')
  obtain ⟨c, hc, hcle⟩ := hbound cost hcost
  exact ⟨c, hc, hcle.trans hle⟩

/-- A price whose cache writes are the dearest input, and a usage that fills its ceilings. -/
def cachePrice : LedgerPriceSnapshot :=
  ⟨"anthropic", "sonnet", .metered, .tokens, 3000000000, 15000000000, 300000000, 3750000000, 6000000000, 0, none, 0, 0⟩

def cachedUsage : TokenUsage := ⟨1, 1, some 1, some 3, some 1, some 2, none⟩

theorem settlement_within_reserve_cached :
    ∃ reserve, reserveCostNano cachePrice .agents 5 1 = .ok reserve ∧
      ∀ cost, settlementCostNano plainHost cachePrice .agents (some cachedUsage) none = .ok cost →
        ∃ c, cost = some c ∧ c ≤ reserve :=
  (settlement_within_reserve plainHost .agents 5 1 cachedUsage none ⟨by decide, by decide⟩).1 cachePrice rfl

end Mydon.Ledger
