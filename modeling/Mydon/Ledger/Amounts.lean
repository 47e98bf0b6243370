import Mathlib.Algebra.Order.Archimedean.Basic
import Mydon.Js.Trim
import Mydon.Ledger.Money

/-! Decimal texts and nano-USD. A text is cut at its point and recombined from digits;
here its value is a rational number, and both roundings are compared with that number. -/

namespace Mydon.Ledger

theorem digitsNat_eq (cs : List Char) : digitsNat cs = Nat.ofDigitChars 10 cs 0 := by
  rw [Nat.ofDigitChars_eq_foldl]
  unfold digitsNat
  congr 1
  funext n c
  rw [Nat.mul_comm]
  rfl

/-! Texts of digits. -/

theorem isDigit_of_isDigit {c : Char} (h : c.isDigit = true) : Js.isDigit c = true := by
  simp only [Char.isDigit, Bool.and_eq_true, decide_eq_true_eq] at h
  simp only [Js.isDigit, Bool.and_eq_true, decide_eq_true_eq]
  exact h

theorem digit_eq_zero_iff {c : Char} (h : Js.isDigit c = true) : c.toNat - 48 = 0 ↔ c = '0' := by
  have := Js.digit_bounds h
  constructor
  · intro hzero
    exact Char.toNat_inj.mp (show c.toNat = 48 by omega)
  · rintro rfl
    rfl

def AllDigits (cs : List Char) : Prop := ∀ c ∈ cs, Js.isDigit c = true

theorem AllDigits.cons {c : Char} {cs : List Char} (h : AllDigits (c :: cs)) :
    Js.isDigit c = true ∧ AllDigits cs :=
  ⟨h c List.mem_cons_self, fun d hd => h d (List.mem_cons_of_mem c hd)⟩

theorem AllDigits.append {cs ds : List Char} (h : AllDigits cs) (h' : AllDigits ds) : AllDigits (cs ++ ds) := by
  intro c hc
  rcases List.mem_append.mp hc with hc | hc
  · exact h c hc
  · exact h' c hc

theorem allDigits_toDigits (n : ℕ) : AllDigits (Nat.toDigits 10 n) :=
  fun _ hc => isDigit_of_isDigit (Nat.isDigit_of_mem_toDigits (by decide) (by decide) hc)

theorem allDigits_replicate (n : ℕ) : AllDigits (List.replicate n '0') := by
  intro c hc
  rw [List.eq_of_mem_replicate hc]
  rfl

theorem ofDigitChars_cons_zero (c : Char) (cs : List Char) :
    Nat.ofDigitChars 10 (c :: cs) 0 = 10 ^ cs.length * (c.toNat - 48) + Nat.ofDigitChars 10 cs 0 := by
  rw [Nat.ofDigitChars_cons, Nat.ofDigitChars_eq_ofDigitChars_zero, Nat.mul_zero, Nat.zero_add]
  rfl

theorem ofDigitChars_append_zero (cs ds : List Char) :
    Nat.ofDigitChars 10 (cs ++ ds) 0 = 10 ^ ds.length * Nat.ofDigitChars 10 cs 0 + Nat.ofDigitChars 10 ds 0 := by
  rw [Nat.ofDigitChars_append, Nat.ofDigitChars_eq_ofDigitChars_zero]

theorem ofDigitChars_lt {cs : List Char} (h : AllDigits cs) : Nat.ofDigitChars 10 cs 0 < 10 ^ cs.length := by
  induction cs with
  | nil => simp
  | cons c cs ih =>
    obtain ⟨hc, hcs⟩ := h.cons
    have hdigit := Js.digit_bounds hc
    have hlt := ih hcs
    rw [ofDigitChars_cons_zero, List.length_cons, Nat.pow_succ]
    have hle : 10 ^ cs.length * (c.toNat - 48) ≤ 10 ^ cs.length * 9 := Nat.mul_le_mul_left _ (by omega)
    omega

theorem ofDigitChars_eq_zero_iff {cs : List Char} (h : AllDigits cs) :
    Nat.ofDigitChars 10 cs 0 = 0 ↔ ∀ c ∈ cs, c = '0' := by
  induction cs with
  | nil => simp
  | cons c cs ih =>
    obtain ⟨hc, hcs⟩ := h.cons
    rw [ofDigitChars_cons_zero, Nat.add_eq_zero_iff, Nat.mul_eq_zero, digit_eq_zero_iff hc, ih hcs,
      List.forall_mem_cons]
    simp

/-! Reading a plain decimal text. -/

theorem replaceFirst_eq_self {a b : Char} {cs : List Char} (h : a ∉ cs) : Js.replaceFirst a b cs = cs := by
  induction cs with
  | nil => rfl
  | cons c cs ih =>
    rw [List.mem_cons, not_or] at h
    rw [Js.replaceFirst, if_neg fun hc => h.1 hc.symm, ih h.2]

theorem matchDecimal_whole {whole : List Char} (hne : whole ≠ []) (hwhole : AllDigits whole) :
    matchDecimal whole = some (whole, []) := by
  obtain ⟨htake, hdrop⟩ := @Js.span_append _ whole [] hwhole (by simp)
  rw [List.append_nil] at htake hdrop
  unfold matchDecimal
  simp only [htake, hdrop, hne, if_false]

theorem matchDecimal_point {whole fraction : List Char} (hne : whole ≠ []) (hwhole : AllDigits whole)
    (hfraction : AllDigits fraction) : matchDecimal (whole ++ '.' :: fraction) = some (whole, fraction) := by
  obtain ⟨htake, hdrop⟩ := @Js.span_append _ whole ('.' :: fraction) hwhole (by simp [Js.isDigit])
  unfold matchDecimal
  have hall : fraction.all Js.isDigit = true := List.all_eq_true.mpr hfraction
  simp only [htake, hdrop, hne, hall, if_false, true_and, if_true]

/-- `digits` or `digits.digits`, cut at the point. -/
structure IsDecimal (s : String) (whole fraction : List Char) : Prop where
  text : s.toList = whole ++ '.' :: fraction ∨ s.toList = whole ∧ fraction = []
  nonempty : whole ≠ []
  whole : AllDigits whole
  fraction : AllDigits fraction

theorem IsDecimal.matchDecimal {s : String} {whole fraction : List Char} (h : IsDecimal s whole fraction) :
    Ledger.matchDecimal (Js.replaceFirst ',' '.' (Js.trimChars s.toList)) = some (whole, fraction) := by
  have hchar : ∀ c ∈ s.toList, Js.isDigit c = true ∨ c = '.' := by
    intro c hc
    rcases h.text with ht | ⟨ht, -⟩
    · rw [ht] at hc
      rcases List.mem_append.mp hc with hc | hc
      · exact .inl (h.whole c hc)
      · rcases List.mem_cons.mp hc with rfl | hc
        · exact .inr rfl
        · exact .inl (h.fraction c hc)
    · exact .inl (h.whole c (ht ▸ hc))
  have hspace : ∀ c ∈ s.toList, Js.isSpace c = false := by
    intro c hc
    rcases hchar c hc with hd | rfl
    · exact Js.digit_not_space hd
    · rfl
  have hcomma : ',' ∉ s.toList := by
    intro hc
    rcases hchar _ hc with hd | hd
    · exact absurd hd (by decide)
    · exact absurd hd (by decide)
  rw [Js.trimChars_eq_self hspace, replaceFirst_eq_self hcomma]
  rcases h.text with ht | ⟨ht, rfl⟩
  · rw [ht]
    exact matchDecimal_point h.nonempty h.whole h.fraction
  · rw [ht]
    exact matchDecimal_whole h.nonempty h.whole

variable {host : Js.Host} {s : String} {whole fraction : List Char}

theorem IsDecimal.usdToNano (h : IsDecimal s whole fraction) (rounding : Rounding) :
    Ledger.usdToNano host s rounding = .ok (decimalNano rounding (whole, fraction)) := by
  unfold Ledger.usdToNano
  simp only [h.matchDecimal]

/-! The value of a decimal text. -/

def decimalValue (whole fraction : List Char) : ℚ :=
  Nat.ofDigitChars 10 whole 0 + (Nat.ofDigitChars 10 fraction 0 : ℚ) / 10 ^ fraction.length

/-- The nano-USD of the text without what stands after the ninth place. -/
def keptNano (whole fraction : List Char) : ℕ :=
  digitsNat whole * NANO_USD + digitsNat (fraction.take 9 ++ List.replicate (9 - fraction.length) '0')

/-- What stands after the ninth place, in nano-USD. -/
def tailNano (fraction : List Char) : ℚ :=
  (Nat.ofDigitChars 10 (fraction.drop 9) 0 : ℚ) / 10 ^ (fraction.drop 9).length

theorem decimalValue_nano (whole fraction : List Char) :
    decimalValue whole fraction * 10 ^ 9 = keptNano whole fraction + tailNano fraction := by
  unfold decimalValue keptNano tailNano NANO_USD
  rw [digitsNat_eq, digitsNat_eq, ofDigitChars_append_zero, Nat.ofDigitChars_replicate_zero, List.length_replicate,
    Nat.mul_zero, Nat.add_zero]
  by_cases hshort : fraction.length ≤ 9
  · have h9 : (10 : ℚ) ^ 9 = 10 ^ fraction.length * 10 ^ (9 - fraction.length) := by
      rw [← pow_add, Nat.add_sub_cancel' hshort]
    have hone : (10 : ℚ) ^ 9 = 1000000000 := by norm_num
    rw [List.take_of_length_le hshort, List.drop_eq_nil_of_le hshort]
    push_cast
    rw [Nat.ofDigitChars_nil, Nat.cast_zero, zero_div, add_zero, add_mul, ← hone, h9]
    field_simp
  · obtain ⟨more, hmore⟩ : ∃ more, fraction.length = 9 + more := ⟨fraction.length - 9, by omega⟩
    have hsplit : Nat.ofDigitChars 10 fraction 0 =
        10 ^ more * Nat.ofDigitChars 10 (fraction.take 9) 0 + Nat.ofDigitChars 10 (fraction.drop 9) 0 := by
      conv_lhs => rw [← List.take_append_drop 9 fraction]
      rw [ofDigitChars_append_zero, List.length_drop, hmore, Nat.add_sub_cancel_left]
    rw [List.length_drop, hmore, Nat.add_sub_cancel_left, hsplit, show 9 - (9 + more) = 0 by omega]
    push_cast
    rw [pow_add]
    field_simp
    ring

theorem tailNano_bounds (h : AllDigits fraction) :
    0 ≤ tailNano fraction ∧ tailNano fraction < 1 ∧ (tailNano fraction = 0 ↔ ∀ c ∈ fraction.drop 9, c = '0') := by
  have hdrop : AllDigits (fraction.drop 9) := fun c hc => h c (List.mem_of_mem_drop hc)
  have hpos : (0 : ℚ) < 10 ^ (fraction.drop 9).length := by positivity
  unfold tailNano
  refine ⟨by positivity, ?_, ?_⟩
  · rw [div_lt_one hpos]
    exact_mod_cast ofDigitChars_lt hdrop
  · rw [div_eq_zero_iff, or_iff_left hpos.ne', Nat.cast_eq_zero, ofDigitChars_eq_zero_iff hdrop]

/-- The bump is made exactly when something stands after the ninth place. -/
theorem decimalNano_eq (h : AllDigits fraction) (rounding : Rounding) :
    decimalNano rounding (whole, fraction) =
      keptNano whole fraction + if rounding = .ceil ∧ tailNano fraction ≠ 0 then 1 else 0 := by
  have htail : (fraction.drop 9).any (· ≠ '0') = true ↔ tailNano fraction ≠ 0 := by
    rw [Ne, (tailNano_bounds h).2.2]
    simp
  unfold decimalNano keptNano
  simp only [htail]

theorem decimalNano_floor (h : AllDigits fraction) :
    IsGreatest {k : ℤ | (k : ℚ) ≤ decimalValue whole fraction * 10 ^ 9} (decimalNano .floor (whole, fraction)) := by
  obtain ⟨hlo, hhi, -⟩ := tailNano_bounds h
  rw [decimalNano_eq h, decimalValue_nano, if_neg (by simp), Nat.add_zero]
  refine ⟨?_, ?_⟩
  · show ((keptNano whole fraction : ℤ) : ℚ) ≤ _
    push_cast
    linarith
  · intro k hk
    have hk' : (k : ℚ) ≤ keptNano whole fraction + tailNano fraction := hk
    have hlt : (k : ℚ) < ((keptNano whole fraction + 1 : ℤ) : ℚ) := by
      push_cast
      linarith
    have := Int.cast_lt.mp hlt
    omega

theorem decimalNano_ceil (h : AllDigits fraction) :
    IsLeast {k : ℤ | decimalValue whole fraction * 10 ^ 9 ≤ (k : ℚ)} (decimalNano .ceil (whole, fraction)) := by
  obtain ⟨hlo, hhi, -⟩ := tailNano_bounds h
  rw [decimalNano_eq h, decimalValue_nano]
  by_cases hzero : tailNano fraction = 0
  · rw [if_neg fun hc => hc.2 hzero, hzero, add_zero, Nat.add_zero]
    refine ⟨?_, ?_⟩
    · show (keptNano whole fraction : ℚ) ≤ ((keptNano whole fraction : ℤ) : ℚ)
      push_cast
      exact le_refl _
    · intro k hk
      have hk' : (keptNano whole fraction : ℚ) ≤ k := hk
      exact_mod_cast hk'
  · have hpos : 0 < tailNano fraction := lt_of_le_of_ne hlo (Ne.symm hzero)
    rw [if_pos ⟨rfl, hzero⟩]
    refine ⟨?_, ?_⟩
    · show _ ≤ (((keptNano whole fraction + 1 : ℕ) : ℤ) : ℚ)
      push_cast
      linarith
    · intro k hk
      have hk' : (keptNano whole fraction : ℚ) + tailNano fraction ≤ k := hk
      have hlt : ((keptNano whole fraction : ℤ) : ℚ) < k := by
        push_cast
        linarith
      have := Int.cast_lt.mp hlt
      push_cast
      omega

/-! Printing. -/

theorem nanoToUsd_toList (n : ℕ) :
    (nanoToUsd n).toList = Nat.toDigits 10 (n / NANO_USD) ++ '.' ::
      (List.replicate (9 - (Nat.toDigits 10 (n % NANO_USD)).length) '0' ++ Nat.toDigits 10 (n % NANO_USD)) := by
  unfold nanoToUsd Clock.padStart
  simp only [Int.toNat_natCast, String.toList_append, String.toList_ofList, Nat.toString_eq_repr, Nat.toList_repr,
    String.length]
  simp

theorem nanoToUsd_isDecimal (n : ℕ) : ∃ fraction,
    IsDecimal (nanoToUsd n) (Nat.toDigits 10 (n / NANO_USD)) fraction ∧ fraction.length = 9 ∧
      Nat.ofDigitChars 10 fraction 0 = n % NANO_USD := by
  refine ⟨_, ⟨.inl (nanoToUsd_toList n), ?_, allDigits_toDigits _,
    (allDigits_replicate _).append (allDigits_toDigits _)⟩, ?_, ?_⟩
  · exact List.ne_nil_of_length_pos Nat.length_toDigits_pos
  · have hlt : n % NANO_USD < 10 ^ 9 := Nat.mod_lt n (by decide)
    have hle := (Nat.length_toDigits_le_iff (by decide : 1 < 10) (by decide : 0 < 9)).mpr hlt
    rw [List.length_append, List.length_replicate]
    omega
  · rw [Nat.ofDigitChars_append, Nat.ofDigitChars_replicate_zero, Nat.mul_zero, Nat.ofDigitChars_ten_toDigits]

theorem usdToNano_nanoToUsd (host : Js.Host) (n : ℕ) (rounding : Rounding) :
    usdToNano host (nanoToUsd n) rounding = .ok n := by
  obtain ⟨fraction, hdecimal, hlength, hvalue⟩ := nanoToUsd_isDecimal n
  have hdrop : fraction.drop 9 = [] := List.drop_eq_nil_of_le (by omega)
  have htail : tailNano fraction = 0 := by simp [tailNano, hdrop]
  rw [hdecimal.usdToNano, decimalNano_eq hdecimal.fraction, if_neg fun hc => hc.2 htail]
  unfold keptNano
  rw [digitsNat_eq, Nat.ofDigitChars_ten_toDigits, hlength, Nat.sub_self, List.replicate_zero, List.append_nil,
    List.take_of_length_le (by omega), digitsNat_eq, hvalue, Nat.add_zero, Nat.div_add_mod']

/-- What the two roundings make of a decimal text. -/
structure RoundingLaw (host : Js.Host) (s : String) (whole fraction : List Char) (lo hi : ℕ) : Prop where
  floor : usdToNano host s .floor = .ok lo
  ceil : usdToNano host s .ceil = .ok hi
  greatest : IsGreatest {k : ℤ | (k : ℚ) ≤ decimalValue whole fraction * 10 ^ 9} lo
  least : IsLeast {k : ℤ | decimalValue whole fraction * 10 ^ 9 ≤ (k : ℚ)} hi
  close : lo ≤ hi ∧ hi ≤ lo + 1
  agree : lo = hi ↔ ∀ c ∈ fraction.drop 9, c = '0'

theorem roundingLaw (h : IsDecimal s whole fraction) :
    RoundingLaw host s whole fraction (decimalNano .floor (whole, fraction)) (decimalNano .ceil (whole, fraction)) := by
  refine ⟨h.usdToNano _, h.usdToNano _, decimalNano_floor h.fraction, decimalNano_ceil h.fraction, ?_, ?_⟩
  · rw [decimalNano_eq h.fraction, decimalNano_eq h.fraction, if_neg (by simp)]
    split_ifs <;> omega
  · rw [decimalNano_eq h.fraction, decimalNano_eq h.fraction, if_neg (by simp), ← (tailNano_bounds h.fraction).2.2]
    by_cases hzero : tailNano fraction = 0
    · simp [hzero]
    · simp [hzero]

/-- Printing is undone by reading, and reading a decimal text rounds its value. -/
theorem usdToNano_laws (host : Js.Host) :
    (∀ (n : ℕ) (rounding : Rounding), usdToNano host (nanoToUsd n) rounding = .ok n) ∧
    (∀ (s : String) (whole fraction : List Char), IsDecimal s whole fraction →
      ∃ lo hi, RoundingLaw host s whole fraction lo hi) :=
  ⟨usdToNano_nanoToUsd host, fun _ _ _ h => ⟨_, _, roundingLaw h⟩⟩

def plainHost : Js.Host := ⟨fun s => s, fun _ => none, fun _ => "", fun _ => "", fun _ _ => 0, fun _ => ""⟩

theorem usdToNano_laws_tenthPlace :
    ∃ lo hi, RoundingLaw plainHost "2.0000000001" ['2'] (List.replicate 9 '0' ++ ['1']) lo hi :=
  (usdToNano_laws plainHost).2 "2.0000000001" _ _
    ⟨.inl (by decide), by decide, List.all_eq_true.mp (by decide), List.all_eq_true.mp (by decide)⟩

end Mydon.Ledger
