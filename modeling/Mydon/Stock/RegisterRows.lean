import Mathlib.Data.List.TakeWhile
import Mydon.Lib.ItemByItem
import Mydon.Stock.PurchaseRegister

/-! When the rows of the register carry real days and the tax number of their own supplier. -/

namespace Mydon.Stock

variable {host : Js.Host} {today : String} {first : ℤ} {table : List (List String)}

def isItem (host : Js.Host) (row : List String) : Bool :=
  (cellOrNull row COL.name).isSome &&
    ((parseAmount host (rawCell row COL.qty)).isSome || (parseAmount host (rawCell row COL.costGross)).isSome)

/-- The rows with a name and a readable quantity or cost. -/
def items (host : Js.Host) (table : List (List String)) : List (List String × ℕ) :=
  table.zipIdx.filter fun e => isItem host e.1

/-- The supplier that a row is of. -/
def supplierAt (host : Js.Host) (table : List (List String)) (i : ℕ) : Option String :=
  lastOf (textCell host COL.supplier) (table.take (i + 1))

/-- The tax number of row `i` is written in row `j`. -/
def InnWritten (host : Js.Host) (table : List (List String)) (i j : ℕ) : Prop :=
  j ≤ i ∧ (textCell host COL.inn (table.getD j [])).isSome ∧
    ∀ k, j < k → k ≤ i → textCell host COL.inn (table.getD k []) = none

structure RowRight (host : Js.Host) (table : List (List String)) (first : ℤ) (e : List String × ℕ) (r : RegisterRow) : Prop where
  fileRow : r.fileRow = e.2 + first
  group : r.group = lastOf (textCell host COL.group) (table.take (e.2 + 1))
  year : r.year = lastOf (yearCell host) (table.take (e.2 + 1))
  supplier : r.supplier = (lastOf (textCell host COL.supplier) (table.take (e.2 + 1))).getD ""
  inn : r.inn = lastOf (textCell host COL.inn) (table.take (e.2 + 1))
  realDay : ∀ day, r.receivedOn = some day → Clock.IsDayText day
  dateProblem : r.dateProblem = none ↔ r.receivedOn ≠ none
  ownInn : ∀ j, InnWritten host table e.2 j → ∀ s, supplierAt host table j = some s → r.supplier = s

/-- One row for each item of the table, in order. -/
def RegisterRight (host : Js.Host) (today : String) (first : ℤ) (table : List (List String)) : Prop :=
  List.Forall₂ (RowRight host table first) (items host table) (parseRegisterRows host today first table)

/-! The condition. -/

/-- The day that the row's invoice names, or else its plausible pay date, is one that the calendar has. -/
def DayExists (today : String) (row : List String) : Prop :=
  match (cellOrNull row COL.invoice).bind invoiceMatch with
  | some (_, d, mo, y) => Clock.Exists (Clock.digitsValue y) (Clock.digitsValue mo) (Clock.digitsValue d)
  | none => ∀ raw ∈ cellOrNull row COL.payDate, ∀ m ∈ isoMatch raw, Js.before today raw = false →
      Clock.Exists (Clock.digitsValue m.1) (Clock.digitsValue m.2.1) (Clock.digitsValue m.2.2)

/-- Between the row of its tax number and an item, no other supplier is named last. -/
def SupplierKept (host : Js.Host) (table : List (List String)) (i : ℕ) : Prop :=
  ∀ j, InnWritten host table i j → ∀ s, supplierAt host table j = some s →
    ∀ s', lastOf (textCell host COL.supplier) ((table.take (i + 1)).drop (j + 1)) = some s' → s' = s

def RegisterClear (host : Js.Host) (today : String) (table : List (List String)) : Prop :=
  ∀ e ∈ items host table, DayExists today e.1 ∧ SupplierKept host table e.2

/-! The digits of the dates. -/

theorem shortNumber_digits {cs d rest : List Char} (h : shortNumber cs = some (d, rest)) :
    (d.length = 1 ∨ d.length = 2) ∧ ∀ c ∈ d, Js.isDigit c = true := by
  have hdigits : ∀ c ∈ cs.takeWhile Js.isDigit, Js.isDigit c = true := fun c hc => List.mem_takeWhile_imp hc
  unfold shortNumber at h
  split at h
  · rename_i c rest' htake _
    cases h
    exact ⟨.inl rfl, htake ▸ hdigits⟩
  · rename_i c c' rest' htake _
    cases h
    exact ⟨.inr rfl, htake ▸ hdigits⟩
  · cases h

/-- What an invoice names: digits in the places of a date. -/
structure DateDigits (d mo y : List Char) : Prop where
  day : d.length = 1 ∨ d.length = 2
  month : mo.length = 1 ∨ mo.length = 2
  year : y.length = 4
  digits : (∀ c ∈ d, Js.isDigit c = true) ∧ (∀ c ∈ mo, Js.isDigit c = true) ∧ ∀ c ∈ y, Js.isDigit c = true

theorem dayMonthYear_digits {cs d mo y : List Char} (h : dayMonthYear cs = some (d, mo, y)) : DateDigits d mo y := by
  unfold dayMonthYear at h
  rw [Option.bind_eq_bind, Option.bind_eq_some_iff] at h
  obtain ⟨⟨d', rest⟩, hday, h⟩ := h
  rw [Option.bind_eq_some_iff] at h
  obtain ⟨⟨mo', y'⟩, hmonth, h⟩ := h
  dsimp only at h
  split_ifs at h with hyear
  cases h
  obtain ⟨hd, hd'⟩ := shortNumber_digits hday
  obtain ⟨hm, hm'⟩ := shortNumber_digits hmonth
  exact ⟨hd, hm, hyear.1, hd', hm', List.all_eq_true.mp hyear.2⟩

theorem invoiceTail_digits {cs d mo y : List Char} (h : invoiceTail cs = some (d, mo, y)) : DateDigits d mo y := by
  unfold invoiceTail at h
  rw [Option.bind_eq_bind, Option.bind_eq_some_iff] at h
  obtain ⟨rest, -, h⟩ := h
  split at h
  · rw [Option.bind_eq_some_iff] at h
    obtain ⟨rest, -, h⟩ := h
    exact dayMonthYear_digits h
  · cases h

theorem invoiceBody_digits {cs no d mo y : List Char} (h : invoiceBody cs = some (no, d, mo, y)) : DateDigits d mo y := by
  induction cs generalizing no with
  | nil => cases h
  | cons c cs ih =>
    rw [invoiceBody] at h
    split_ifs at h
    rcases htail : invoiceTail cs with _ | ⟨d', mo', y'⟩
    · rw [htail] at h
      obtain ⟨⟨no', date⟩, hbody, heq⟩ := Option.map_eq_some_iff.mp h
      cases heq
      exact ih hbody
    · rw [htail] at h
      cases h
      exact invoiceTail_digits htail

theorem invoiceSpaced_digits {cs no d mo y : List Char} (h : invoiceSpaced cs = some (no, d, mo, y)) : DateDigits d mo y := by
  induction cs generalizing no with
  | nil => cases h
  | cons c cs ih =>
    rw [invoiceSpaced] at h
    split_ifs at h
    · rcases Option.or_eq_some_iff.mp h with hrest | ⟨-, hbody⟩
      · exact ih hrest
      · exact invoiceBody_digits hbody
    · exact invoiceBody_digits h

theorem invoiceMatch_digits {raw : String} {no d mo y : List Char} (h : invoiceMatch raw = some (no, d, mo, y)) :
    DateDigits d mo y := by
  unfold invoiceMatch at h
  split at h
  · rcases Option.or_eq_some_iff.mp h with hrest | ⟨-, hrest⟩
    · exact invoiceSpaced_digits hrest
    · exact invoiceSpaced_digits hrest
  · exact invoiceSpaced_digits h

theorem padTwo_spec {cs : List Char} (h : cs.length = 1 ∨ cs.length = 2) (hcs : ∀ c ∈ cs, Js.isDigit c = true) :
    (padTwo cs).length = 2 ∧ (∀ c ∈ padTwo cs, Js.isDigit c = true) ∧ Clock.digitsValue (padTwo cs) = Clock.digitsValue cs := by
  unfold padTwo Clock.digitsValue
  refine ⟨?_, ?_, ?_⟩
  · rw [List.length_append, List.length_replicate]
    omega
  · intro c hc
    rcases List.mem_append.mp hc with hzero | hc
    · rw [List.eq_of_mem_replicate hzero]
      decide
    · exact hcs c hc
  · rw [Nat.ofDigitChars_append, Nat.ofDigitChars_replicate_zero, Nat.mul_zero]

theorem isDayText_invoice {d mo y : List Char} (h : DateDigits d mo y) :
    Clock.IsDayText (String.ofList (y ++ '-' :: (padTwo mo ++ '-' :: padTwo d))) ↔
      Clock.Exists (Clock.digitsValue y) (Clock.digitsValue mo) (Clock.digitsValue d) := by
  obtain ⟨hday, hmonth, hyear⟩ := h.digits
  obtain ⟨hd, hd', hdv⟩ := padTwo_spec h.day hday
  obtain ⟨hm, hm', hmv⟩ := padTwo_spec h.month hmonth
  rw [Clock.isDayText_iff h.year hm hd hyear hm' hd', hdv, hmv]

theorem isDayText_iso {raw : String} {y mo d : List Char} (h : isoMatch raw = some (y, mo, d)) :
    Clock.IsDayText raw ↔ Clock.Exists (Clock.digitsValue y) (Clock.digitsValue mo) (Clock.digitsValue d) := by
  unfold isoMatch at h
  split at h
  · rename_i a b c e f g i j hlist
    split_ifs at h with hdigits
    cases h
    simp only [List.all_cons, List.all_nil, Bool.and_true, Bool.and_eq_true] at hdigits
    have hraw : raw = String.ofList ([a, b, c, e] ++ '-' :: ([f, g] ++ '-' :: [i, j])) := by
      rw [← String.ofList_toList (s := raw), hlist]
      rfl
    obtain ⟨ha, hb, hc, he, hf, hg, hi, hj⟩ := hdigits
    rw [hraw]
    apply Clock.isDayText_iff rfl rfl rfl
    · simp [ha, hb, hc, he]
    · simp [hf, hg]
    · simp [hi, hj]
  · cases h

/-! The rows. -/

theorem registerRow_isSome (d : Dragged) (row : List String) (i : ℕ) :
    (registerRow host today first d row i).isSome = isItem host row := by
  unfold registerRow isItem
  rcases cellOrNull row COL.name with _ | name
  · rfl
  · rw [Option.bind_some, Option.isSome_some, Bool.true_and]
    rcases (parseAmount host (rawCell row COL.qty)).isSome <;> rcases (parseAmount host (rawCell row COL.costGross)).isSome <;> rfl

/-- What the row of an item holds of the date and of the cells above it. -/
structure RowFrom (today : String) (first : ℤ) (d : Dragged) (row : List String) (i : ℕ) (r : RegisterRow) : Prop where
  fileRow : r.fileRow = i + first
  group : r.group = d.group
  year : r.year = d.year
  supplier : r.supplier = d.supplier.getD ""
  inn : r.inn = d.inn
  receivedOn : r.receivedOn = (((cellOrNull row COL.invoice).map parseInvoiceText).getD (none, none)).2.or
    ((cellOrNull row COL.payDate).bind fun raw => plausiblePayDate raw today)
  dateProblem : r.dateProblem = none ↔ r.receivedOn ≠ none

theorem rowFrom_of_registerRow {d : Dragged} {row : List String} {i : ℕ} {r : RegisterRow}
    (h : registerRow host today first d row i = some r) : RowFrom today first d row i r := by
  unfold registerRow at h
  rw [Option.bind_eq_some_iff] at h
  obtain ⟨name, -, h⟩ := h
  by_cases hnone : (!(parseAmount host (rawCell row COL.qty)).isSome &&
      !(parseAmount host (rawCell row COL.costGross)).isSome) = true
  · rw [if_pos hnone] at h
    cases h
  rw [if_neg hnone] at h
  obtain rfl := Option.some.inj h
  refine ⟨rfl, rfl, rfl, rfl, rfl, rfl, ?_⟩
  rcases (((cellOrNull row COL.invoice).map parseInvoiceText).getD (none, none)).2.or
    ((cellOrNull row COL.payDate).bind fun raw => plausiblePayDate raw today) with _ | day
  · rcases (cellOrNull row COL.payDate).isSome <;> simp
  · simp

/-- The day of a row is real when the calendar has the day that was picked. -/
theorem realDay_iff {d : Dragged} {row : List String} {i : ℕ} {r : RegisterRow} (h : RowFrom today first d row i r) :
    (∀ day, r.receivedOn = some day → Clock.IsDayText day) ↔ DayExists today row := by
  rw [h.receivedOn]
  unfold DayExists
  rcases hinvoice : (cellOrNull row COL.invoice).bind invoiceMatch with _ | ⟨no, d', mo, y⟩
  · have hnone : (((cellOrNull row COL.invoice).map parseInvoiceText).getD (none, none)).2 = none := by
      rcases hraw : cellOrNull row COL.invoice with _ | raw
      · rfl
      · rw [hraw, Option.bind_some] at hinvoice
        rw [Option.map_some, Option.getD_some, parseInvoiceText, hinvoice]
    rw [hnone, Option.none_or]
    simp only [Option.bind_eq_some_iff, plausiblePayDate, Option.ite_none_right_eq_some, Option.some.injEq]
    constructor
    · intro hreal raw hraw m hm hbefore
      exact (isDayText_iso hm).mp (hreal raw ⟨raw, hraw, ⟨Option.isSome_iff_exists.mpr ⟨m, hm⟩, hbefore⟩, rfl⟩)
    · rintro hexists day ⟨raw, hraw, ⟨hiso, hbefore⟩, rfl⟩
      obtain ⟨m, hm⟩ := Option.isSome_iff_exists.mp hiso
      exact (isDayText_iso hm).mpr (hexists raw hraw m hm hbefore)
  · obtain ⟨raw, hraw, hmatch⟩ := Option.bind_eq_some_iff.mp hinvoice
    have hsome : (((cellOrNull row COL.invoice).map parseInvoiceText).getD (none, none)).2 =
        some (String.ofList (y ++ '-' :: (padTwo mo ++ '-' :: padTwo d'))) := by
      rw [hraw, Option.map_some, Option.getD_some, parseInvoiceText, hmatch]
    rw [hsome, Option.some_or]
    simp only [Option.some.injEq, forall_eq']
    exact isDayText_invoice (invoiceMatch_digits hmatch)

theorem supplierAt_eq {i j : ℕ} (hji : j ≤ i) : supplierAt host table i =
    (lastOf (textCell host COL.supplier) ((table.take (i + 1)).drop (j + 1))).or (supplierAt host table j) := by
  have hsplit : table.take (i + 1) = table.take (j + 1) ++ (table.take (i + 1)).drop (j + 1) := by
    have htake := (List.take_append_drop (j + 1) (table.take (i + 1))).symm
    rw [List.take_take, Nat.min_eq_left (by omega)] at htake
    exact htake
  rw [supplierAt, hsplit, lastOf_append]
  congr 2
  rw [← hsplit]

/-- The tax number of a row is its supplier's when no other supplier was named after it. -/
theorem ownInn_iff (i : ℕ) : (∀ j, InnWritten host table i j → ∀ s, supplierAt host table j = some s →
    (supplierAt host table i).getD "" = s) ↔ SupplierKept host table i := by
  unfold SupplierKept
  apply forall_congr'
  intro j
  apply forall_congr'
  intro hj
  apply forall_congr'
  intro s
  apply forall_congr'
  intro hs
  rw [supplierAt_eq hj.1, hs]
  rcases lastOf (textCell host COL.supplier) ((table.take (i + 1)).drop (j + 1)) with _ | s'
  · simp
  · simp

/-- The rows of the register are right when every day that they pick exists and no supplier is left another's number. -/
theorem registerRight_iff (host : Js.Host) (today : String) (first : ℤ) (table : List (List String)) :
    RegisterRight host today first table ↔ RegisterClear host today table := by
  unfold RegisterRight RegisterClear
  rw [parseRegisterRows_eq]
  unfold items
  rw [Lib.forall₂_filter_filterMap fun e : List String × ℕ => registerRow_isSome _ e.1 e.2]
  apply forall_congr'
  intro e
  apply forall_congr'
  intro he
  obtain ⟨r, hr⟩ := Option.isSome_iff_exists.mp ((@registerRow_isSome host today first (dragged host (table.take (e.2 + 1))) e.1 e.2).trans (List.mem_filter.mp he).2)
  have hrow := rowFrom_of_registerRow hr
  have hdragged := @dragged_eq host (table.take (e.2 + 1))
  have hsupplier : r.supplier = (supplierAt host table e.2).getD "" := by
    rw [hrow.supplier, hdragged]
    rfl
  simp only [hr, Option.some.injEq, forall_eq']
  rw [← realDay_iff hrow, ← ownInn_iff, ← hsupplier]
  constructor
  · exact fun h => ⟨h.realDay, h.ownInn⟩
  · rintro ⟨hreal, hown⟩
    refine ⟨hrow.fileRow, ?_, ?_, ?_, ?_, hreal, hrow.dateProblem, hown⟩
    · rw [hrow.group, hdragged]
    · rw [hrow.year, hdragged]
    · rw [hrow.supplier, hdragged]
    · rw [hrow.inn, hdragged]

def registerHost : Js.Host :=
  ⟨id, fun s => if s = "1" then some 1 else if s = "2025" then some 2025 else none, fun _ => "", fun _ => "", fun _ _ => 0,
    fun _ => ""⟩

def sugar (supplier inn invoice : String) : List String :=
  ["", "2025", supplier, inn, "Сахар", "кг", "1", "", "", invoice, "", "", ""]

/-- The thirty-first of February is taken for a day; a supplier without a tax number gets that of another. -/
theorem register_slips : ¬RegisterRight registerHost "2026-08-21" 1 [sugar "А" "111" "1 от 31.02.2025"] ∧
    ¬RegisterRight registerHost "2026-08-21" 1 [sugar "А" "111" "1 от 17.05.2025", sugar "Б" "" "2 от 18.05.2025"] := by
  constructor
  · intro h
    have hday : (parseRegisterRows registerHost "2026-08-21" 1 [sugar "А" "111" "1 от 31.02.2025"]).map (·.receivedOn) =
        [some "2025-02-31"] := by decide +kernel
    unfold RegisterRight at h
    rcases hrows : parseRegisterRows registerHost "2026-08-21" 1 [sugar "А" "111" "1 от 31.02.2025"] with _ | ⟨r, rest⟩
    · rw [hrows] at hday
      cases hday
    · rw [hrows] at h hday
      rcases h with _ | ⟨hrow, -⟩
      have hreal := hrow.realDay "2025-02-31" (List.cons.inj hday).1
      have hexists := (@Clock.isDayText_iff ['2', '0', '2', '5'] ['0', '2'] ['3', '1'] rfl rfl rfl
        (List.all_eq_true.mp rfl) (List.all_eq_true.mp rfl) (List.all_eq_true.mp rfl)).mp hreal
      revert hexists
      decide +kernel
  · intro h
    have hsupplier : (parseRegisterRows registerHost "2026-08-21" 1
        [sugar "А" "111" "1 от 17.05.2025", sugar "Б" "" "2 от 18.05.2025"]).map (·.supplier) = ["А", "Б"] := by
      decide +kernel
    unfold RegisterRight at h
    have hitems : items registerHost [sugar "А" "111" "1 от 17.05.2025", sugar "Б" "" "2 от 18.05.2025"] =
        [(sugar "А" "111" "1 от 17.05.2025", 0), (sugar "Б" "" "2 от 18.05.2025", 1)] := by decide +kernel
    rcases hrows : parseRegisterRows registerHost "2026-08-21" 1
      [sugar "А" "111" "1 от 17.05.2025", sugar "Б" "" "2 от 18.05.2025"] with _ | ⟨r, _ | ⟨r', rest⟩⟩
    · rw [hrows] at hsupplier
      cases hsupplier
    · rw [hrows] at hsupplier
      simp at hsupplier
    · rw [hrows] at h hsupplier
      rw [hitems] at h
      rcases h with _ | ⟨-, _ | ⟨hrow, -⟩⟩
      have hown := hrow.ownInn 0 ⟨by decide, by decide +kernel, fun k hk hk' => by
        obtain rfl : k = 1 := by dsimp only at hk'; omega
        decide +kernel⟩ "А" (by decide +kernel)
      have hname : r'.supplier = "Б" := (List.cons.inj (List.cons.inj hsupplier).2).1
      rw [hname] at hown
      revert hown
      decide

end Mydon.Stock
