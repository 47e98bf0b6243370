import Mathlib.Data.List.Sort
import Mathlib.Data.List.Induction
import Mathlib.Tactic.Ring
import Mydon.Js.Text
import Mydon.Lib.OrderedMap

/-! Inventory numbers of machines: a letter for the kind of the machine and a number of its series, always written in
one form; and the plan that gives the next numbers to the machines that have none. -/

namespace Mydon.Machines

open Mydon.Lib

inductive MachineKind
  | coffee
  | snack
  | drink
  | combo
  | other
  deriving DecidableEq

/-- `MACHINE_SERIES`. -/
def machineSeriesOf : MachineKind → Option Char
  | .coffee => some 'K'
  | .snack => some 'S'
  | .drink => some 'D'
  | .combo => some 'C'
  | .other => none

/-- `toUpperCase`; what it makes of a character beyond ASCII comes from the host. -/
def toUpperCase (beyond : Char → List Char) (cs : List Char) : List Char :=
  cs.flatMap fun c =>
    if c.toNat < 128 then [if Js.isLower c then Char.ofNat (c.toNat - 32) else c] else beyond c

def normalizeInventoryNo (beyond : Char → List Char) (raw : String) : Option (List Char) :=
  let value := toUpperCase beyond (raw.toList.filter fun c => !Js.isSpace c)
  if value = [] then none else some value

/-- `INVENTORY_NO_PATTERN`. -/
def inventoryNoPattern (cs : List Char) : Bool :=
  let plain := fun c => Js.isUpper c || Js.isDigit c
  match cs with
  | c :: rest => plain c && 1 ≤ rest.length && rest.length ≤ 31 && rest.all fun c => plain c || c = '-'
  | [] => false

def SERIES_WIDTH : ℕ := 3

/-- A number of a series, at least three digits wide. -/
def seriesText (series : Char) (n : ℕ) : List Char :=
  let digits := Nat.toDigits 10 n
  series :: '-' :: (List.replicate (SERIES_WIDTH - digits.length) '0' ++ digits)

def formatMachineNo (kind : MachineKind) (n : ℕ) : Option String :=
  (machineSeriesOf kind).map fun series => String.ofList (seriesText series n)

/-- `^K-(\d{1,6})$`. -/
def seriesNumber (series : Char) (norm : List Char) : Option ℕ :=
  match norm with
  | c :: hyphen :: digits =>
    if c = series ∧ hyphen = '-' ∧ 1 ≤ digits.length ∧ digits.length ≤ 6 ∧ digits.all Js.isDigit then
      some (Nat.ofDigitChars 10 digits 0)
    else none
  | _ => none

def machineSeriesNumber (beyond : Char → List Char) (kind : MachineKind) (no : String) : Option ℕ :=
  (machineSeriesOf kind).bind fun series => (normalizeInventoryNo beyond no).bind (seriesNumber series)

def machineNoProblem (beyond : Char → List Char) (kind : MachineKind) (raw : String) : Option String :=
  match normalizeInventoryNo beyond raw with
  | none => some "Номер — латиница, цифры и дефис, например K-014 (кириллические К и С не подходят)"
  | some norm =>
    if !inventoryNoPattern norm then
      some "Номер — латиница, цифры и дефис, например K-014 (кириллические К и С не подходят)"
    else
      match machineSeriesOf kind with
      | none => some "Автомату вида «прочее» номер не присваивается"
      | some series =>
        if machineSeriesNumber beyond kind (String.ofList norm) = none then
          some s!"Номер этого вида — серии {series}: {series}-001, {series}-002…"
        else none

def canonicalMachineNo (beyond : Char → List Char) (kind : MachineKind) (raw : String) : Option String :=
  (machineSeriesNumber beyond kind raw).bind (formatMachineNo kind)

/-- The largest number of a kind's series among the taken ones. -/
def highestOf (beyond : Char → List Char) (kind : MachineKind) (taken : List String) : ℕ :=
  taken.foldl (fun max t =>
    match machineSeriesNumber beyond kind t with
    | some n => if max < n then n else max
    | none => max) 0

def suggestMachineNo (beyond : Char → List Char) (kind : MachineKind) (taken : List String) : Option String :=
  formatMachineNo kind (highestOf beyond kind taken + 1)

structure NumberingMachine where
  id : String
  kind : Option MachineKind
  createdAt : String
  serial : Option String
  inventoryNo : Option String
  deriving DecidableEq

structure PlannedNo where
  id : String
  inventoryNo : String
  deriving DecidableEq

abbrev Taken : Type := List (MachineKind × List String)

def Taken.of (taken : Taken) (kind : MachineKind) : List String := (OrderedMap.get taken kind).getD []

def Taken.add (taken : Taken) (kind : MachineKind) (no : String) : Taken :=
  OrderedMap.alter (fun held => held.getD [] ++ [no]) kind taken

def takenBy (machines : List NumberingMachine) : Taken :=
  machines.foldl (fun taken m =>
    match m.inventoryNo, m.kind with
    | some no, some kind => if no = "" then taken else taken.add kind no
    | _, _ => taken) []

/-- By the day that the card was made, then by the serial number. -/
def orderBefore (host : Js.Host) (a b : NumberingMachine) : Prop :=
  let byDate := host.localeCompare a.createdAt b.createdAt
  let bySerial := host.localeCompare (a.serial.getD "") (b.serial.getD "")
  (if byDate ≠ 0 then byDate else if bySerial ≠ 0 then bySerial else host.localeCompare a.id b.id) ≤ 0

instance (host : Js.Host) : DecidableRel (orderBefore host) := fun a b => by
  unfold orderBefore
  infer_instance

def isPending (m : NumberingMachine) : Bool := m.inventoryNo = none && (m.kind.bind machineSeriesOf).isSome

def planStep (beyond : Char → List Char) (state : Taken × List PlannedNo) (m : NumberingMachine) :
    Taken × List PlannedNo :=
  match m.kind with
  | none => state
  | some kind =>
    match suggestMachineNo beyond kind (state.1.of kind) with
    | some no => (state.1.add kind no, state.2 ++ [⟨m.id, no⟩])
    | none => state

def planMachineNumbers (host : Js.Host) (beyond : Char → List Char) (machines : List NumberingMachine) :
    List PlannedNo :=
  let pending := (machines.filter isPending).insertionSort (orderBefore host)
  (pending.foldl (planStep beyond) (takenBy machines, [])).2

/-! The text of a number. -/

variable {beyond : Char → List Char} {kind kind' : MachineKind} {series : Char} {n n' : ℕ} {no : String}

/-- Letters of a series, digits and the hyphen. -/
def isPlain (c : Char) : Bool := Js.isUpper c || Js.isDigit c || c = '-'

theorem isPlain_bounds {c : Char} (h : isPlain c = true) : 45 ≤ c.toNat ∧ c.toNat ≤ 90 := by
  simp only [isPlain, Js.isUpper, Js.isDigit, Bool.or_eq_true, Bool.and_eq_true, decide_eq_true_eq, Char.le_def,
    UInt32.le_iff_toNat_le] at h
  have hA : 'A'.val.toNat = 65 := rfl
  have hZ : 'Z'.val.toNat = 90 := rfl
  have h0 : '0'.val.toNat = 48 := rfl
  have h9 : '9'.val.toNat = 57 := rfl
  have hhyphen : '-'.toNat = 45 := rfl
  have hc : c.toNat = c.val.toNat := rfl
  rcases h with (h | h) | rfl <;> omega

theorem isSpace_of_isPlain {c : Char} (h : isPlain c = true) : Js.isSpace c = false := by
  obtain ⟨hlow, hhigh⟩ := isPlain_bounds h
  simp only [Js.isSpace, Bool.or_eq_false_iff, Bool.and_eq_false_iff, decide_eq_false_iff_not, beq_eq_false_iff_ne]
  omega

theorem isLower_of_isPlain {c : Char} (h : isPlain c = true) : Js.isLower c = false := by
  obtain ⟨-, hhigh⟩ := isPlain_bounds h
  have ha : 'a'.val.toNat = 97 := rfl
  have hc : c.toNat = c.val.toNat := rfl
  simp only [Js.isLower, Bool.and_eq_false_iff, decide_eq_false_iff_not, Char.le_def, UInt32.le_iff_toNat_le]
  omega

theorem toUpperCase_of_plain {cs : List Char} (h : ∀ c ∈ cs, isPlain c = true) : toUpperCase beyond cs = cs := by
  unfold toUpperCase
  induction cs with
  | nil => rfl
  | cons c cs ih =>
    have hc := h c List.mem_cons_self
    have hascii : c.toNat < 128 := lt_of_le_of_lt (isPlain_bounds hc).2 (by decide)
    rw [List.flatMap_cons, ih fun c' hc' => h c' (List.mem_cons_of_mem _ hc'), if_pos hascii, isLower_of_isPlain hc]
    rfl

theorem normalize_of_plain {cs : List Char} (h : ∀ c ∈ cs, isPlain c = true) (hne : cs ≠ []) :
    normalizeInventoryNo beyond (String.ofList cs) = some cs := by
  unfold normalizeInventoryNo
  have hfilter : cs.filter (fun c => !Js.isSpace c) = cs :=
    List.filter_eq_self.mpr fun c hc => by rw [isSpace_of_isPlain (h c hc)]; rfl
  rw [String.toList_ofList, hfilter, toUpperCase_of_plain h, if_neg hne]

theorem isPlain_seriesText (hseries : machineSeriesOf kind = some series) :
    ∀ c ∈ seriesText series n, isPlain c = true := by
  have hletter : isPlain series = true := by
    revert hseries
    cases kind <;> intro h <;> cases h <;> decide
  have hdigit : ∀ c, Js.isDigit c = true → isPlain c = true := fun c hc => by simp [isPlain, hc]
  intro c hc
  rcases List.mem_cons.mp hc with rfl | hc
  · exact hletter
  rcases List.mem_cons.mp hc with rfl | hc
  · decide
  rcases List.mem_append.mp hc with hc | hc
  · rw [List.eq_of_mem_replicate hc]
    decide
  · exact hdigit c (Nat.isDigit_of_mem_toDigits (by decide) (by decide) hc)

/-- A number of at most six digits is read back from its text. -/
theorem seriesNumber_seriesText (hn : n < 1000000) : seriesNumber series (seriesText series n) = some n := by
  have hlen : (Nat.toDigits 10 n).length ≤ 6 := (Nat.length_toDigits_le_iff (by decide) (by decide)).mpr hn
  have hpos : 0 < (Nat.toDigits 10 n).length := Nat.length_toDigits_pos
  unfold seriesNumber seriesText SERIES_WIDTH
  dsimp only
  rw [if_pos]
  · rw [Nat.ofDigitChars_append, Nat.ofDigitChars_replicate_zero, Nat.mul_zero, Nat.ofDigitChars_ten_toDigits]
  · refine ⟨rfl, rfl, ?_, ?_, ?_⟩
    · rw [List.length_append]
      omega
    · rw [List.length_append, List.length_replicate]
      omega
    · rw [List.all_append, Bool.and_eq_true]
      constructor
      · rw [List.all_eq_true]
        intro c hc
        rw [List.eq_of_mem_replicate hc]
        decide
      · rw [List.all_eq_true]
        exact fun c hc => Nat.isDigit_of_mem_toDigits (by decide) (by decide) hc

theorem ofDigitChars_lt {digits : List Char} (h : ∀ c ∈ digits, Js.isDigit c = true) (init : ℕ) :
    Nat.ofDigitChars 10 digits init < (init + 1) * 10 ^ digits.length := by
  induction digits generalizing init with
  | nil => rw [Nat.ofDigitChars_nil]; simp
  | cons c digits ih =>
    have hc := h c List.mem_cons_self
    have hdigit : c.toNat - '0'.toNat ≤ 9 := by
      simp only [Js.isDigit, Bool.and_eq_true, decide_eq_true_eq, Char.le_def, UInt32.le_iff_toNat_le] at hc
      have h9 : '9'.val.toNat = 57 := rfl
      have h0 : '0'.toNat = 48 := rfl
      have hval : c.toNat = c.val.toNat := rfl
      omega
    rw [Nat.ofDigitChars_cons, List.length_cons, pow_succ]
    calc _ < (10 * init + (c.toNat - '0'.toNat) + 1) * 10 ^ digits.length :=
          ih (fun c' hc' => h c' (List.mem_cons_of_mem _ hc')) _
      _ ≤ (init + 1) * 10 * 10 ^ digits.length := Nat.mul_le_mul_right _ (by omega)
      _ = (init + 1) * (10 ^ digits.length * 10) := by ring

theorem seriesNumber_lt {norm : List Char} (h : seriesNumber series norm = some n) : n < 1000000 := by
  unfold seriesNumber at h
  split at h
  · next c digits =>
    split_ifs at h with hdigits
    obtain ⟨-, -, -, hlen, hall⟩ := hdigits
    obtain rfl := Option.some.inj h
    have hlt := ofDigitChars_lt (List.all_eq_true.mp hall) 0
    calc Nat.ofDigitChars 10 digits 0 < (0 + 1) * 10 ^ digits.length := hlt
      _ ≤ (0 + 1) * 10 ^ 6 := Nat.mul_le_mul_left _ (Nat.pow_le_pow_right (by decide) hlen)
      _ = 1000000 := by decide
  · cases h

theorem machineSeriesNumber_lt (h : machineSeriesNumber beyond kind no = some n) : n < 1000000 := by
  obtain ⟨series, -, h⟩ := Option.bind_eq_some_iff.mp h
  obtain ⟨norm, -, h⟩ := Option.bind_eq_some_iff.mp h
  exact seriesNumber_lt h

theorem machineSeriesNumber_format (hn : n < 1000000) (h : formatMachineNo kind n = some no) :
    machineSeriesNumber beyond kind no = some n := by
  obtain ⟨series, hseries, rfl⟩ := Option.map_eq_some_iff.mp h
  unfold machineSeriesNumber
  rw [hseries, Option.bind_some, normalize_of_plain (isPlain_seriesText hseries) (List.cons_ne_nil _ _), Option.bind_some]
  exact seriesNumber_seriesText hn

/-- A number tells its kind. -/
theorem format_inj (hn : n < 1000000) (hn' : n' < 1000000) (h : formatMachineNo kind n = some no)
    (h' : formatMachineNo kind' n' = some no) : kind = kind' ∧ n = n' := by
  have hkind : kind = kind' := by
    obtain ⟨series, hseries, heq⟩ := Option.map_eq_some_iff.mp h
    obtain ⟨series', hseries', heq'⟩ := Option.map_eq_some_iff.mp h'
    have htext := congrArg String.toList (heq.trans heq'.symm)
    rw [String.toList_ofList, String.toList_ofList] at htext
    have hletter : series = series' := (List.cons.inj htext).1
    subst hletter
    revert hseries hseries'
    cases kind <;> intro h₁ <;> cases h₁ <;> cases kind' <;> intro h₂ <;> first | rfl | cases h₂
  subst hkind
  refine ⟨rfl, ?_⟩
  have hread := @machineSeriesNumber_format (fun _ => []) kind n no hn h
  rw [machineSeriesNumber_format hn' h'] at hread
  exact (Option.some.inj hread).symm

/-- The one form of a number. -/
def Canonical (beyond : Char → List Char) (kind : MachineKind) (no : String) : Prop :=
  canonicalMachineNo beyond kind no = some no

instance : Decidable (Canonical beyond kind no) := inferInstanceAs (Decidable (_ = _))

theorem canonical_iff : Canonical beyond kind no ↔ ∃ n < 1000000, formatMachineNo kind n = some no := by
  constructor
  · intro h
    obtain ⟨n, hn, hformat⟩ := Option.bind_eq_some_iff.mp h
    exact ⟨n, machineSeriesNumber_lt hn, hformat⟩
  · rintro ⟨n, hn, hformat⟩
    unfold Canonical canonicalMachineNo
    rw [machineSeriesNumber_format hn hformat, Option.bind_some, hformat]

theorem canonical_of_canonicalMachineNo {raw : String} (h : canonicalMachineNo beyond kind raw = some no) :
    Canonical beyond kind no := by
  obtain ⟨n, hn, hformat⟩ := Option.bind_eq_some_iff.mp h
  exact canonical_iff.mpr ⟨n, machineSeriesNumber_lt hn, hformat⟩

/-! The largest number of a series. -/

theorem highestOf_append (taken : List String) (t : String) :
    highestOf beyond kind (taken ++ [t]) =
      max (highestOf beyond kind taken) ((machineSeriesNumber beyond kind t).getD 0) := by
  unfold highestOf
  rw [List.foldl_append, List.foldl_cons, List.foldl_nil]
  rcases machineSeriesNumber beyond kind t with _ | n
  · simp
  · dsimp only
    rw [Option.getD_some]
    split_ifs <;> omega

theorem le_highestOf {taken : List String} {t : String} (ht : t ∈ taken)
    (hn : machineSeriesNumber beyond kind t = some n) : n ≤ highestOf beyond kind taken := by
  induction taken using List.reverseRecOn with
  | nil => cases ht
  | append_singleton taken t' ih =>
    rw [highestOf_append]
    rcases List.mem_append.mp ht with hold | hnew
    · exact (ih hold).trans (le_max_left _ _)
    · rw [← List.mem_singleton.mp hnew, hn]
      exact le_max_right _ _

/-! The plan. -/

@[simp] theorem of_add (taken : Taken) (no : String) :
    (taken.add kind no).of kind' = if kind = kind' then taken.of kind ++ [no] else taken.of kind' := by
  unfold Taken.add Taken.of
  rw [OrderedMap.get_alter]
  split_ifs <;> rfl

/-- Machines of a kind that have no number yet. -/
def waits (kind : MachineKind) (m : NumberingMachine) : Bool := isPending m && m.kind = some kind

/-- The numbers of a plan so far: each of the series of its machine, above the number that the plan began with. -/
structure Planned (beyond : Char → List Char) (start : MachineKind → ℕ) (machines : List NumberingMachine)
    (state : Taken × List PlannedNo) : Prop where
  numbered : ∀ p ∈ state.2, ∃ m ∈ machines, m.id = p.id ∧ isPending m = true ∧ ∃ kind n, m.kind = some kind ∧
    formatMachineNo kind n = some p.inventoryNo ∧ start kind < n ∧ n ≤ highestOf beyond kind (state.1.of kind) ∧ n < 1000000
  nodup : (state.2.map PlannedNo.inventoryNo).Nodup
  grows : ∀ kind, start kind ≤ highestOf beyond kind (state.1.of kind)

theorem planned_step {start : MachineKind → ℕ} {machines : List NumberingMachine} {state : Taken × List PlannedNo}
    {m : NumberingMachine} (h : Planned beyond start machines state) (hm : m ∈ machines) (hpending : isPending m = true)
    (hroom : ∀ kind, m.kind = some kind → highestOf beyond kind (state.1.of kind) + 1 < 1000000) :
    Planned beyond start machines (planStep beyond state m) ∧
      (∀ kind, highestOf beyond kind ((planStep beyond state m).1.of kind) =
        highestOf beyond kind (state.1.of kind) + if m.kind = some kind then 1 else 0) ∧
      (planStep beyond state m).2.map PlannedNo.id = state.2.map PlannedNo.id ++ [m.id] := by
  obtain ⟨kind, hkind, hseries⟩ : ∃ kind, m.kind = some kind ∧ (machineSeriesOf kind).isSome := by
    simp only [isPending, Bool.and_eq_true] at hpending
    rcases hk : m.kind with _ | kind
    · rw [hk] at hpending
      exact absurd hpending.2 (by decide)
    · rw [hk] at hpending
      exact ⟨kind, rfl, hpending.2⟩
  obtain ⟨series, hseries⟩ := Option.isSome_iff_exists.mp hseries
  set top := highestOf beyond kind (state.1.of kind)
  have hn : top + 1 < 1000000 := hroom kind hkind
  have hformat : formatMachineNo kind (top + 1) = some (String.ofList (seriesText series (top + 1))) := by
    unfold formatMachineNo
    rw [hseries]
    rfl
  set no := String.ofList (seriesText series (top + 1))
  have hread : machineSeriesNumber beyond kind no = some (top + 1) := machineSeriesNumber_format hn hformat
  have hstep : planStep beyond state m = (state.1.add kind no, state.2 ++ [⟨m.id, no⟩]) := by
    unfold planStep
    rw [hkind]
    dsimp only
    unfold suggestMachineNo
    rw [hformat]
  rw [hstep]
  have htop : highestOf beyond kind (state.1.of kind ++ [no]) = top + 1 := by
    rw [highestOf_append, hread]
    exact max_eq_right (Nat.le_succ _)
  have hhigh : ∀ kind', highestOf beyond kind' ((state.1.add kind no).of kind') =
      highestOf beyond kind' (state.1.of kind') + if m.kind = some kind' then 1 else 0 := by
    intro kind'
    rw [of_add, hkind]
    by_cases hk : kind = kind'
    · subst hk
      rw [if_pos rfl, if_pos rfl, htop]
    · rw [if_neg hk, if_neg (by simpa using hk), Nat.add_zero]
  refine ⟨⟨?_, ?_, ?_⟩, hhigh, by rw [List.map_append]; rfl⟩
  · intro p hp
    rcases List.mem_append.mp hp with hold | hnew
    · obtain ⟨m', hm', hid, hpend, kind', n', hkind', hformat', hlow, hle, hlt⟩ := h.numbered p hold
      refine ⟨m', hm', hid, hpend, kind', n', hkind', hformat', hlow, ?_, hlt⟩
      rw [hhigh kind']
      omega
    · rw [List.mem_singleton.mp hnew]
      refine ⟨m, hm, rfl, hpending, kind, top + 1, hkind, hformat, Nat.lt_succ_of_le (h.grows kind), ?_, hn⟩
      rw [of_add, if_pos rfl, htop]
  · rw [List.map_append, List.map_singleton]
    refine List.nodup_append.mpr ⟨h.nodup, List.nodup_singleton _, fun no' hno' no'' hno'' => ?_⟩
    rw [List.mem_singleton.mp hno'']
    obtain ⟨p, hp, rfl⟩ := List.mem_map.mp hno'
    obtain ⟨-, -, -, -, kind', n', -, hformat', -, hle, hlt⟩ := h.numbered p hp
    intro heq
    obtain ⟨rfl, rfl⟩ := format_inj hlt hn (heq ▸ hformat') hformat
    exact absurd hle (by omega)
  · intro kind'
    rw [hhigh kind']
    exact (h.grows kind').trans (Nat.le_add_right _ _)

theorem planned_foldl {start : MachineKind → ℕ} {machines rest : List NumberingMachine}
    {state : Taken × List PlannedNo} (h : Planned beyond start machines state)
    (hrest : ∀ m ∈ rest, m ∈ machines ∧ isPending m = true)
    (hroom : ∀ kind, highestOf beyond kind (state.1.of kind) + rest.countP (fun m => m.kind = some kind) < 1000000) :
    Planned beyond start machines (rest.foldl (planStep beyond) state) ∧
      (rest.foldl (planStep beyond) state).2.map PlannedNo.id = state.2.map PlannedNo.id ++ rest.map (·.id) := by
  induction rest generalizing state with
  | nil => exact ⟨h, by simp⟩
  | cons m rest ih =>
    obtain ⟨hm, hpending⟩ := hrest m List.mem_cons_self
    have hnow : ∀ kind, m.kind = some kind → highestOf beyond kind (state.1.of kind) + 1 < 1000000 := by
      intro kind hkind
      have := hroom kind
      rw [List.countP_cons_of_pos (by simpa using hkind)] at this
      omega
    obtain ⟨hplanned, hhigh, hids⟩ := planned_step h hm hpending hnow
    rw [List.foldl_cons]
    obtain ⟨hdone, hall⟩ := ih hplanned (fun m' hm' => hrest m' (List.mem_cons_of_mem _ hm')) fun kind => by
      have := hroom kind
      rw [hhigh kind]
      by_cases hkind : m.kind = some kind
      · rw [List.countP_cons_of_pos (by simpa using hkind)] at this
        rw [if_pos hkind]
        omega
      · rw [List.countP_cons_of_neg (by simpa using hkind)] at this
        rw [if_neg hkind]
        omega
    exact ⟨hdone, by rw [hall, hids, List.append_assoc]; rfl⟩

theorem mem_takenBy {machines : List NumberingMachine} :
    no ∈ (takenBy machines).of kind ↔ no ≠ "" ∧ ∃ m ∈ machines, m.kind = some kind ∧ m.inventoryNo = some no := by
  unfold takenBy
  induction machines using List.reverseRecOn with
  | nil => simp [Taken.of]
  | append_singleton machines m ih =>
    rw [List.foldl_append, List.foldl_cons, List.foldl_nil]
    simp only [List.mem_append, List.mem_singleton, or_and_right, exists_or, exists_eq_left]
    rcases hno : m.inventoryNo with _ | no'
    · simpa using ih
    rcases hkind : m.kind with _ | kind'
    · simpa using ih
    dsimp only
    by_cases hempty : no' = ""
    · rw [if_pos hempty, ih, hempty]
      grind
    · rw [if_neg hempty, of_add]
      by_cases hk : kind' = kind
      · subst hk
        rw [if_pos rfl, List.mem_append, ih, List.mem_singleton]
        grind
      · rw [if_neg hk, ih]
        grind

/-- The largest number of each series that the machines have. -/
def topNo (beyond : Char → List Char) (machines : List NumberingMachine) (kind : MachineKind) : ℕ :=
  highestOf beyond kind ((takenBy machines).of kind)

theorem le_topNo {machines : List NumberingMachine} {m : NumberingMachine} (hm : m ∈ machines)
    (hkind : m.kind = some kind) (hno : m.inventoryNo = some no) (hn : machineSeriesNumber beyond kind no = some n) :
    n ≤ topNo beyond machines kind := by
  refine le_highestOf (mem_takenBy.mpr ⟨?_, m, hm, hkind, hno⟩) hn
  rintro rfl
  obtain ⟨series, -, hn⟩ := Option.bind_eq_some_iff.mp hn
  obtain ⟨norm, hnorm, -⟩ := Option.bind_eq_some_iff.mp hn
  cases hnorm

/-- The series of every kind has a number for each machine that waits for one. -/
def Room (beyond : Char → List Char) (machines : List NumberingMachine) : Prop :=
  ∀ kind, topNo beyond machines kind + machines.countP (waits kind) < 1000000

/-- What a plan proposes. -/
theorem plan_spec {host : Js.Host} {machines : List NumberingMachine} (hroom : Room beyond machines) :
    (∀ p ∈ planMachineNumbers host beyond machines, ∃ m ∈ machines, m.id = p.id ∧ isPending m = true ∧
      ∃ kind n, m.kind = some kind ∧ formatMachineNo kind n = some p.inventoryNo ∧ topNo beyond machines kind < n ∧
        n < 1000000) ∧
      ((planMachineNumbers host beyond machines).map PlannedNo.inventoryNo).Nodup ∧
      ((planMachineNumbers host beyond machines).map PlannedNo.id).Perm ((machines.filter isPending).map (·.id)) := by
  have hperm := List.perm_insertionSort (orderBefore host) (machines.filter isPending)
  have hstart : Planned beyond (topNo beyond machines) machines (takenBy machines, []) :=
    ⟨List.forall_mem_nil _, List.nodup_nil, fun kind => le_rfl⟩
  obtain ⟨hplanned, hids⟩ := planned_foldl hstart
    (fun m hm => List.mem_filter.mp (hperm.mem_iff.mp hm)) fun kind => by
      rw [hperm.countP_eq, List.countP_filter]
      refine lt_of_le_of_lt (Nat.add_le_add_left (le_of_eq ?_) _) (hroom kind)
      refine List.countP_congr fun m _ => ?_
      simp [waits, and_comm]
  refine ⟨fun p hp => ?_, hplanned.nodup, ?_⟩
  · obtain ⟨m, hm, hid, hpending, kind, n, hkind, hformat, hlow, -, hlt⟩ := hplanned.numbered p hp
    exact ⟨m, hm, hid, hpending, kind, n, hkind, hformat, hlow, hlt⟩
  · rw [planMachineNumbers, hids]
    exact hperm.map _

end Mydon.Machines
