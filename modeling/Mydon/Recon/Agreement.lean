import Mydon.Recon.Unify

/-! The unified journal and the reconciliation report count the same operations.
They part ways on one thing: a cell that one side leaves empty. -/

namespace Mydon.Recon

open Mydon.Lib

variable (host : Js.Host)

/-! Both index the rows alike. -/

variable (rows a b : List ReconRow) (fields : List ReconField)

/-- The index of `unify` is a view of the one of `reconcile`. -/
def Views (ix : FirstIndex) (map : List (String × KeyRows)) : Prop :=
  ix.first = OrderedMap.mapValues KeyRows.first map ∧
    ix.seen = OrderedMap.mapValues KeyRows.count map

theorem push_count (row : ReconRow) (o : Option KeyRows) :
    (KeyRows.push row o).count = (o.map KeyRows.count).getD 0 + 1 := by
  cases o <;> simp [KeyRows.push, KeyRows.count]

theorem push_first (row : ReconRow) (o : Option KeyRows) :
    (KeyRows.push row o).first = (o.map KeyRows.first).getD row := by
  cases o <;> rfl

theorem indexFirst_views {ix : FirstIndex} {map : List (String × KeyRows)} (row : ReconRow)
    (h : Views ix map) : Views (indexFirst host ix row) (indexRow host map row) := by
  obtain ⟨hf, hs⟩ := h
  unfold indexFirst indexRow
  by_cases hk : keyOf host row = ""
  · simp only [hk, if_true]
    exact ⟨hf, hs⟩
  · simp only [hk, if_false]
    have hseen : OrderedMap.alter (fun _ => (OrderedMap.get ix.seen (keyOf host row)).getD 0 + 1)
        (keyOf host row) ix.seen =
        OrderedMap.mapValues KeyRows.count (OrderedMap.alter (KeyRows.push row) (keyOf host row) map) := by
      rw [OrderedMap.mapValues_alter (fun n => n.getD 0 + 1) (push_count row) _ map, ← hs]
      exact OrderedMap.alter_congr rfl
    have hfirst := OrderedMap.mapValues_alter (fun r => r.getD row) (push_first row) (keyOf host row) map
    rw [← hf] at hfirst
    have hget : OrderedMap.get ix.seen (keyOf host row) =
        (OrderedMap.get map (keyOf host row)).map KeyRows.count := by
      rw [hs, OrderedMap.get_mapValues]
    have hgetf : OrderedMap.get ix.first (keyOf host row) =
        (OrderedMap.get map (keyOf host row)).map KeyRows.first := by
      rw [hf, OrderedMap.get_mapValues]
    cases hg : OrderedMap.get map (keyOf host row) with
    | none =>
      rw [hg] at hget hgetf
      rw [hget] at hseen
      rw [hget, if_pos (by rfl)]
      refine ⟨?_, hseen⟩
      rw [hfirst]
      exact OrderedMap.alter_congr (by rw [hgetf]; rfl)
    | some rows =>
      rw [hg] at hget hgetf
      rw [hget] at hseen
      rw [hget, if_neg (by simp [KeyRows.count])]
      refine ⟨?_, hseen⟩
      rw [hfirst, OrderedMap.alter_eq_self hgetf rfl]

theorem foldl_views {ix : FirstIndex} {map : List (String × KeyRows)}
    (h : Views ix map) :
    Views (rows.foldl (indexFirst host) ix) (rows.foldl (indexRow host) map) := by
  induction rows generalizing ix map with
  | nil => exact h
  | cons row rows ih => exact ih (indexFirst_views host row h)

theorem index_views : Views (index host rows) (indexByKey host rows).map :=
  foldl_views host rows ⟨rfl, rfl⟩

theorem get_index (k : String) :
    OrderedMap.get (index host rows).first k =
      (OrderedMap.get (indexByKey host rows).map k).map KeyRows.first := by
  rw [(index_views host rows).1, OrderedMap.get_mapValues]

theorem keys_index :
    OrderedMap.keys (index host rows).first = OrderedMap.keys (indexByKey host rows).map := by
  rw [(index_views host rows).1, OrderedMap.keys_mapValues]

theorem nodup_keys_indexByKey :
    (OrderedMap.keys (indexByKey host rows).map).Nodup := by
  suffices h : ∀ map, (OrderedMap.keys map).Nodup →
      (OrderedMap.keys (rows.foldl (indexRow host) map)).Nodup from h [] List.nodup_nil
  induction rows with
  | nil => exact fun _ h => h
  | cons row rows ih =>
    intro map h
    refine ih _ ?_
    unfold indexRow
    dsimp only
    split_ifs with hk
    · exact h
    · exact OrderedMap.nodup_keys_alter _ _ h

/-! The counters of the two loops. -/

theorem foldl_visitA_matched (mapB m : List (String × KeyRows)) (w : Walk) :
    (m.foldl (visitA host fields mapB) w).matched =
      w.matched + (OrderedMap.keys m).countP fun k => (OrderedMap.get mapB k).isSome := by
  induction m generalizing w with
  | nil => rfl
  | cons e m ih =>
    rw [List.foldl_cons, ih, OrderedMap.keys_cons, List.countP_cons]
    unfold visitA
    cases OrderedMap.get mapB e.1 <;> simp +arith

theorem foldl_visitA_onlyACount (mapB m : List (String × KeyRows)) (w : Walk) :
    (m.foldl (visitA host fields mapB) w).onlyACount =
      w.onlyACount + (OrderedMap.keys m).countP fun k => !(OrderedMap.get mapB k).isSome := by
  induction m generalizing w with
  | nil => rfl
  | cons e m ih =>
    rw [List.foldl_cons, ih, OrderedMap.keys_cons, List.countP_cons]
    unfold visitA
    cases OrderedMap.get mapB e.1 <;> simp +arith

theorem foldl_visitB_count (mapA m : List (String × KeyRows)) (acc : ℕ × List String) :
    (m.foldl (visitB mapA) acc).1 =
      acc.1 + (OrderedMap.keys m).countP fun k => !(OrderedMap.get mapA k).isSome := by
  induction m generalizing acc with
  | nil => rfl
  | cons e m ih =>
    rw [List.foldl_cons, ih, OrderedMap.keys_cons, List.countP_cons]
    unfold visitB
    cases OrderedMap.get mapA e.1 <;> simp +arith

/-- The number of keys whose order is present as `p`. -/
def countPresent (fields : List ReconField) (ia ib : FirstIndex) (p : Presence) (ks : List String) : ℕ :=
  ks.countP fun k => decide ((orderFor host fields ia ib k).presence = p)

theorem foldl_visitKey (ia ib : FirstIndex) (ks : List String) (t : Tally) :
    (ks.foldl (visitKey host fields ia ib) t).both = t.both + countPresent host fields ia ib .both ks ∧
      (ks.foldl (visitKey host fields ia ib) t).onlyA =
        t.onlyA + countPresent host fields ia ib .onlyA ks ∧
      (ks.foldl (visitKey host fields ia ib) t).onlyB =
        t.onlyB + countPresent host fields ia ib .onlyB ks := by
  induction ks generalizing t with
  | nil => exact ⟨rfl, rfl, rfl⟩
  | cons k ks ih =>
    obtain ⟨h1, h2, h3⟩ := ih (visitKey host fields ia ib t k)
    rw [List.foldl_cons, h1, h2, h3]
    simp only [countPresent, List.countP_cons, visitKey, decide_eq_true_eq]
    refine ⟨by omega, by omega, by omega⟩

theorem presence_orderFor (a b : List ReconRow) (k : String) :
    (orderFor host fields (index host a) (index host b) k).presence =
      if (OrderedMap.get (indexByKey host a).map k).isSome then
        if (OrderedMap.get (indexByKey host b).map k).isSome then .both else .onlyA
      else .onlyB := by
  simp only [orderFor, presenceOf, get_index]
  cases OrderedMap.get (indexByKey host a).map k <;>
    cases OrderedMap.get (indexByKey host b).map k <;> rfl

/-- The keys of the journal: those of the first source, then the second's own. -/
theorem unifyKeys_index :
    unifyKeys (index host a) (index host b) =
      OrderedMap.keys (indexByKey host a).map ++
        (OrderedMap.keys (indexByKey host b).map).filter
          fun k => !(OrderedMap.get (indexByKey host a).map k).isSome := by
  rw [unifyKeys, keys_index, keys_index,
    OrderedMap.keySet_append _ _ (nodup_keys_indexByKey host a) (nodup_keys_indexByKey host b)]
  congr 1
  apply List.filter_congr
  intro k _
  rw [Bool.eq_iff_iff, decide_eq_true_eq, OrderedMap.mem_keys_iff, Bool.not_eq_true, Bool.not_eq_true']

theorem countP_unifyKeys (p : String → Bool) :
    (unifyKeys (index host a) (index host b)).countP p =
      (OrderedMap.keys (indexByKey host a).map).countP p +
        (OrderedMap.keys (indexByKey host b).map).countP
          fun k => p k && !(OrderedMap.get (indexByKey host a).map k).isSome := by
  rw [unifyKeys_index, List.countP_append, List.countP_filter]

theorem isSome_of_mem_keys {a : List ReconRow} {k : String}
    (hk : k ∈ OrderedMap.keys (indexByKey host a).map) :
    (OrderedMap.get (indexByKey host a).map k).isSome := OrderedMap.mem_keys_iff.mp hk

/-- Orders of the first source are confirmed or not by the second; the rest are the second's. -/
theorem countPresent_unifyKeys (p : Presence) :
    countPresent host fields (index host a) (index host b) p (unifyKeys (index host a) (index host b)) =
      match p with
      | .both => (OrderedMap.keys (indexByKey host a).map).countP
          fun k => (OrderedMap.get (indexByKey host b).map k).isSome
      | .onlyA => (OrderedMap.keys (indexByKey host a).map).countP
          fun k => !(OrderedMap.get (indexByKey host b).map k).isSome
      | .onlyB => (OrderedMap.keys (indexByKey host b).map).countP
          fun k => !(OrderedMap.get (indexByKey host a).map k).isSome := by
  have hA : ∀ k ∈ OrderedMap.keys (indexByKey host a).map,
      (orderFor host fields (index host a) (index host b) k).presence =
        if (OrderedMap.get (indexByKey host b).map k).isSome then .both else .onlyA := by
    intro k hk
    rw [presence_orderFor, if_pos (isSome_of_mem_keys host hk)]
  have hB : ∀ k, (OrderedMap.get (indexByKey host a).map k).isSome = false →
      (orderFor host fields (index host a) (index host b) k).presence = .onlyB := by
    intro k hk
    rw [presence_orderFor, hk]
    rfl
  have hown : p ≠ .onlyB → (OrderedMap.keys (indexByKey host b).map).countP (fun k =>
      decide ((orderFor host fields (index host a) (index host b) k).presence = p) &&
        !(OrderedMap.get (indexByKey host a).map k).isSome) = 0 := by
    intro hp
    rw [List.countP_eq_zero]
    intro k _
    cases h : (OrderedMap.get (indexByKey host a).map k).isSome <;> simp [h, hB, Ne.symm hp]
  rw [countPresent, countP_unifyKeys]
  cases p with
  | both =>
    rw [hown (by decide), Nat.add_zero]
    apply List.countP_congr
    intro k hk
    rw [hA k hk]
    split_ifs with h <;> simp [h]
  | onlyA =>
    rw [hown (by decide), Nat.add_zero]
    apply List.countP_congr
    intro k hk
    rw [hA k hk]
    split_ifs with h <;> simp [h]
  | onlyB =>
    rw [List.countP_eq_zero.mpr, Nat.zero_add]
    · apply List.countP_congr
      intro k _
      cases h : (OrderedMap.get (indexByKey host a).map k).isSome <;> simp [h, hB]
    · intro k hk
      rw [hA k hk]
      split_ifs <;> simp

theorem unify_both (page size : ℤ) :
    (unify host a b fields page size).both = (reconcile host a b fields).matched := by
  simp only [unify, reconcile]
  rw [(foldl_visitKey host fields _ _ _ _).1, countPresent_unifyKeys, foldl_visitA_matched]

theorem unify_onlyA (page size : ℤ) :
    (unify host a b fields page size).onlyA = (reconcile host a b fields).onlyACount := by
  simp only [unify, reconcile]
  rw [(foldl_visitKey host fields _ _ _ _).2.1, countPresent_unifyKeys, foldl_visitA_onlyACount]

theorem unify_onlyB (page size : ℤ) :
    (unify host a b fields page size).onlyB = (reconcile host a b fields).onlyBCount := by
  simp only [unify, reconcile]
  rw [(foldl_visitKey host fields _ _ _ _).2.2, countPresent_unifyKeys, foldl_visitB_count]

/-! What each of them finds in the fields of one matched pair. -/

/-- The difference `reconcile` reports for a field, when it reports one. -/
def diffOf (rowA rowB : ReconRow) (f : ReconField) : Option FieldDiff :=
  match rowA.value f.role, rowB.value f.role with
  | some va, some vb =>
    if (va = "" ∧ vb = "") ∨ valuesAgree host va vb f.compare then none
    else some ⟨f.role, f.label, va, vb⟩
  | _, _ => none

theorem compareField_diffs (rowA rowB : ReconRow) (acc : Summary × List FieldDiff) (f : ReconField) :
    (compareField host rowA rowB acc f).2 = acc.2 ++ (diffOf host rowA rowB f).toList := by
  unfold compareField diffOf
  cases rowA.value f.role with
  | none => simp
  | some va =>
    cases rowB.value f.role with
    | none => simp
    | some vb =>
      by_cases he : va = "" ∧ vb = ""
      · simp [he]
      · cases hv : valuesAgree host va vb f.compare <;> simp [he, hv]

theorem foldl_compareField_diffs (rowA rowB : ReconRow) (fields : List ReconField)
    (acc : Summary × List FieldDiff) :
    (fields.foldl (compareField host rowA rowB) acc).2 =
      acc.2 ++ fields.filterMap (diffOf host rowA rowB) := by
  induction fields generalizing acc with
  | nil => simp
  | cons f fields ih =>
    rw [List.foldl_cons, ih, compareField_diffs, List.filterMap_cons]
    cases diffOf host rowA rowB f <;> simp

/-- `unify` sees the two values of a field clash. -/
def clash (rowA rowB : Option ReconRow) (f : ReconField) : Bool :=
  match present rowA f.role, present rowB f.role with
  | some a, some b => !valuesAgree host a b f.compare
  | _, _ => false

theorem fieldOf_conflict (rowA rowB : Option ReconRow) (acc : List UnifiedField × Bool)
    (f : ReconField) :
    (fieldOf host rowA rowB acc f).2 = (acc.2 || clash host rowA rowB f) := by
  unfold fieldOf clash
  cases present rowA f.role <;> cases present rowB f.role <;> simp

theorem fieldsOf_conflict (rowA rowB : Option ReconRow) :
    (fieldsOf host fields rowA rowB).2 = fields.any (clash host rowA rowB) := by
  suffices h : ∀ acc, (fields.foldl (fieldOf host rowA rowB) acc).2 =
      (acc.2 || fields.any (clash host rowA rowB)) from (h ([], false)).trans (Bool.false_or _)
  induction fields with
  | nil => simp
  | cons f fields ih =>
    intro acc
    rw [List.foldl_cons, ih, fieldOf_conflict, List.any_cons, Bool.or_assoc]

/-- What `unify` shows of a field, when it shows it. -/
def unifiedOf (rowA rowB : Option ReconRow) (f : ReconField) : Option UnifiedField :=
  match present rowA f.role, present rowB f.role with
  | none, none => none
  | some a, some b => some ⟨f.role, f.label, f.compare, some a, some b, some (valuesAgree host a b f.compare)⟩
  | a, b => some ⟨f.role, f.label, f.compare, a, b, none⟩

theorem fieldsOf_fields (rowA rowB : Option ReconRow) :
    (fieldsOf host fields rowA rowB).1 = fields.filterMap (unifiedOf host rowA rowB) := by
  suffices h : ∀ acc, (fields.foldl (fieldOf host rowA rowB) acc).1 =
      acc.1 ++ fields.filterMap (unifiedOf host rowA rowB) from h ([], false)
  induction fields with
  | nil => simp
  | cons f fields ih =>
    intro acc
    rw [List.foldl_cons, ih, List.filterMap_cons]
    unfold fieldOf unifiedOf
    cases present rowA f.role <;> cases present rowB f.role <;> simp

/-! The differences of the report are those of its matched pairs. -/

/-- The differences of one matched pair, as the loop over the fields collects them. -/
def pairDiffs (fields : List ReconField) (rowA rowB : ReconRow) : List FieldDiff :=
  (fields.foldl (compareField host rowA rowB) (initialSummary fields, [])).2

theorem pairDiffs_eq (rowA rowB : ReconRow) :
    pairDiffs host fields rowA rowB = fields.filterMap (diffOf host rowA rowB) :=
  foldl_compareField_diffs host rowA rowB fields _

/-- The pair that a key of the first source makes with the second. -/
def pairOf (fields : List ReconField) (mapB : List (String × KeyRows)) (entry : String × KeyRows) :
    Option MatchedPair :=
  (OrderedMap.get mapB entry.1).map fun rowsB =>
    ⟨entry.2.first.key, pairDiffs host fields entry.2.first rowsB.first⟩

theorem pushSample_take {α : Type} {list : List α} (h : list.length ≤ MAX_SAMPLES) (x : α) :
    pushSample list x = (list ++ [x]).take MAX_SAMPLES := by
  unfold pushSample
  split_ifs with hl
  · rw [List.take_of_length_le (by simp only [List.length_append, List.length_singleton]; omega)]
  · rw [List.take_append_of_le_length (by omega), List.take_of_length_le (by omega)]

theorem take_take_append {α : Type} (n : ℕ) (xs ys : List α) :
    (xs.take n ++ ys).take n = (xs ++ ys).take n := by
  by_cases h : xs.length ≤ n
  · rw [List.take_of_length_le h]
  · rw [List.take_append_of_le_length (by simp; omega), List.take_append_of_le_length (by omega),
      List.take_take, Nat.min_self]

theorem foldl_visitA_conflicts (mapB m : List (String × KeyRows)) (w : Walk)
    (hw : w.conflicts.length ≤ MAX_SAMPLES) :
    (m.foldl (visitA host fields mapB) w).conflicts =
      (w.conflicts ++ (m.filterMap (pairOf host fields mapB)).filter (·.diffs ≠ [])).take MAX_SAMPLES := by
  induction m generalizing w with
  | nil => simp [List.take_of_length_le hw]
  | cons e m ih =>
    rw [List.foldl_cons, List.filterMap_cons]
    cases hb : OrderedMap.get mapB e.1 with
    | none => simp only [visitA, pairOf, hb, Option.map_none]; exact ih _ hw
    | some rowsB =>
      have hd := foldl_compareField_diffs host e.2.first rowsB.first fields (w.summary, [])
      rw [List.nil_append, ← pairDiffs_eq] at hd
      have hpair : pairOf host fields mapB e =
          some ⟨e.2.first.key, pairDiffs host fields e.2.first rowsB.first⟩ := by simp [pairOf, hb]
      simp only [hpair, List.filter_cons]
      by_cases hnil : pairDiffs host fields e.2.first rowsB.first = []
      · rw [ih _ (by simpa [visitA, hb, hd, hnil] using hw)]
        simp [visitA, hb, hd, hnil]
      · have hstep : (visitA host fields mapB w e).conflicts = (w.conflicts ++
            [MatchedPair.mk e.2.first.key (pairDiffs host fields e.2.first rowsB.first)]).take
              MAX_SAMPLES := by
          simp [visitA, hb, hd, hnil, pushSample_take hw]
        rw [ih _ (by rw [hstep]; exact List.length_take_le _ _), hstep, take_take_append]
        simp [hnil]

/-- The pairs of `reconcile`, before they are cut to a sample. -/
def pairs (a b : List ReconRow) (fields : List ReconField) : List MatchedPair :=
  (indexByKey host a).map.filterMap (pairOf host fields (indexByKey host b).map)

theorem reconcile_conflicts :
    (reconcile host a b fields).conflicts =
      ((pairs host a b fields).filter (·.diffs ≠ [])).take MAX_SAMPLES :=
  foldl_visitA_conflicts host fields _ _ _ (Nat.zero_le _)

def differTotal (summary : Summary) : ℕ := (summary.map fun e => e.2.differ).sum

/-! Agreement of the two reports. -/

/-- The rows that stand for a key found in both sources. -/
def Matched (a b : List ReconRow) (k : String) (rowA rowB : ReconRow) : Prop :=
  (OrderedMap.get (indexByKey host a).map k).map KeyRows.first = some rowA ∧
    (OrderedMap.get (indexByKey host b).map k).map KeyRows.first = some rowB

/-- The order that `unify` builds for a key. -/
def journalOrder (a b : List ReconRow) (fields : List ReconField) (k : String) : UnifiedOrder :=
  orderFor host fields (index host a) (index host b) k

structure JournalsAgree (a b : List ReconRow) (fields : List ReconField) (page size : ℤ) : Prop where
  both : (unify host a b fields page size).both = (reconcile host a b fields).matched
  onlyA : (unify host a b fields page size).onlyA = (reconcile host a b fields).onlyACount
  onlyB : (unify host a b fields page size).onlyB = (reconcile host a b fields).onlyBCount
  conflict : ∀ k rowA rowB, Matched host a b k rowA rowB →
    ((journalOrder host a b fields k).conflict = true ↔ pairDiffs host fields rowA rowB ≠ [])
  /-- A value missing or empty on one side is a difference for neither. -/
  nothingToCompare : ∀ k rowA rowB, Matched host a b k rowA rowB → ∀ f ∈ fields,
    present (some rowA) f.role = none ∨ present (some rowB) f.role = none →
    (∀ d ∈ pairDiffs host fields rowA rowB, d.role ≠ f.role) ∧
      ∀ u ∈ (journalOrder host a b fields k).fields, u.role = f.role → u.agree ≠ some false

/-- No matched pair holds an empty cell against a value that the comparison tells apart from it. -/
def NoEmptyAgainstValue (a b : List ReconRow) (fields : List ReconField) : Prop :=
  ∀ k rowA rowB, Matched host a b k rowA rowB → ∀ f ∈ fields, ∀ va vb,
    rowA.value f.role = some va → rowB.value f.role = some vb →
    (va = "" ↔ vb = "") ∨ valuesAgree host va vb f.compare = true

theorem present_of_value {row : ReconRow} {role v : String} (h : row.value role = some v) :
    present (some row) role = if v = "" then none else some v := by
  by_cases hv : v = "" <;> simp [present, h, hv]

theorem present_of_missing {row : ReconRow} {role : String} (h : row.value role = none) :
    present (some row) role = none := by
  simp [present, h]

theorem journalOrder_of_matched {a b : List ReconRow} {k : String} {rowA rowB : ReconRow}
    (fields : List ReconField) (h : Matched host a b k rowA rowB) :
    (journalOrder host a b fields k).conflict = fields.any (clash host (some rowA) (some rowB)) ∧
      (journalOrder host a b fields k).fields =
        fields.filterMap (unifiedOf host (some rowA) (some rowB)) := by
  unfold journalOrder orderFor
  rw [get_index, get_index, h.1, h.2]
  exact ⟨fieldsOf_conflict host _ _ _, fieldsOf_fields host _ _ _⟩

/-- Where neither side is empty against a value, both see the same fields differ. -/
theorem clash_eq_diffOf {rowA rowB : ReconRow} {f : ReconField}
    (h : ∀ va vb, rowA.value f.role = some va → rowB.value f.role = some vb →
      (va = "" ↔ vb = "") ∨ valuesAgree host va vb f.compare = true) :
    clash host (some rowA) (some rowB) f = (diffOf host rowA rowB f).isSome := by
  unfold clash diffOf
  cases ha : rowA.value f.role with
  | none => simp [present_of_missing ha]
  | some va =>
    cases hb : rowB.value f.role with
    | none => simp [present_of_missing hb]
    | some vb =>
      rw [present_of_value ha, present_of_value hb]
      by_cases hva : va = "" <;> by_cases hvb : vb = "" <;>
        cases hv : valuesAgree host va vb f.compare <;> simp_all

theorem diffOf_role {rowA rowB : ReconRow} {f : ReconField} {d : FieldDiff}
    (h : diffOf host rowA rowB f = some d) :
    d.role = f.role ∧ ∃ va vb, rowA.value f.role = some va ∧ rowB.value f.role = some vb ∧
      ¬(va = "" ∧ vb = "") ∧ valuesAgree host va vb f.compare = false := by
  unfold diffOf at h
  split at h
  · rename_i va vb ha hb
    split_ifs at h with hc
    cases h
    rw [not_or, Bool.not_eq_true] at hc
    exact ⟨rfl, va, vb, ha, hb, hc.1, hc.2⟩
  · cases h

theorem unifiedOf_disagree {rowA rowB : Option ReconRow} {f : ReconField} {u : UnifiedField}
    (h : unifiedOf host rowA rowB f = some u) (hu : u.agree = some false) :
    u.role = f.role ∧ present rowA f.role ≠ none ∧ present rowB f.role ≠ none := by
  unfold unifiedOf at h
  split at h
  · cases h
  · rename_i ha hb
    cases h
    exact ⟨rfl, by simp [ha], by simp [hb]⟩
  · cases h
    cases hu

theorem journals_agree_iff (a b : List ReconRow) (fields : List ReconField) (page size : ℤ) :
    JournalsAgree host a b fields page size ↔ NoEmptyAgainstValue host a b fields := by
  constructor
  · intro h k rowA rowB hm f hf va vb ha hb
    by_contra hbad
    obtain ⟨hne, hv⟩ := not_or.mp hbad
    have hdiff : diffOf host rowA rowB f = some ⟨f.role, f.label, va, vb⟩ := by
      have hboth : ¬(va = "" ∧ vb = "") := fun hc => hne (by simp [hc.1, hc.2])
      simp [diffOf, ha, hb, hboth, hv]
    have hempty : present (some rowA) f.role = none ∨ present (some rowB) f.role = none := by
      rw [present_of_value ha, present_of_value hb]
      by_cases hva : va = "" <;> by_cases hvb : vb = "" <;> simp_all
    refine (h.nothingToCompare k rowA rowB hm f hf hempty).1 ⟨f.role, f.label, va, vb⟩ ?_ rfl
    rw [pairDiffs_eq]
    exact List.mem_filterMap.mpr ⟨f, hf, hdiff⟩
  · intro h
    refine ⟨unify_both host a b fields page size, unify_onlyA host a b fields page size,
      unify_onlyB host a b fields page size, ?_, ?_⟩
    · intro k rowA rowB hm
      rw [(journalOrder_of_matched host fields hm).1, pairDiffs_eq, List.any_eq_true, ne_eq,
        List.filterMap_eq_nil_iff, not_forall]
      refine exists_congr fun f => ?_
      rw [Classical.not_imp]
      refine and_congr_right fun hf => ?_
      rw [clash_eq_diffOf host (h k rowA rowB hm f hf), ← ne_eq, Option.ne_none_iff_isSome]
    · intro k rowA rowB hm f hf hempty
      constructor
      · intro d hd hrole
        rw [pairDiffs_eq] at hd
        obtain ⟨f', hf', hd'⟩ := List.mem_filterMap.mp hd
        obtain ⟨hr, va, vb, ha, hb, hboth, hv⟩ := diffOf_role host hd'
        rcases h k rowA rowB hm f' hf' va vb ha hb with hiff | hagree
        · rw [← hrole, hr, present_of_value ha, present_of_value hb] at hempty
          by_cases hva : va = "" <;> by_cases hvb : vb = "" <;> simp_all
        · simp [hv] at hagree
      · intro u hu hrole hagree
        rw [(journalOrder_of_matched host fields hm).2] at hu
        obtain ⟨f', _, hu'⟩ := List.mem_filterMap.mp hu
        obtain ⟨hr, hpa, hpb⟩ := unifiedOf_disagree host hu' hagree
        rw [← hrole, hr] at hempty
        exact hempty.elim hpa hpb

/-- A host that reads the inputs below as the real one does. -/
def plainHost : Js.Host where
  toLowerCase s := s
  number s := if s = "1" then some 1 else none
  numberText n := toString n.num
  toFixed12 n := toString n.num ++ ".000000000000"
  localeCompare a b := if a = b then 0 else if Js.before a b then -1 else 1
  sha256 s := s

/-- One operation in both sources, its payment code empty in the first. -/
theorem journals_disagree :
    ¬ JournalsAgree plainHost [⟨"1", [("payment", "")]⟩] [⟨"1", [("payment", "cash")]⟩]
      [⟨"payment", "Оплата", .exact⟩] 1 50 := by
  intro h
  have hm : Matched plainHost [⟨"1", [("payment", "")]⟩] [⟨"1", [("payment", "cash")]⟩] "1"
      ⟨"1", [("payment", "")]⟩ ⟨"1", [("payment", "cash")]⟩ := by
    constructor <;> decide
  refine (h.nothingToCompare _ _ _ hm ⟨"payment", "Оплата", .exact⟩ (by simp) (.inl (by decide))).1
    ⟨"payment", "Оплата", "", "cash"⟩ ?_ rfl
  decide

end Mydon.Recon
