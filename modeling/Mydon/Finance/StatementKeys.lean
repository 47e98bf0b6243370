import Mydon.Finance.BankStatement

/-! When the keys of a bank statement tell its operations apart. -/

namespace Mydon.Finance

open Mydon.Lib

variable {host : Js.Host} {table table' : List (List String)} {out out' : List BankStatementRow} {ops ops' : List Operation}

/-- The operations of a statement. -/
def bookedOperations (host : Js.Host) (table : List (List String)) : List Operation :=
  match statementColumns table with
  | .ok col => table.filterMap (operationOf host col)
  | .error _ => []

/-- The operations with their keys. -/
def keyed (host : Js.Host) (ops : List Operation) : List (Operation × String) :=
  (ranks (Operation.text host) ops).map fun p => (p.1, numbered (p.1.text host) p.2)

theorem keyed_of_ok (h : parseBankStatement host table = .ok out) :
    out.map (fun r => (r.operation host, r.extId)) = keyed host (bookedOperations host table) := by
  obtain ⟨col, hcol, rfl⟩ := parseBankStatement_eq_ok.mp h
  have hops : bookedOperations host table = (readRows host col table).map (·.operation host) := by
    unfold bookedOperations
    rw [hcol, readRows_operations]
  have hkeys : ranks BankStatementRow.extId (readRows host col table) =
      ranks (fun r => (r.operation host).text host) (readRows host col table) := by
    apply ranksFrom_congr_key
    intro r hr
    obtain ⟨e, -, he⟩ := List.mem_filterMap.mp hr
    exact (readRow_operation he).2
  unfold keyed
  rw [hops, ranks_map, ← hkeys, List.map_map, List.map_map]
  apply List.map_congr_left
  intro p hp
  obtain ⟨e, -, he⟩ := List.mem_filterMap.mp (mem_of_mem_ranks hp)
  simp only [Function.comp_apply, numberRow, (readRow_operation he).2]
  rfl

/-! Numbered texts. -/

theorem numbered_one (base : String) : numbered base 1 = base := if_pos rfl

theorem numbered_of_ne_one {base : String} {n : ℕ} (h : n ≠ 1) : numbered base n = base ++ "::" ++ toString n := if_neg h

theorem colon_notMem_toString (n : ℕ) : ':' ∉ (toString n).toList := by
  intro hmem
  have hlist : (toString n).toList = Nat.toDigits 10 n := Nat.toList_repr
  rw [hlist] at hmem
  have hdigit := Nat.isDigit_of_mem_toDigits (by decide) (by decide) hmem
  revert hdigit
  decide

theorem marked_inj {b b' : String} {n n' : ℕ} (h : b ++ "::" ++ toString n = b' ++ "::" ++ toString n') :
    b = b' ∧ n = n' := by
  have hchars := congrArg String.toList h
  have hsplit : ∀ (b : String) (n : ℕ), (b ++ "::" ++ toString n).toList = (b.toList ++ [':']) ++ ':' :: (toString n).toList := by
    intro b n
    rw [String.toList_append, String.toList_append]
    simp
  rw [hsplit, hsplit] at hchars
  have hrev := congrArg List.reverse hchars
  simp only [List.reverse_append, List.reverse_cons, List.append_assoc, List.cons_append] at hrev
  have hnone : ∀ n : ℕ, ':' ∉ (toString n).toList.reverse := fun n hmem => colon_notMem_toString n (List.mem_reverse.mp hmem)
  obtain ⟨hn, hb⟩ := Js.cut_inj (hnone n) (hnone n') hrev
  exact ⟨String.toList_inj.mp (List.reverse_injective (List.cons.inj hb).2),
    Js.toString_inj (String.toList_inj.mp (List.reverse_injective hn))⟩

theorem ne_marked (b : String) (n : ℕ) : b ≠ b ++ "::" ++ toString n := by
  intro h
  have hlength := congrArg (fun s : String => s.toList.length) h
  simp at hlength

/-! The keys tell the operations apart. -/

/-- A purpose with other white space, or letters of another case: the same words. -/
def SameWords (host : Js.Host) (p p' : String) : Prop :=
  List.Forall₂ (fun w w' => host.toLowerCase (String.ofList w) = host.toLowerCase (String.ofList w')) (Js.words p.toList)
    (Js.words p'.toList)

def SameRow (host : Js.Host) (col : HeaderName → ℕ) (row row' : List String) : Prop :=
  ∀ i, if i = col .purpose then SameWords host (cellText row i) (cellText row' i) else cellText row i = cellText row' i

/-- The statement exported again: its rows in another order, but for the header, and their purposes written otherwise. -/
structure Reexported (host : Js.Host) (table again : List (List String)) : Prop where
  header : again[HEADER_ROW_INDEX]? = table[HEADER_ROW_INDEX]?
  rows : ∀ col, statementColumns table = .ok col → ∃ mid, table.Perm mid ∧ List.Forall₂ (SameRow host col) mid again

structure KeysRight (host : Js.Host) (table : List (List String)) (out : List BankStatementRow)
    (table' : List (List String)) (out' : List BankStatementRow) : Prop where
  distinct : (out.map (·.extId)).Nodup
  distinct' : (out'.map (·.extId)).Nodup
  stable : ∀ again, Reexported host table again →
    ∃ new, parseBankStatement host again = .ok new ∧ (new.map (·.extId)).Perm (out.map (·.extId))
  stable' : ∀ again, Reexported host table' again →
    ∃ new, parseBankStatement host again = .ok new ∧ (new.map (·.extId)).Perm (out'.map (·.extId))
  onlyIf : ∀ r ∈ out, ∀ r' ∈ out', r.extId = r'.extId → r.operation host = r'.operation host

/-- No text of an operation is that of a repeated one with its number; the operations of one text that take turns in two
statements are the same. -/
structure KeysClear (host : Js.Host) (ops ops' : List Operation) : Prop where
  unnumbered : ∀ os ∈ [ops, ops'], ∀ os' ∈ [ops, ops'], ∀ b n, 2 ≤ n → n ≤ (os.map (Operation.text host)).count b →
    b ++ "::" ++ toString n ∉ os'.map (Operation.text host)
  alike : ∀ o o' n, (o, n) ∈ ranks (Operation.text host) ops → (o', n) ∈ ranks (Operation.text host) ops' →
    o.text host = o'.text host → o = o'

/-! Another export of a statement has the same keys. -/

/-- Between spaces, letters get the case that they have alone. -/
def LowersWords (host : Js.Host) : Prop :=
  ∀ a b, host.toLowerCase (a ++ " " ++ b) = host.toLowerCase a ++ " " ++ host.toLowerCase b

theorem lower_spaced (hlower : LowersWords host) {ws ws' : List (List Char)}
    (h : List.Forall₂ (fun w w' => host.toLowerCase (String.ofList w) = host.toLowerCase (String.ofList w')) ws ws') :
    host.toLowerCase (String.ofList (Js.spaced ws)) = host.toLowerCase (String.ofList (Js.spaced ws')) := by
  induction h with
  | nil => rfl
  | @cons w w' ws ws' hw hws ih =>
    have hcons : ∀ (w : List Char) {ws : List (List Char)}, ws ≠ [] →
        String.ofList (Js.spaced (w :: ws)) = String.ofList w ++ " " ++ String.ofList (Js.spaced ws) := by
      intro w ws hne
      rw [Js.spaced_cons hne]
      apply String.toList_inj.mp
      simp
    rcases hws with _ | ⟨hv, hvs⟩
    · simpa [Js.spaced] using hw
    · rw [hcons w (List.cons_ne_nil _ _), hcons w' (List.cons_ne_nil _ _), hlower, hlower, hw, ih]

theorem purposeKey_sameWords (hlower : LowersWords host) {p p' : String} (h : SameWords host p p') :
    purposeKey host (Js.trim p) = purposeKey host (Js.trim p') := by
  unfold purposeKey Js.trim
  rw [String.toList_ofList, String.toList_ofList, Js.collapse_trim, Js.collapse_trim]
  exact lower_spaced hlower h

theorem operationOf_sameRow (hlower : LowersWords host) {col : HeaderName → ℕ} (hcol : Function.Injective col)
    {row row' : List String} (h : SameRow host col row row') : operationOf host col row = operationOf host col row' := by
  have hcell : ∀ column, column ≠ .purpose → cellText row (col column) = cellText row' (col column) := by
    intro column hne
    have hrow := h (col column)
    rwa [if_neg fun heq => hne (hcol heq)] at hrow
  have hpurpose := h (col .purpose)
  rw [if_pos rfl] at hpurpose
  unfold operationOf readRow
  rw [Option.map_map, Option.map_map, hcell .date (by decide)]
  congr 1
  funext date
  simp only [Function.comp_apply, BankStatementRow.operation, hcell .account (by decide), hcell .docNo (by decide),
    hcell .debit (by decide), hcell .credit (by decide), purposeKey_sameWords hlower hpurpose]

theorem operations_reexported (hlower : LowersWords host) {again : List (List String)} {col : HeaderName → ℕ}
    (hcol : statementColumns table = .ok col) (h : Reexported host table again) :
    statementColumns again = .ok col ∧ (bookedOperations host table).Perm (bookedOperations host again) := by
  have hagain : statementColumns again = .ok col := by
    rw [← hcol]
    unfold statementColumns
    rw [h.header]
  refine ⟨hagain, ?_⟩
  obtain ⟨mid, hperm, hrows⟩ := h.rows col hcol
  unfold bookedOperations
  rw [hcol, hagain]
  have hsame : ∀ {mid again : List (List String)}, List.Forall₂ (SameRow host col) mid again →
      mid.filterMap (operationOf host col) = again.filterMap (operationOf host col) := by
    intro mid again hrows
    induction hrows with
    | nil => rfl
    | cons hrow _ ih => rw [List.filterMap_cons, List.filterMap_cons, ih, operationOf_sameRow hlower (columns_inj hcol) hrow]
  exact (hperm.filterMap _).trans (List.Perm.of_eq (hsame hrows))

theorem extIds_of_ok (h : parseBankStatement host table = .ok out) : out.map (·.extId) =
    ((ranks (Operation.text host) (bookedOperations host table)).map fun p => (p.1.text host, p.2)).map
      fun p => numbered p.1 p.2 := by
  have hkeyed := congrArg (List.map Prod.snd) (keyed_of_ok h)
  rw [List.map_map] at hkeyed
  rw [List.map_map]
  exact hkeyed.trans (by rw [keyed, List.map_map]; rfl)

theorem extIds_reexported (hlower : LowersWords host) {again : List (List String)}
    (h : parseBankStatement host table = .ok out) (hagain : Reexported host table again) :
    ∃ new, parseBankStatement host again = .ok new ∧ (new.map (·.extId)).Perm (out.map (·.extId)) := by
  obtain ⟨col, hcol, -⟩ := parseBankStatement_eq_ok.mp h
  obtain ⟨hcol', hperm⟩ := operations_reexported hlower hcol hagain
  have hnew := (@parseBankStatement_eq_ok host again _).mpr ⟨col, hcol', rfl⟩
  refine ⟨_, hnew, ?_⟩
  rw [extIds_of_ok hnew, extIds_of_ok h]
  exact (keys_ranks_perm hperm.symm).map _

/-! Two texts get one key only by their numbers. -/

theorem numbered_eq_cases {b b' : String} {n n' : ℕ} (h : numbered b n = numbered b' n') :
    b = b' ∧ n = n' ∨ n' ≠ 1 ∧ b = b' ++ "::" ++ toString n' ∨ n ≠ 1 ∧ b' = b ++ "::" ++ toString n := by
  by_cases hn : n = 1
  · subst hn
    rw [numbered_one] at h
    by_cases hn' : n' = 1
    · subst hn'
      rw [numbered_one] at h
      exact .inl ⟨h, rfl⟩
    · rw [numbered_of_ne_one hn'] at h
      exact .inr (.inl ⟨hn', h⟩)
  · rw [numbered_of_ne_one hn] at h
    by_cases hn' : n' = 1
    · subst hn'
      rw [numbered_one] at h
      exact .inr (.inr ⟨hn, h.symm⟩)
    · rw [numbered_of_ne_one hn'] at h
      exact .inl (marked_inj h)

theorem rank_of_mem {o : Operation} {n : ℕ} (h : (o, n) ∈ ranks (Operation.text host) ops) :
    0 < n ∧ n ≤ (ops.map (Operation.text host)).count (o.text host) := mem_ranks.mp ⟨o, h, rfl⟩

/-- No text of one list is that of a repeated text of another with its number. -/
def Unnumbered (host : Js.Host) (ops ops' : List Operation) : Prop :=
  ∀ b n, 2 ≤ n → n ≤ (ops.map (Operation.text host)).count b →
    b ++ "::" ++ toString n ∉ ops'.map (Operation.text host)

/-- One key is one operation. -/
def Telling (ks ks' : List (Operation × String)) : Prop := ∀ k ∈ ks, ∀ k' ∈ ks', k.2 = k'.2 → k.1 = k'.1

theorem mem_keyed {o : Operation} {n : ℕ} (h : (o, n) ∈ ranks (Operation.text host) ops) :
    (o, numbered (o.text host) n) ∈ keyed host ops := List.mem_map_of_mem h

theorem unnumbered_of_telling (h : Telling (keyed host ops) (keyed host ops')) : Unnumbered host ops ops' := by
  intro b n hn hcount hmem
  obtain ⟨o, ho, rfl⟩ := mem_ranks.mpr ⟨by omega, hcount⟩
  obtain ⟨o', ho', htext⟩ := mem_ranks.mpr ⟨Nat.one_pos, List.count_pos_iff.mpr hmem⟩
  have hkey : numbered (o.text host) n = numbered (o'.text host) 1 := by
    rw [numbered_of_ne_one (by omega), numbered_one, htext]
  have hsame := h _ (mem_keyed ho) _ (mem_keyed ho') hkey
  dsimp only at hsame
  rw [← hsame] at htext
  exact ne_marked _ _ htext

theorem unnumbered_rank {o o' : Operation} {n n' : ℕ} (h : Unnumbered host ops ops')
    (ho : (o, n) ∈ ranks (Operation.text host) ops) (ho' : (o', n') ∈ ranks (Operation.text host) ops') (hn : n ≠ 1) :
    o'.text host ≠ o.text host ++ "::" ++ toString n := by
  intro heq
  obtain ⟨hpos, hle⟩ := rank_of_mem ho
  exact h _ n (by omega) hle (heq ▸ List.mem_map_of_mem (mem_of_mem_ranks ho'))

/-- Within one statement, keys are distinct when no text is numbered. -/
theorem nodup_keys_iff : ((keyed host ops).map Prod.snd).Nodup ↔ Unnumbered host ops ops := by
  have hmap : (keyed host ops).map Prod.snd =
      ((ranks (Operation.text host) ops).map fun p => (p.1.text host, p.2)).map fun p => numbered p.1 p.2 := by
    rw [keyed, List.map_map, List.map_map]
    rfl
  constructor
  · intro hnodup
    apply unnumbered_of_telling
    intro k hk k' hk' heq
    rw [List.inj_on_of_nodup_map hnodup hk hk' heq]
  · intro h
    rw [hmap]
    apply (nodup_keys_ranksFrom [] ops).map_on
    rintro p hp p' hp' heq
    obtain ⟨⟨o, n⟩, ho, rfl⟩ := List.mem_map.mp hp
    obtain ⟨⟨o', n'⟩, ho', rfl⟩ := List.mem_map.mp hp'
    rcases numbered_eq_cases heq with ⟨htext, hrank⟩ | ⟨hn', htext⟩ | ⟨hn, htext⟩
    · exact Prod.ext htext hrank
    · exact absurd htext (unnumbered_rank h ho' ho hn')
    · exact absurd htext (unnumbered_rank h ho ho' hn)

/-- Between two statements, one key is one operation when no text is numbered and the operations of one text take the
same turns. -/
theorem telling_iff : Telling (keyed host ops) (keyed host ops') ↔
    Unnumbered host ops ops' ∧ Unnumbered host ops' ops ∧
      ∀ o o' n, (o, n) ∈ ranks (Operation.text host) ops → (o', n) ∈ ranks (Operation.text host) ops' →
        o.text host = o'.text host → o = o' := by
  constructor
  · intro h
    refine ⟨unnumbered_of_telling h, unnumbered_of_telling fun k' hk' k hk heq => (h k hk k' hk' heq.symm).symm, ?_⟩
    intro o o' n ho ho' htext
    exact h _ (mem_keyed ho) _ (mem_keyed ho') (by rw [htext])
  · rintro ⟨h, h', halike⟩ k hk k' hk' heq
    obtain ⟨⟨o, n⟩, ho, rfl⟩ := List.mem_map.mp hk
    obtain ⟨⟨o', n'⟩, ho', rfl⟩ := List.mem_map.mp hk'
    rcases numbered_eq_cases heq with ⟨htext, hrank⟩ | ⟨hn', htext⟩ | ⟨hn, htext⟩
    · obtain rfl : n = n' := hrank
      exact halike o o' n ho ho' htext
    · exact absurd htext (unnumbered_rank h' ho' ho hn')
    · exact absurd htext (unnumbered_rank h ho ho' hn)

theorem onlyIf_iff (h : parseBankStatement host table = .ok out) (h' : parseBankStatement host table' = .ok out') :
    (∀ r ∈ out, ∀ r' ∈ out', r.extId = r'.extId → r.operation host = r'.operation host) ↔
      Telling (keyed host (bookedOperations host table)) (keyed host (bookedOperations host table')) := by
  rw [← keyed_of_ok h, ← keyed_of_ok h']
  unfold Telling
  simp only [List.forall_mem_map]

theorem distinct_iff (h : parseBankStatement host table = .ok out) :
    (out.map (·.extId)).Nodup ↔ Unnumbered host (bookedOperations host table) (bookedOperations host table) := by
  rw [← nodup_keys_iff, ← keyed_of_ok h, List.map_map]
  rfl

theorem keysClear_iff : KeysClear host ops ops' ↔ Unnumbered host ops ops ∧ Unnumbered host ops' ops' ∧
    Telling (keyed host ops) (keyed host ops') := by
  rw [telling_iff]
  constructor
  · intro h
    exact ⟨h.unnumbered ops (by simp) ops (by simp), h.unnumbered ops' (by simp) ops' (by simp),
      h.unnumbered ops (by simp) ops' (by simp), h.unnumbered ops' (by simp) ops (by simp), h.alike⟩
  · rintro ⟨hown, hown', hcross, hcross', halike⟩
    refine ⟨?_, halike⟩
    simp only [List.forall_mem_cons, List.not_mem_nil, false_imp_iff, implies_true, and_true]
    exact ⟨⟨hown, hcross⟩, hcross', hown'⟩

/-- The keys of two statements are right when no text of an operation can be taken for another's. -/
theorem keysRight_iff (hlower : LowersWords host) (h : parseBankStatement host table = .ok out)
    (h' : parseBankStatement host table' = .ok out') : KeysRight host table out table' out' ↔
      KeysClear host (bookedOperations host table) (bookedOperations host table') := by
  rw [keysClear_iff, ← distinct_iff h, ← distinct_iff h', ← onlyIf_iff h h']
  constructor
  · intro hright
    exact ⟨hright.distinct, hright.distinct', hright.onlyIf⟩
  · rintro ⟨hdistinct, hdistinct', honly⟩
    exact ⟨hdistinct, hdistinct', fun _ => extIds_reexported hlower h, fun _ => extIds_reexported hlower h', honly⟩

def statementHost : Js.Host :=
  ⟨fun s => String.ofList (s.toList.map Char.toLower), fun s => if s = "9000" then some 9000 else none, fun _ => "9000",
    fun _ => "", fun _ _ => 0, fun _ => ""⟩

theorem lowersWords_statementHost : LowersWords statementHost := by
  intro a b
  apply String.toList_inj.mp
  simp [statementHost]

/-- A statement with operations of one document, for these purposes. -/
def statementOf (purposes : List String) : List (List String) :=
  ["Информация об операциях"] :: HEADER_NAMES.map HeaderName.title ::
    purposes.map fun purpose => ["12.06.25", "202", "", "7", "", "", "", "9000", purpose, "", ""]

theorem keysRight_iff_two : ∃ out out', parseBankStatement statementHost (statementOf ["Взнос", "взнос"]) = .ok out ∧
    parseBankStatement statementHost (statementOf ["Взнос"]) = .ok out' ∧
    (KeysRight statementHost (statementOf ["Взнос", "взнос"]) out (statementOf ["Взнос"]) out' ↔
      KeysClear statementHost (bookedOperations statementHost (statementOf ["Взнос", "взнос"]))
        (bookedOperations statementHost (statementOf ["Взнос"]))) := by
  obtain ⟨out, hout⟩ := Option.isSome_iff_exists.mp
    (by decide +kernel : (parseBankStatement statementHost (statementOf ["Взнос", "взнос"])).toOption.isSome = true)
  obtain ⟨out', hout'⟩ := Option.isSome_iff_exists.mp
    (by decide +kernel : (parseBankStatement statementHost (statementOf ["Взнос"])).toOption.isSome = true)
  rw [Js.toOption_eq_some] at hout hout'
  exact ⟨out, out', hout, hout', keysRight_iff lowersWords_statementHost hout hout'⟩

/-- An operation whose purpose ends in a number is taken for the repetition of another. -/
theorem numbered_purpose : ∃ out, parseBankStatement statementHost (statementOf ["x", "x", "x::2"]) = .ok out ∧
    out.map (·.purpose) = ["x", "x", "x::2"] ∧ ¬(out.map (·.extId)).Nodup := by
  obtain ⟨out, hout⟩ := Option.isSome_iff_exists.mp
    (by decide +kernel : (parseBankStatement statementHost (statementOf ["x", "x", "x::2"])).toOption.isSome = true)
  have hrows : ((parseBankStatement statementHost (statementOf ["x", "x", "x::2"])).toOption.map
      fun out => (out.map (·.purpose), out.map (·.extId))) = some (["x", "x", "x::2"],
        ["202::7::2025-06-12::::9000::x", "202::7::2025-06-12::::9000::x::2", "202::7::2025-06-12::::9000::x::2"]) := by
    decide +kernel
  rw [hout, Option.map_some, Option.some_inj, Prod.mk.injEq] at hrows
  refine ⟨out, Js.toOption_eq_some.mp hout, hrows.1, ?_⟩
  rw [hrows.2]
  decide

end Mydon.Finance
