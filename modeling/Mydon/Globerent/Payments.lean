import Mydon.Globerent.Forward

/-! Payment marks and the obligations to the factory, over the runs of the operations on import contracts.
The books of a contract are its obligations of each kind, and its units. -/

namespace Mydon.Globerent

open Mydon.Lib Mydon.Finance Mydon.Stock

/-- The flows to the factory of a contract, of one kind. -/
def Db.obligations (db : Db) (k : ℕ) (kind : PaymentKind) : List Flow := db.flows.filter (isObligation k kind)

/-- There is something to pay of this kind. -/
def ImportContract.owes (c : ImportContract) (kind : PaymentKind) : Bool := (c.amountOf kind).any (0 < ·)

def ImportContract.quantity (c : ImportContract) : ℕ := (c.items.map ImportItem.qty).sum

/-! Obligations are told apart by the words that their purpose begins with. -/

variable {env : Env} {db db' : Db} {id k : ℕ} {kind kind' : PaymentKind} {f : Flow} {c c' : ImportContract}
  {op : ImportOp}

theorem prefix_append {p l : List Char} (h : p.isPrefixOf l = true) (rest : List Char) : p.isPrefixOf (l ++ rest) = true := by
  rw [List.isPrefixOf_iff_prefix] at h ⊢
  exact h.trans (List.prefix_append l rest)

theorem head_pattern (kind : PaymentKind) :
    kind.pattern.toList.head? = some (match kind with | .prepayment => 'п' | .balance => 'б') := by
  cases kind <;> decide +kernel

theorem head_of_isPrefixOf {p l : List Char} {a : Char} (hp : p.head? = some a) (h : p.isPrefixOf l = true) :
    l.head? = some a := by
  obtain ⟨rest, rfl⟩ := List.isPrefixOf_iff_prefix.mp h
  rw [List.head?_append, hp, Option.some_or]

theorem isObligation_iff : isObligation k kind f = true ↔ f.importContractId = some k ∧ f.direction = .outgoing ∧
    ∃ p, f.purpose = some p ∧ kind.pattern.toList.isPrefixOf p.toList = true := by
  unfold isObligation
  rcases f.purpose with _ | p <;> simp [and_assoc]

/-- No flow is an obligation of two contracts, or of two kinds. -/
theorem isObligation_unique {k' : ℕ} (h : isObligation k kind f = true) (h' : isObligation k' kind' f = true) :
    k' = k ∧ kind' = kind := by
  obtain ⟨hlink, -, p, hp, hpre⟩ := isObligation_iff.mp h
  obtain ⟨hlink', -, p', hp', hpre'⟩ := isObligation_iff.mp h'
  obtain rfl := Option.some.inj (hp.symm.trans hp')
  refine ⟨Option.some.inj (hlink'.symm.trans hlink), ?_⟩
  have hhead := (head_of_isPrefixOf (head_pattern kind) hpre).symm.trans (head_of_isPrefixOf (head_pattern kind') hpre')
  revert hhead
  cases kind <;> cases kind' <;> decide

theorem pattern_prefix_label (kind : PaymentKind) (rest : String) :
    kind.pattern.toList.isPrefixOf (kind.label ++ rest).toList = true := by
  rw [String.toList_append]
  refine prefix_append ?_ _
  cases kind <;> decide +kernel

/-! What the operations write to the flows. -/

/-- Flows are numbered as they come. -/
def Db.Numbered (db : Db) : Prop := db.flows.map Finance.Flow.id = List.range db.flows.length

theorem Db.Numbered.nodup (h : db.Numbered) : (db.flows.map Finance.Flow.id).Nodup := by
  rw [h]
  exact List.nodup_range

theorem numbered_append (h : db.Numbered) (hflows : db'.flows = db.flows ++ [f]) (hid : f.id = db.flows.length) :
    db'.Numbered := by
  unfold Db.Numbered
  rw [hflows, List.map_append, List.map_singleton, List.length_append, List.length_singleton, List.range_succ, h, hid]

/-- The payment plan of one kind: an open obligation, where something is owed. -/
theorem planPayment_eq_ok (h : planPayment env c kind db = .ok db') :
    (c.owes kind = false ∧ db' = db) ∨ c.owes kind = true ∧ ∃ f, db'.flows = db.flows ++ [f] ∧
      f.id = db.flows.length ∧ f.status = .planned ∧ isObligation c.id kind f = true := by
  unfold planPayment at h
  unfold ImportContract.owes
  rcases ha : c.amountOf kind with _ | amount
  · rw [ha] at h
    exact .inl ⟨rfl, (Except.ok.inj h).symm⟩
  rw [ha] at h
  by_cases hpos : 0 < amount
  · right
    simp only [Option.filter_some, decide_eq_true hpos, if_true] at h
    obtain ⟨created, hcreated, h⟩ := Js.bind_eq_ok.mp h
    obtain ⟨hid, hdirection, hstatus, -, hpurpose, -⟩ := createFlow_eq_ok hcreated
    obtain rfl := Except.ok.inj h
    refine ⟨by simpa using hpos, _, rfl, hid, hstatus, isObligation_iff.mpr ⟨rfl, hdirection, _, hpurpose, ?_⟩⟩
    rw [String.append_assoc]
    exact pattern_prefix_label kind _
  · left
    simp only [Option.filter_some, decide_eq_false hpos, Bool.false_eq_true, if_false] at h
    exact ⟨by simpa using hpos, (Except.ok.inj h).symm⟩

theorem obligations_append (hflows : db'.flows = db.flows ++ [f]) (hf : isObligation k kind f = true) (k' : ℕ)
    (kind' : PaymentKind) :
    db'.obligations k' kind' = db.obligations k' kind' ++ if k' = k ∧ kind' = kind then [f] else [] := by
  unfold Db.obligations
  rw [hflows, List.filter_append]
  split_ifs with heq
  · obtain ⟨rfl, rfl⟩ := heq
    rw [List.filter_cons_of_pos hf, List.filter_nil]
  · rw [List.filter_cons_of_neg fun hf' => heq (isObligation_unique hf hf'), List.filter_nil]

/-- A payment of one flow, as it shows among the obligations. -/
theorem markPaid_obligations {rate : Option ℚ} {now : ℤ} (hnumbered : db.Numbered)
    (h : markPaid db.flows id rate now = .ok f) (hflows : db'.flows = Table.write Finance.Flow.id db.flows f) (k : ℕ)
    (kind : PaymentKind) :
    db'.obligations k kind = (db.obligations k kind).map (fun r => if r.id = id then f else r) ∧ db'.Numbered := by
  obtain ⟨old, uzs, r, hold, -, hf⟩ := markPaid_eq_ok h
  have holdId : old.id = id := Table.key_of_lookup hold
  have hid : f.id = id := by
    rw [hf]
    exact holdId
  have hsame : isObligation k kind f = isObligation k kind old := by
    rw [hf]
    rfl
  have hnumbered' : db'.Numbered := by
    unfold Db.Numbered
    rw [hflows, Table.map_key_write, hnumbered]
    unfold Table.write
    rw [List.length_map]
  refine ⟨?_, hnumbered'⟩
  unfold Db.obligations
  rw [hflows]
  unfold Table.write
  rw [List.filter_map, hid]
  congr 1
  refine List.filter_congr fun row hrow => ?_
  simp only [Function.comp_apply]
  split_ifs with hrowId
  · have heq : row = old := Table.eq_of_key_eq hnumbered.nodup hrow (Table.mem_of_lookup hold)
      (hrowId.trans holdId.symm)
    rw [hsame, heq]
  · rfl

/-! The books of one contract. -/

structure SameBooks (db db' : Db) (k : ℕ) : Prop where
  obligations : ∀ kind, db'.obligations k kind = db.obligations k kind
  units : (db'.unitsOf k).length = (db.unitsOf k).length

/-- Before signing there is nothing. -/
structure Unopened (db : Db) (k : ℕ) : Prop where
  obligations : ∀ kind, db.obligations k kind = []
  units : (db.unitsOf k).length = 0

/-- After it: the units of the specification, and an obligation of each kind that is paid where the contract says so. -/
structure Opened (db : Db) (k : ℕ) (c : ImportContract) : Prop where
  owed : ∀ kind, c.owes kind = true → ∃ f, db.obligations k kind = [f] ∧ (f.status = .planned ∨ f.status = .actual) ∧
    (c.paidAtOf kind ≠ none ↔ f.status = .actual)
  nothing : ∀ kind, c.owes kind = false → db.obligations k kind = []
  units : (db.unitsOf k).length = c.quantity

theorem Unopened.congr (h : Unopened db k) (hsame : SameBooks db db' k) : Unopened db' k :=
  ⟨fun kind => (hsame.obligations kind).trans (h.obligations kind), hsame.units.trans h.units⟩

/-- What the books read of the contract. -/
structure SameTerms (c c' : ImportContract) : Prop where
  amounts : ∀ kind, c'.amountOf kind = c.amountOf kind
  items : c'.items = c.items

theorem SameTerms.owes (h : SameTerms c c') (kind : PaymentKind) : c'.owes kind = c.owes kind := by
  unfold ImportContract.owes
  rw [h.amounts]

theorem Opened.congr (h : Opened db k c) (hterms : SameTerms c c') (hpaid : ∀ kind, c'.paidAtOf kind = c.paidAtOf kind)
    (hsame : SameBooks db db' k) : Opened db' k c' := by
  refine ⟨fun kind howes => ?_, fun kind hnot => ?_, ?_⟩
  · rw [hterms.owes] at howes
    rw [hsame.obligations, hpaid]
    exact h.owed kind howes
  · rw [hterms.owes] at hnot
    exact (hsame.obligations kind).trans (h.nothing kind hnot)
  · unfold ImportContract.quantity
    rw [hterms.items]
    exact hsame.units.trans h.units

theorem SameTerms.refl (c : ImportContract) : SameTerms c c := ⟨fun _ => rfl, rfl⟩

theorem Opened.length_le (h : Opened db k c) (kind : PaymentKind) : (db.obligations k kind).length ≤ 1 := by
  rcases howes : c.owes kind with _ | _
  · rw [h.nothing kind howes]
    exact Nat.zero_le 1
  · obtain ⟨f, hf, -⟩ := h.owed kind howes
    rw [hf]
    rfl

/-! What an operation does to the books of one contract. -/

theorem sameBooks_of_eq (hflows : db'.flows = db.flows) (hunits : db'.units = db.units) : SameBooks db db' k := by
  refine ⟨fun kind => ?_, ?_⟩
  · unfold Db.obligations
    rw [hflows]
  · unfold Db.unitsOf
    rw [hunits]

theorem findImport_write {old : ImportContract} (hold : db.findImport c.id = some old)
    (himports : db'.imports = (db.writeImport c).imports) :
    db'.findImport k = if k = c.id then some c else db.findImport k := by
  unfold Db.findImport
  rw [himports]
  unfold Db.writeImport
  split_ifs with hk
  · subst hk
    exact Table.lookup_write_self hold
  · exact Table.lookup_write_of_ne hk

/-- The plan of one kind, as it shows among the obligations. -/
theorem planPayment_obligations (hnumbered : db.Numbered) (h : planPayment env c kind db = .ok db') :
    db'.Numbered ∧ ∃ news : List Flow, (c.owes kind = true → ∃ f, news = [f] ∧ f.status = .planned) ∧
      (c.owes kind = false → news = []) ∧
      ∀ k kind', db'.obligations k kind' = db.obligations k kind' ++ if k = c.id ∧ kind' = kind then news else [] := by
  rcases planPayment_eq_ok h with ⟨hnot, rfl⟩ | ⟨howes, f, hflows, hid, hplanned, hf⟩
  · refine ⟨hnumbered, [], fun h => ?_, fun _ => rfl, fun k kind' => by simp⟩
    rw [hnot] at h
    simp at h
  · refine ⟨numbered_append hnumbered hflows hid, [f], fun _ => ⟨f, rfl, hplanned⟩, fun h => ?_,
      obligations_append hflows hf⟩
    rw [howes] at h
    simp at h

theorem createPaymentPlan_obligations (hnumbered : db.Numbered) (h : createPaymentPlan env c db = .ok db') :
    db'.Numbered ∧ ∀ kind, ∃ news : List Flow, (c.owes kind = true → ∃ f, news = [f] ∧ f.status = .planned) ∧
      (c.owes kind = false → news = []) ∧
      ∀ k, db'.obligations k kind = db.obligations k kind ++ if k = c.id then news else [] := by
  obtain ⟨db₁, h₁, h₂⟩ := Js.bind_eq_ok.mp h
  obtain ⟨hnumbered₁, news₁, howes₁, hnot₁, hobl₁⟩ := planPayment_obligations hnumbered h₁
  obtain ⟨hnumbered₂, news₂, howes₂, hnot₂, hobl₂⟩ := planPayment_obligations hnumbered₁ h₂
  refine ⟨hnumbered₂, fun kind => ?_⟩
  cases kind with
  | prepayment =>
    refine ⟨news₁, howes₁, hnot₁, fun k => ?_⟩
    rw [hobl₂, hobl₁]
    simp
  | balance =>
    refine ⟨news₂, howes₂, hnot₂, fun k => ?_⟩
    rw [hobl₂, hobl₁]
    simp

theorem length_specification (items : List ImportItem) : (specification items).length = (items.map ImportItem.qty).sum := by
  simp [specification, List.length_flatMap]

/-- The units that signing makes. -/
theorem unitsOf_materialize (hnone : (db.unitsOf c.id).length = 0) :
    ((materialize c db).unitsOf c.id).length = c.quantity ∧ ∀ k, k ≠ c.id → (materialize c db).unitsOf k = db.unitsOf k := by
  have hnil : db.unitsOf c.id = [] := List.eq_nil_of_length_eq_zero hnone
  have hany : ¬ db.units.any (fun u => u.importContractId = some c.id) = true := by
    rw [List.any_eq_true]
    rintro ⟨u, hu, hlink⟩
    have hmem : u ∈ db.unitsOf c.id := mem_unitsOf.mpr ⟨hu, by simpa using hlink⟩
    rw [hnil] at hmem
    cases hmem
  unfold materialize
  rw [if_neg hany]
  unfold Db.unitsOf at hnil ⊢
  refine ⟨?_, fun k hk => ?_⟩
  · rw [List.filter_append, hnil, List.nil_append, List.filter_eq_self.mpr, List.length_map, List.length_zipIdx,
      length_specification]
    · rfl
    · intro u hu
      obtain ⟨item, -, rfl⟩ := List.mem_map.mp hu
      simp [signedUnit]
  · rw [List.filter_append]
    refine List.append_right_eq_self.mpr (List.filter_eq_nil_iff.mpr fun u hu => ?_)
    obtain ⟨item, -, rfl⟩ := List.mem_map.mp hu
    simp [signedUnit, Ne.symm hk]

/-- Contracts before signing have no books; those after it have. -/
def BooksFit (db : Db) (k : ℕ) : Prop :=
  match db.findImport k with
  | none => Unopened db k
  | some c => (c.status = .draft → Unopened db k) ∧ (c.status = .in_progress → Opened db k c) ∧
      (Unopened db k ∨ Opened db k c)

theorem booksFit_none (h : db.findImport k = none) : BooksFit db k ↔ Unopened db k := by
  unfold BooksFit
  rw [h]

theorem booksFit_some (h : db.findImport k = some c) : BooksFit db k ↔ (c.status = .draft → Unopened db k) ∧
    (c.status = .in_progress → Opened db k c) ∧ (Unopened db k ∨ Opened db k c) := by
  unfold BooksFit
  rw [h]

/-- What one operation may do to one contract and its books. -/
inductive BookMove (op : ImportOp) (db db' : Db) (k : ℕ) : Prop
  | same (hfind : db'.findImport k = db.findImport k) (hbooks : SameBooks db db' k)
  | created (c : ImportContract) (hnone : db.findImport k = none) (hfind : db'.findImport k = some c)
    (hstatus : c.status = .draft) (hbooks : SameBooks db db' k)
  | signed (c : ImportContract) (hop : op = .sign k) (hc : db.findImport k = some c) (hstatus : c.status = .draft)
    (hfind : db'.findImport k = some c.signed)
    (hopened : Unopened db k → (∀ kind, c.owes kind = true → c.paidAtOf kind = none) → Opened db' k c.signed)
  | marked (c c' : ImportContract) (hc : db.findImport k = some c) (hfind : db'.findImport k = some c')
    (hstatus : c'.status = c.status) (hunopened : Unopened db k → Unopened db' k)
    (hopened : Opened db k c → Opened db' k c')
  | cancelled (c : ImportContract) (hc : db.findImport k = some c) (hfind : db'.findImport k = some c.annulled)
    (hbooks : SameBooks db db' k)

theorem sign_bookMove (hnumbered : db.Numbered) (hunopened : ∀ c, db.findImport id = some c → c.status = .draft →
    Unopened db id) (h : sign env id db = .ok db') : db'.Numbered ∧ BookMove (.sign id) db db' k := by
  obtain ⟨c, hc, hdraft, himports, hunits, hplan⟩ := sign_eq_ok h
  obtain rfl := findImport_id hc
  have hnone := (hunopened c hc hdraft).units
  have hflows : (materialize c.signed (db.writeImport c.signed)).flows = db.flows := by
    unfold materialize
    split_ifs <;> rfl
  have hnumbered₁ : (materialize c.signed (db.writeImport c.signed)).Numbered := by
    unfold Db.Numbered
    rw [hflows]
    exact hnumbered
  obtain ⟨hnumbered', hobl⟩ := createPaymentPlan_obligations hnumbered₁ hplan
  obtain ⟨hquantity, hothers⟩ := @unitsOf_materialize (db.writeImport c.signed) c.signed hnone
  have hfind : db'.findImport k = if k = c.id then some c.signed else db.findImport k :=
    findImport_write (c := c.signed) hc himports
  have hsame : ∀ k kind, (materialize c.signed (db.writeImport c.signed)).obligations k kind = db.obligations k kind := by
    intro k kind
    unfold Db.obligations
    rw [hflows]
  have hunitsOf : ∀ k, db'.unitsOf k = (materialize c.signed (db.writeImport c.signed)).unitsOf k := by
    intro k
    unfold Db.unitsOf
    rw [hunits]
  refine ⟨hnumbered', ?_⟩
  by_cases hk : k = c.id
  · subst hk
    rw [if_pos rfl] at hfind
    refine .signed c rfl hc hdraft hfind fun hnothing hunmarked => ⟨fun kind howes => ?_, fun kind hnot => ?_, ?_⟩
    · obtain ⟨news, hnews, -, hadd⟩ := hobl kind
      obtain ⟨f, rfl, hplanned⟩ := hnews howes
      have hpaid : c.signed.paidAtOf kind = none := hunmarked kind howes
      refine ⟨f, ?_, .inl hplanned, ?_⟩
      · rw [hadd, hsame, hnothing.obligations]
        exact if_pos rfl
      · rw [hpaid, hplanned]
        simp
    · obtain ⟨news, -, hnews, hadd⟩ := hobl kind
      rw [hadd, hsame, hnothing.obligations, hnews hnot, ite_self, List.append_nil]
    · rw [hunitsOf]
      exact hquantity
  · rw [if_neg hk] at hfind
    refine .same hfind ⟨fun kind => ?_, ?_⟩
    · obtain ⟨news, -, -, hadd⟩ := hobl kind
      rw [hadd, hsame]
      exact (congrArg _ (if_neg hk)).trans (List.append_nil _)
    · rw [hunitsOf, hothers k hk]
      rfl

/-- A payment of a flow leaves alone the obligations that it is not among. -/
theorem markPaid_others {rate : Option ℚ} {now : ℤ} (hnumbered : db.Numbered)
    (h : markPaid db.flows id rate now = .ok f) (hflows : db'.flows = Table.write Finance.Flow.id db.flows f)
    (hnot : ∀ r ∈ db.obligations k kind, r.id ≠ id) : db'.obligations k kind = db.obligations k kind := by
  rw [(markPaid_obligations hnumbered h hflows k kind).1]
  refine List.map_congr_left (fun r hr => if_neg (hnot r hr)) |>.trans (List.map_id _)

theorem mem_obligations {r : Flow} : r ∈ db.obligations k kind ↔ r ∈ db.flows ∧ isObligation k kind r = true := by
  unfold Db.obligations
  rw [List.mem_filter]

theorem paidAtOf_markedContract (c : ImportContract) (kind kind' : PaymentKind) (now : ℤ) :
    (markedContract c kind now).paidAtOf kind' = if kind' = kind then some now else c.paidAtOf kind' := by
  cases kind <;> cases kind' <;> rfl

theorem sameTerms_markedContract (c : ImportContract) (kind : PaymentKind) (now : ℤ) :
    SameTerms c (markedContract c kind now) := by
  refine ⟨fun kind' => ?_, ?_⟩
  · cases kind <;> cases kind' <;> rfl
  · cases kind <;> rfl

/-- A mark without an open obligation: there is none where nothing is owed. -/
theorem opened_marked_none {now : ℤ} (hpaid : c.paidAtOf kind = none)
    (hnone : ∀ r ∈ db.obligations k kind, r.status ≠ .planned) (hbooks : SameBooks db db' k) (h : Opened db k c) :
    Opened db' k (markedContract c kind now) := by
  have hnot : c.owes kind = false := by
    by_contra howes
    obtain ⟨f, hf, hstatus, hiff⟩ := h.owed kind (by simpa using howes)
    have hplanned : f.status ≠ .planned := hnone f (by rw [hf]; exact List.mem_singleton_self f)
    rcases hstatus with hs | hs
    · exact hplanned hs
    · exact hiff.mpr hs hpaid
  have hterms := sameTerms_markedContract c kind now
  refine ⟨fun kind' howes => ?_, fun kind' hnot' => ?_, ?_⟩
  · rw [hterms.owes] at howes
    have hne : kind' ≠ kind := by
      rintro rfl
      rw [hnot] at howes
      simp at howes
    rw [hbooks.obligations, paidAtOf_markedContract, if_neg hne]
    exact h.owed kind' howes
  · rw [hterms.owes] at hnot'
    exact (hbooks.obligations kind').trans (h.nothing kind' hnot')
  · unfold ImportContract.quantity
    rw [hterms.items]
    exact hbooks.units.trans h.units

theorem markImportPaid_bookMove (hnumbered : db.Numbered) (h : markImportPaid env id kind db = .ok db') :
    db'.Numbered ∧ BookMove op db db' k := by
  obtain ⟨c, hc, hpaid, hunits, himports⟩ := markImportPaid_eq_ok h
  obtain rfl := findImport_id hc
  have hfind : db'.findImport k = if k = c.id then some (markedContract c kind env.now) else db.findImport k := by
    have hid := markedContract_id c kind env.now
    rw [← hid]
    exact findImport_write (by rw [hid]; exact hc) himports
  obtain ⟨_, -, h⟩ := Js.bind_eq_ok.mp h
  obtain ⟨_, -, h⟩ := Js.bind_eq_ok.mp h
  dsimp only at h
  rcases hplanned : plannedObligation (db.writeImport (markedContract _ kind env.now)) c.id kind with _ | p
  · -- no open obligation: the flows stay as they are
    rw [hplanned] at h
    have hflows : db'.flows = db.flows := by
      obtain rfl := Except.ok.inj h
      rfl
    refine ⟨by unfold Db.Numbered; rw [hflows]; exact hnumbered, ?_⟩
    by_cases hk : k = c.id
    · subst hk
      rw [if_pos rfl] at hfind
      have hnone : ∀ r ∈ db.obligations c.id kind, r.status ≠ .planned := by
        intro r hr hstatus
        obtain ⟨hmem, hobl⟩ := mem_obligations.mp hr
        have hno := List.find?_eq_none.mp hplanned r hmem
        rw [hstatus, hobl] at hno
        simp at hno
      have hbooks : SameBooks db db' c.id := sameBooks_of_eq hflows hunits
      exact .marked c _ hc hfind (markedContract_status c kind env.now) (fun hun => hun.congr hbooks)
        fun hop => opened_marked_none hpaid hnone hbooks hop
    · rw [if_neg hk] at hfind
      exact .same hfind (sameBooks_of_eq hflows hunits)
  · rw [hplanned] at h
    obtain ⟨f, hf, h⟩ := Js.bind_eq_ok.mp h
    have hflows : db'.flows = Table.write Finance.Flow.id db.flows f := by
      obtain rfl := Except.ok.inj h
      rfl
    have hp : p ∈ db.obligations c.id kind := by
      have hfound := List.find?_some hplanned
      rw [Bool.and_eq_true] at hfound
      exact mem_obligations.mpr ⟨List.mem_of_find?_eq_some hplanned, hfound.2⟩
    have hpobl := (mem_obligations.mp hp).2
    -- among the obligations of another contract, or of the other kind, there is none with the number of the payment
    have hothers : ∀ k' kind', ¬ (k' = c.id ∧ kind' = kind) → db'.obligations k' kind' = db.obligations k' kind' := by
      intro k' kind' hne
      refine markPaid_others hnumbered hf hflows fun r hr heq => hne ?_
      obtain ⟨hmem, hobl⟩ := mem_obligations.mp hr
      obtain rfl : r = p := Table.eq_of_key_eq hnumbered.nodup hmem (mem_obligations.mp hp).1 heq
      exact isObligation_unique hpobl hobl
    refine ⟨(markPaid_obligations hnumbered hf hflows k kind).2, ?_⟩
    by_cases hk : k = c.id
    · subst hk
      rw [if_pos rfl] at hfind
      refine .marked c _ hc hfind (markedContract_status c kind env.now) (fun hun => ?_) fun hop => ?_
      · rw [hun.obligations] at hp
        cases hp
      · have hterms := sameTerms_markedContract c kind env.now
        refine ⟨fun kind' howes => ?_, fun kind' hnot => ?_, ?_⟩
        · rw [hterms.owes] at howes
          rw [paidAtOf_markedContract]
          by_cases hkind : kind' = kind
          · subst hkind
            obtain ⟨f₀, hf₀, -, -⟩ := hop.owed kind' howes
            rw [hf₀, List.mem_singleton] at hp
            obtain ⟨old, _, _, _, _, hfrow⟩ := markPaid_eq_ok hf
            have hactual : f.status = .actual := by rw [hfrow]
            refine ⟨f, ?_, .inr hactual, ?_⟩
            · rw [(markPaid_obligations hnumbered hf hflows c.id kind').1, hf₀, List.map_singleton, hp, if_pos rfl]
            · rw [if_pos rfl]
              exact ⟨fun _ => hactual, fun _ => by simp⟩
          · rw [hothers c.id kind' fun hh => hkind hh.2, if_neg hkind]
            exact hop.owed kind' howes
        · rw [hterms.owes] at hnot
          have hkind : kind' ≠ kind := by
            rintro rfl
            rw [hop.nothing kind' hnot] at hp
            cases hp
          rw [hothers c.id kind' fun hh => hkind hh.2]
          exact hop.nothing kind' hnot
        · unfold ImportContract.quantity Db.unitsOf
          rw [hterms.items, hunits]
          exact hop.units
    · rw [if_neg hk] at hfind
      refine .same hfind ⟨fun kind' => hothers k kind' fun hh => hk hh.1, ?_⟩
      unfold Db.unitsOf
      rw [hunits]

/-- A payment by hand of a flow that is linked to no contract. -/
theorem payFlow_bookMove {rate : Option ℚ} (hnumbered : db.Numbered)
    (hlinked : ∀ f, Table.lookup Finance.Flow.id db.flows id = some f → f.importContractId = none)
    (h : payFlow env id rate db = .ok db') : db'.Numbered ∧ BookMove op db db' k := by
  obtain ⟨f, hf, rfl⟩ := payFlow_eq_ok h
  refine ⟨(markPaid_obligations hnumbered hf rfl k .prepayment).2, .same rfl ⟨fun kind => ?_, rfl⟩⟩
  obtain ⟨old, -, -, hold, -, -⟩ := markPaid_eq_ok hf
  refine markPaid_others hnumbered hf rfl fun r hr heq => ?_
  obtain ⟨hmem, hobl⟩ := mem_obligations.mp hr
  obtain rfl : r = old := Table.eq_of_key_eq hnumbered.nodup hmem (Table.mem_of_lookup hold)
    (heq.trans (Table.key_of_lookup hold).symm)
  have hlink := (isObligation_iff.mp hobl).1
  rw [hlinked r hold] at hlink
  cases hlink

theorem bulkUnitAction_bookMove {action : UnitAction} {extra : ActionExtra} {r : Db × BulkResult}
    (h : bulkUnitAction env id action extra db = .ok r) : BookMove op db r.1 k := by
  obtain ⟨f, hf, hkept⟩ := bulkUnitAction_eq_ok h
  rw [hf]
  refine .same rfl ⟨fun _ => rfl, ?_⟩
  unfold Db.unitsOf
  rw [List.filter_map, List.length_map]
  congr 1
  refine List.filter_congr fun u _ => ?_
  simp only [Function.comp_apply, hkept]

theorem cancelImport_bookMove (h : cancelImport id db = .ok db') : BookMove op db db' k := by
  obtain ⟨c, hc, -, rfl⟩ := cancelImport_eq_ok h
  obtain rfl := findImport_id hc
  have hfind : (db.writeImport c.annulled).findImport k = if k = c.id then some c.annulled else db.findImport k :=
    findImport_write (c := c.annulled) hc rfl
  by_cases hk : k = c.id
  · subst hk
    rw [if_pos rfl] at hfind
    exact .cancelled c hc hfind (sameBooks_of_eq rfl rfl)
  · rw [if_neg hk] at hfind
    exact .same hfind (sameBooks_of_eq rfl rfl)

theorem createImport_bookMove {input : CreateImportInput} (h : createImport env input db = .ok db') :
    db'.flows = db.flows ∧ BookMove op db db' k := by
  obtain ⟨c, himports, hstatus, hflows, hunits⟩ : ∃ c : ImportContract, db'.imports = db.imports ++ [c] ∧
      c.status = .draft ∧ db'.flows = db.flows ∧ db'.units = db.units := by
    unfold createImport at h
    repeat first
      | obtain rfl := Except.ok.inj h; exact ⟨_, rfl, rfl, rfl, rfl⟩
      | obtain ⟨_, -, h⟩ := Js.bind_eq_ok.mp h
  have hbooks : SameBooks db db' k := sameBooks_of_eq hflows hunits
  have hfind : db'.findImport k = (db.findImport k).or (Table.lookup ImportContract.id [c] k) := by
    unfold Db.findImport
    rw [himports, Table.lookup_append]
  refine ⟨hflows, ?_⟩
  rcases hold : db.findImport k with _ | old
  · rcases hnew : Table.lookup ImportContract.id [c] k with _ | c'
    · rw [hold, hnew] at hfind
      exact .same (hfind.trans hold.symm) hbooks
    · obtain rfl := List.mem_singleton.mp (Table.mem_of_lookup hnew)
      rw [hold, hnew] at hfind
      exact .created c' hold hfind hstatus hbooks
  · rw [hold] at hfind
    exact .same (hfind.trans hold.symm) hbooks

/-! Runs. -/

structure ImportCall where
  env : Env
  op : ImportOp

/-- An operation that is refused is rolled back. -/
def ImportCall.run (db : Db) (call : ImportCall) : Db :=
  match call.op.perform call.env db with
  | .ok db' => db'
  | .error _ => db

def ImportNext (db : Db) (call : ImportCall) (db' : Db) : Prop := db' = call.run db

/-- A contract is signed before its payments are marked, and what is owed under it is not paid by hand. -/
structure KeepsBooks (e : Step Db ImportCall) : Prop where
  unmarked : ∀ k c, e.action.op = .sign k → (e.action.op.perform e.action.env e.before).isOk →
    e.before.findImport k = some c → ∀ kind, c.owes kind = true → c.paidAtOf kind = none
  unlinked : ∀ id rate f, e.action.op = .payFlow id rate → (e.action.op.perform e.action.env e.before).isOk →
    Table.lookup Finance.Flow.id e.before.flows id = some f → f.importContractId = none

theorem booksFit_of_move (hfits : BooksFit db k) (hmove : BookMove op db db' k)
    (hunmarked : ∀ c, op = .sign k → db.findImport k = some c → ∀ kind, c.owes kind = true → c.paidAtOf kind = none) :
    BooksFit db' k := by
  cases hmove with
  | same hfind hbooks =>
    rcases hc : db.findImport k with _ | c
    · rw [booksFit_none hc] at hfits
      rw [booksFit_none (hfind.trans hc)]
      exact hfits.congr hbooks
    · rw [booksFit_some hc] at hfits
      rw [booksFit_some (hfind.trans hc)]
      have hkept : Opened db k c → Opened db' k c := fun h => h.congr (.refl c) (fun _ => rfl) hbooks
      exact ⟨fun h => (hfits.1 h).congr hbooks, fun h => hkept (hfits.2.1 h),
        hfits.2.2.imp (fun h => h.congr hbooks) hkept⟩
  | created c hnone hfind hstatus hbooks =>
    rw [booksFit_none hnone] at hfits
    rw [booksFit_some hfind, hstatus]
    exact ⟨fun _ => hfits.congr hbooks, fun h => by simp at h, .inl (hfits.congr hbooks)⟩
  | signed c hop hc hstatus hfind hopened =>
    rw [booksFit_some hc] at hfits
    have hopen := hopened (hfits.1 hstatus) (hunmarked c hop hc)
    rw [booksFit_some hfind]
    exact ⟨fun h => (nomatch h), fun _ => hopen, .inr hopen⟩
  | marked c c' hc hfind hstatus hunopened hopened =>
    rw [booksFit_some hc] at hfits
    rw [booksFit_some hfind, hstatus]
    exact ⟨fun h => hunopened (hfits.1 h), fun h => hopened (hfits.2.1 h), hfits.2.2.imp hunopened hopened⟩
  | cancelled c hc hfind hbooks =>
    rw [booksFit_some hc] at hfits
    rw [booksFit_some hfind]
    refine ⟨fun h => (nomatch h), fun h => (nomatch h), hfits.2.2.imp (fun h => h.congr hbooks) fun h => ?_⟩
    exact h.congr ⟨fun kind => by cases kind <;> rfl, rfl⟩ (fun kind => by cases kind <;> rfl) hbooks

/-- Books that are opened stay so. -/
theorem opened_of_move (hfits : BooksFit db k) (hmove : BookMove op db db' k)
    (hunmarked : ∀ c, op = .sign k → db.findImport k = some c → ∀ kind, c.owes kind = true → c.paidAtOf kind = none)
    (hc : db.findImport k = some c) (h : Opened db k c) : ∃ c', db'.findImport k = some c' ∧ Opened db' k c' := by
  cases hmove with
  | same hfind hbooks => exact ⟨c, hfind.trans hc, h.congr (.refl c) (fun _ => rfl) hbooks⟩
  | created _ hnone =>
    rw [hnone] at hc
    cases hc
  | signed c₁ hop hc₁ hstatus hfind hopened =>
    rw [booksFit_some hc₁] at hfits
    exact ⟨_, hfind, hopened (hfits.1 hstatus) (hunmarked c₁ hop hc₁)⟩
  | marked c₁ c' hc₁ hfind _ _ hopened =>
    obtain rfl := Option.some.inj (hc₁.symm.trans hc)
    exact ⟨c', hfind, hopened h⟩
  | cancelled c₁ hc₁ hfind hbooks =>
    obtain rfl := Option.some.inj (hc₁.symm.trans hc)
    exact ⟨_, hfind, h.congr ⟨fun kind => by cases kind <;> rfl, rfl⟩ (fun kind => by cases kind <;> rfl) hbooks⟩

/-- All books fit, and the flows are numbered. -/
structure LedgerFits (db : Db) : Prop where
  numbered : db.Numbered
  books : ∀ k, BooksFit db k

theorem perform_bookMoves (hfits : LedgerFits db)
    (hunlinked : ∀ id rate f, op = .payFlow id rate → Table.lookup Finance.Flow.id db.flows id = some f →
      f.importContractId = none)
    (h : op.perform env db = .ok db') : db'.Numbered ∧ ∀ k, BookMove op db db' k := by
  cases op with
  | create input =>
    have hflows : db'.flows = db.flows := (@createImport_bookMove env db db' 0 (.create input) input h).1
    refine ⟨?_, fun k => (createImport_bookMove h).2⟩
    unfold Db.Numbered
    rw [hflows]
    exact hfits.numbered
  | sign id =>
    have hunopened : ∀ c, db.findImport id = some c → c.status = .draft → Unopened db id := by
      intro c hc hdraft
      exact ((booksFit_some hc).mp (hfits.books id)).1 hdraft
    exact ⟨(@sign_bookMove env db db' id 0 hfits.numbered hunopened h).1,
      fun k => (sign_bookMove hfits.numbered hunopened h).2⟩
  | markPaid id kind =>
    exact ⟨(@markImportPaid_bookMove env db db' id 0 kind (.markPaid id kind) hfits.numbered h).1,
      fun k => (markImportPaid_bookMove hfits.numbered h).2⟩
  | bulkUnitAction id action extra =>
    obtain ⟨r, hr, rfl⟩ := Js.map_eq_ok.mp h
    obtain ⟨f, hf, -⟩ := bulkUnitAction_eq_ok hr
    refine ⟨?_, fun k => bulkUnitAction_bookMove hr⟩
    rw [hf]
    exact hfits.numbered
  | cancel id =>
    refine ⟨?_, fun k => cancelImport_bookMove h⟩
    obtain ⟨_, -, -, rfl⟩ := cancelImport_eq_ok h
    exact hfits.numbered
  | payFlow id rate =>
    have hlinked : ∀ f, Table.lookup Finance.Flow.id db.flows id = some f → f.importContractId = none :=
      fun f hf => hunlinked id rate f rfl hf
    exact ⟨(@payFlow_bookMove env db db' id 0 (.payFlow id rate) rate hfits.numbered hlinked h).1,
      fun k => (payFlow_bookMove hfits.numbered hlinked h).2⟩

/-- A call that is refused changes nothing; one that is accepted moves the books as it says. -/
theorem next_cases {call : ImportCall} (hfits : LedgerFits db) (hnext : ImportNext db call db')
    (hkeeps : KeepsBooks ⟨db, call, db'⟩) :
    db' = db ∨ db'.Numbered ∧ ∀ k, BookMove call.op db db' k ∧
      ∀ c, call.op = .sign k → db.findImport k = some c → ∀ kind, c.owes kind = true → c.paidAtOf kind = none := by
  unfold ImportNext ImportCall.run at hnext
  rcases hok : call.op.perform call.env db with err | after
  · rw [hok] at hnext
    exact .inl hnext
  · right
    rw [hok] at hnext
    subst hnext
    have hisOk : (call.op.perform call.env db).isOk := by
      rw [hok]
      rfl
    obtain ⟨hnumbered, hmoves⟩ := perform_bookMoves hfits (fun id rate f hop hf => hkeeps.unlinked id rate f hop hisOk hf) hok
    exact ⟨hnumbered, fun k => ⟨hmoves k, fun c hop hc => hkeeps.unmarked k c hop hisOk hc⟩⟩

theorem ledgerFits_step {call : ImportCall} (hfits : LedgerFits db) (hnext : ImportNext db call db')
    (hkeeps : KeepsBooks ⟨db, call, db'⟩) : LedgerFits db' := by
  rcases next_cases hfits hnext hkeeps with rfl | ⟨hnumbered, hmoves⟩
  · exact hfits
  · exact ⟨hnumbered, fun k => booksFit_of_move (hfits.books k) (hmoves k).1 (hmoves k).2⟩

/-- The contract was signed in one of the steps. -/
def SignedIn (steps : List (Step Db ImportCall)) (k : ℕ) : Prop :=
  ∃ e ∈ steps, (∃ l, e.before.importState k = some (.draft, l)) ∧ ∃ l, e.after.importState k = some (.in_progress, l)

/-- Marks and obligations are one fact. -/
structure PaymentLaw (steps : List (Step Db ImportCall)) (db : Db) : Prop where
  one : ∀ k kind, (db.obligations k kind).length ≤ 1
  marked : ∀ k c kind, db.findImport k = some c → SignedIn steps k → c.owes kind = true →
    (c.paidAtOf kind ≠ none ↔ ∃ f ∈ db.obligations k kind, f.status = .actual)
  settled : ∀ k c kind, db.findImport k = some c → c.owes kind = true → c.paidAtOf kind ≠ none →
    ∀ f ∈ db.obligations k kind, f.status ≠ .planned
  units : ∀ k c, db.findImport k = some c → SignedIn steps k → (db.unitsOf k).length = c.quantity

theorem BooksFit.unopened_or (h : BooksFit db k) : Unopened db k ∨ ∃ c, db.findImport k = some c ∧ Opened db k c := by
  rcases hc : db.findImport k with _ | c
  · exact .inl ((booksFit_none hc).mp h)
  · exact ((booksFit_some hc).mp h).2.2.imp (fun hun => hun) fun hop => ⟨c, rfl, hop⟩

theorem paymentLaw_of_run {db₀ db : Db} {steps : List (Step Db ImportCall)} (hrun : Run ImportNext db₀ steps db)
    (hstart : LedgerFits db₀) (hkeeps : ∀ e ∈ steps, KeepsBooks e) : PaymentLaw steps db := by
  have hfits : LedgerFits db :=
    @Run.invariant_of _ _ ImportNext db₀ db steps LedgerFits KeepsBooks (fun _ _ _ hi hn hk => ledgerFits_step hi hn hk)
      hrun hstart hkeeps
  have hopened : ∀ k, SignedIn steps k → ∃ c, db.findImport k = some c ∧ Opened db k c := by
    rintro k ⟨e, he, -, l, hl⟩
    obtain ⟨earlier, later, hsplit, hbefore, hnext, hafter⟩ := hrun.split he
    have hearlier : ∀ e' ∈ earlier, KeepsBooks e' := fun e' he' => hkeeps e' (by rw [hsplit]; exact List.mem_append_left _ he')
    have hlater : ∀ e' ∈ later, KeepsBooks e' := fun e' he' =>
      hkeeps e' (by rw [hsplit]; exact List.mem_append_right _ (List.mem_cons_of_mem _ he'))
    have hfits₁ : LedgerFits e.after := by
      refine ledgerFits_step ?_ hnext (hkeeps e he)
      exact @Run.invariant_of _ _ ImportNext db₀ e.before earlier LedgerFits KeepsBooks
        (fun _ _ _ hi hn hk => ledgerFits_step hi hn hk) hbefore hstart hearlier
    have hopened₁ : ∃ c, e.after.findImport k = some c ∧ Opened e.after k c := by
      obtain ⟨c, hc, hstate⟩ := Option.map_eq_some_iff.mp hl
      exact ⟨c, hc, ((booksFit_some hc).mp (hfits₁.books k)).2.1 (congrArg Prod.fst hstate)⟩
    have hkept := @Run.invariant_of _ _ ImportNext e.after db later
      (fun d => LedgerFits d ∧ ∃ c, d.findImport k = some c ∧ Opened d k c) KeepsBooks
      (fun d call d' hi hn hk => by
        refine ⟨ledgerFits_step hi.1 hn hk, ?_⟩
        obtain ⟨c, hc, hop⟩ := hi.2
        rcases next_cases hi.1 hn hk with rfl | ⟨-, hmoves⟩
        · exact ⟨c, hc, hop⟩
        · exact opened_of_move (hi.1.books k) (hmoves k).1 (hmoves k).2 hc hop)
      hafter ⟨hfits₁, hopened₁⟩ hlater
    exact hkept.2
  refine ⟨fun k kind => ?_, fun k c kind hc hsigned howes => ?_, fun k c kind hc howes hpaid f hf => ?_,
    fun k c hc hsigned => ?_⟩
  · rcases (hfits.books k).unopened_or with hun | ⟨c, -, hop⟩
    · rw [hun.obligations]
      exact Nat.zero_le 1
    · exact hop.length_le kind
  · obtain ⟨c', hc', hop⟩ := hopened k hsigned
    obtain rfl := Option.some.inj (hc.symm.trans hc')
    obtain ⟨f, hf, -, hiff⟩ := hop.owed kind howes
    rw [hiff, hf]
    simp
  · rcases (hfits.books k).unopened_or with hun | ⟨c', hc', hop⟩
    · rw [hun.obligations] at hf
      cases hf
    · obtain rfl := Option.some.inj (hc.symm.trans hc')
      obtain ⟨f₀, hf₀, -, hiff⟩ := hop.owed kind howes
      rw [hf₀, List.mem_singleton] at hf
      rw [hf, hiff.mp hpaid]
      simp
  · obtain ⟨c', hc', hop⟩ := hopened k hsigned
    obtain rfl := Option.some.inj (hc.symm.trans hc')
    exact hop.units

/-! Runs on fixed calls. -/

theorem ledgerFits_empty : LedgerFits Db.empty :=
  ⟨rfl, fun k => (booksFit_none (k := k) rfl).mpr ⟨fun _ => rfl, rfl⟩⟩

def twoPayments : CreateImportInput :=
  { oneLoader with prepaymentAmount := some 30, balanceAmount := some 70 }

def importCall (op : ImportOp) : ImportCall := ⟨yardEnv 1, op⟩

/-- The prepayment is marked after signing. -/
def prepaidAfter : List ImportCall :=
  [importCall (.create twoPayments), importCall (.sign 0), importCall (.markPaid 0 .prepayment)]

theorem paymentLaw_prepaidAfter :
    PaymentLaw (runActions ImportCall.run Db.empty prepaidAfter).1 (runActions ImportCall.run Db.empty prepaidAfter).2 ∧
      ((runActions ImportCall.run Db.empty prepaidAfter).2.obligations 0 .prepayment).map Finance.Flow.status = [.actual] := by
  refine ⟨paymentLaw_of_run (run_runActions ImportCall.run Db.empty prepaidAfter) ledgerFits_empty fun e he => ?_,
    by decide +kernel⟩
  have hop : e.action ∈ prepaidAfter := action_mem_of_runActions he
  have hunmarked : (runActions ImportCall.run Db.empty prepaidAfter).1.all (fun e => match e.action.op with
      | .sign k => (e.before.findImport k).all fun c => c.prepaymentPaidAt = none ∧ c.balancePaidAt = none
      | _ => true) = true := by decide +kernel
  have hnone := List.all_eq_true.mp hunmarked e he
  refine ⟨fun k c hsign _ hc kind _ => ?_, fun id rate f hpay => ?_⟩
  · rw [hsign] at hnone
    dsimp only at hnone
    rw [hc] at hnone
    simp only [Option.all_some, decide_eq_true_eq] at hnone
    cases kind
    · exact hnone.1
    · exact hnone.2
  · simp only [prepaidAfter, importCall, List.mem_cons, List.not_mem_nil, or_false] at hop
    rcases hop with h | h | h <;> rw [h] at hpay <;> cases hpay

/-- The prepayment is marked before signing. -/
def prepaidBefore : List ImportCall :=
  [importCall (.create twoPayments), importCall (.markPaid 0 .prepayment), importCall (.sign 0)]

theorem payment_comes_back :
    ∃ steps db, Run ImportNext Db.empty steps db ∧ (∃ c, db.findImport 0 = some c ∧ c.prepaymentPaidAt = some 0) ∧
      (db.obligations 0 .prepayment).map Finance.Flow.status = [.planned] ∧ ¬ PaymentLaw steps db := by
  have hplanned : ((runActions ImportCall.run Db.empty prepaidBefore).2.obligations 0 .prepayment).map Finance.Flow.status =
      [.planned] := by decide +kernel
  have hmarked : ((runActions ImportCall.run Db.empty prepaidBefore).2.findImport 0).map (fun c =>
      (c.prepaymentPaidAt, c.owes .prepayment)) = some (some 0, true) := by decide +kernel
  obtain ⟨c, hc, hpaid⟩ := Option.map_eq_some_iff.mp hmarked
  obtain ⟨hpaidAt, howes⟩ := Prod.ext_iff.mp hpaid
  refine ⟨_, _, run_runActions ImportCall.run Db.empty prepaidBefore, ⟨c, hc, hpaidAt⟩, hplanned, fun hlaw => ?_⟩
  obtain ⟨f, hf⟩ := List.map_eq_singleton_iff.mp hplanned
  refine hlaw.settled 0 c .prepayment hc howes (fun hnone => ?_) f (by rw [hf.1]; exact List.mem_singleton_self f) hf.2
  have hsome : c.prepaymentPaidAt = none := hnone
  rw [hsome] at hpaidAt
  cases hpaidAt

end Mydon.Globerent
