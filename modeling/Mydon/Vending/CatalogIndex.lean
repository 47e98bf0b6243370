import Mathlib.Data.List.Perm.Basic
import Mydon.Vending.Catalog

/-! The index of the catalogue: the full answer to a written name, with the way it was found, and the two short
answers, the name and the id. -/

namespace Mydon.Vending

/-- The last element with `P`. -/
def LastOf {α : Type} (P : α → Prop) (l : List α) (x : α) : Prop :=
  ∃ front back, l = front ++ x :: back ∧ P x ∧ ∀ y ∈ back, ¬ P y

section lists
variable {α : Type} {p : α → Bool} {P : α → Prop} {l l' : List α} {x : α}

theorem LastOf.mem (h : LastOf P l x) : x ∈ l := by
  obtain ⟨front, back, rfl, -⟩ := h
  simp

theorem LastOf.holds (h : LastOf P l x) : P x := by
  obtain ⟨-, -, -, hx, -⟩ := h
  exact hx

theorem reverse_find?_eq_some : l.reverse.find? p = some x ↔ LastOf (fun y => p y = true) l x := by
  rw [List.find?_eq_some_iff_append]
  constructor
  · rintro ⟨hx, as, bs, heq, has⟩
    refine ⟨bs.reverse, as.reverse, ?_, hx, fun y hy => ?_⟩
    · rw [← List.reverse_reverse l, heq]
      simp
    · simpa using has y (List.mem_reverse.mp hy)
  · rintro ⟨front, back, rfl, hx, hback⟩
    refine ⟨hx, back.reverse, front.reverse, by simp, fun y hy => ?_⟩
    simpa using hback y (List.mem_reverse.mp hy)

theorem find?_perm (hperm : l.Perm l') (huniq : ∀ x ∈ l, ∀ y ∈ l, p x = true → p y = true → x = y) :
    l.find? p = l'.find? p := by
  rcases h : l.find? p with _ | x
  · rw [eq_comm, List.find?_eq_none]
    exact fun y hy => List.find?_eq_none.mp h y (hperm.mem_iff.mpr hy)
  · have hx := List.mem_of_find?_eq_some h
    rcases h' : l'.find? p with _ | y
    · exact absurd (List.find?_some h) (List.find?_eq_none.mp h' x (hperm.mem_iff.mp hx))
    · rw [huniq x hx y (hperm.mem_iff.mpr (List.mem_of_find?_eq_some h')) (List.find?_some h) (List.find?_some h')]

end lists

/-- The way a product was found. -/
inductive CanonSource
  | name
  | aliasName
  deriving DecidableEq

inductive CanonAnswer
  | hit (canon id : String) (source : CanonSource)
  | conflict (byName byAlias : String)
  | miss
  deriving DecidableEq

namespace Catalog

variable (host : Js.Host) (c : Catalog)

def explain (raw : String) : CanonAnswer :=
  let key := normalizeProductName host raw
  match c.byKey host key, c.aliasByKey host key with
  | some own, some via => if via ≠ own.name then .conflict own.name via else .hit own.name own.id .name
  | some own, none => .hit own.name own.id .name
  | none, some via =>
    match c.byKey host (normalizeProductName host via) with
    | some target => .hit via target.id .aliasName
    | none => .miss
  | none, none => .miss

/-- The answer to a name as it came; a blank one is not asked. -/
theorem resolveCatalogName_eq (raw : String) : c.resolveCatalogName host raw =
    if Js.trim raw = "" then .miss raw
    else
      match c.explain host raw with
      | .hit canon id _ => .hit canon id
      | .conflict byName byAlias => .conflict raw byName byAlias
      | .miss => .miss raw := by
  unfold resolveCatalogName explain
  dsimp only
  split_ifs
  · rfl
  · rcases c.byKey host (normalizeProductName host raw) with _ | own <;>
      rcases c.aliasByKey host (normalizeProductName host raw) with _ | via <;> dsimp only
    · rcases c.byKey host (normalizeProductName host via) with _ | target <;> rfl
    · split_ifs <;> rfl

/-- `canon`. -/
def canonOf (raw : String) : Option String :=
  match c.resolveCatalogName host raw with
  | .hit canon _ => some canon
  | .conflict _ byName _ => some byName
  | .miss _ => none

/-- `id`; a conflict is answered with the product that `canon` names. -/
def idOf (raw : String) : Option String :=
  match c.resolveCatalogName host raw with
  | .hit _ id => some id
  | .conflict _ byName _ => (c.byKey host (normalizeProductName host byName)).map (·.id)
  | .miss _ => none

/-- Hits name the product of their id, both short answers are about one product, a name that is also another product's
alias is a conflict, and rows in another order give the same answers. -/
structure Consistent : Prop where
  hits : ∀ raw canon id source, c.explain host raw = .hit canon id source → ∃ p ∈ c.products, p.id = id ∧ p.name = canon
  doors : ∀ raw, (c.canonOf host raw = none ∧ c.idOf host raw = none) ∨
    ∃ p ∈ c.products, c.canonOf host raw = some p.name ∧ c.idOf host raw = some p.id
  conflicts : ∀ raw, ∀ p ∈ c.products, ∀ q ∈ c.products, ∀ a ∈ c.aliases, p.id ≠ q.id → a.productId = q.id →
    normalizeProductName host p.name = normalizeProductName host raw →
    normalizeProductName host a.aliasText = normalizeProductName host raw →
    ∃ byName byAlias, c.explain host raw = .conflict byName byAlias
  order : (c.products.map fun p => normalizeProductName host p.name).Nodup →
    (c.aliases.map fun a => normalizeProductName host a.aliasText).Nodup →
    ∀ c' : Catalog, c'.products.Perm c.products → c'.aliases.Perm c.aliases → ∀ raw,
      c'.explain host raw = c.explain host raw ∧ c'.canonOf host raw = c.canonOf host raw ∧
        c'.idOf host raw = c.idOf host raw

/-- The product an alias was made for is in the catalogue, under a name. -/
def StandsFor (a : AliasRow) (p : ProductRow) : Prop := p ∈ c.products ∧ p.id = a.productId ∧ p.name ≠ ""

def LastAlias (key : String) (a : AliasRow) : Prop :=
  LastOf (fun b => normalizeProductName host b.aliasText = key ∧ ∃ p, c.StandsFor b p) c.aliases a

def LastProduct (key : String) (p : ProductRow) : Prop :=
  LastOf (fun q => normalizeProductName host q.name = key) c.products p

/-- The last rows of a key tell the products apart. -/
structure LastRowsAgree : Prop where
  /-- Where an alias is no product's name, the last product of its product's key is spelt as that product. -/
  spelling : ∀ a p q, c.LastAlias host (normalizeProductName host a.aliasText) a → c.StandsFor a p →
    (∀ r ∈ c.products, normalizeProductName host r.name ≠ normalizeProductName host a.aliasText) →
    c.LastProduct host (normalizeProductName host p.name) q → q.name = p.name
  /-- Where the name of a product is an alias of another, the last alias and the last product of the key have
  different names. -/
  disputes : ∀ p ∈ c.products, ∀ q ∈ c.products, ∀ a ∈ c.aliases, p.id ≠ q.id → a.productId = q.id →
    normalizeProductName host a.aliasText = normalizeProductName host p.name →
    ∃ b r own, c.LastAlias host (normalizeProductName host p.name) b ∧ c.StandsFor b r ∧
      c.LastProduct host (normalizeProductName host p.name) own ∧ r.name ≠ own.name

variable {host : Js.Host} {c : Catalog} {p : ProductRow} {a : AliasRow} {key raw via : String}

theorem byKey_eq_some_iff : c.byKey host key = some p ↔ c.LastProduct host key p := by
  unfold byKey LastProduct
  rw [reverse_find?_eq_some]
  simp only [decide_eq_true_eq]

theorem byKey_eq_none_iff : c.byKey host key = none ↔ ∀ p ∈ c.products, normalizeProductName host p.name ≠ key := by
  unfold byKey
  rw [List.find?_eq_none]
  simp only [List.mem_reverse, decide_eq_true_eq, ne_eq]

section ids
variable (hids : (c.products.map (·.id)).Nodup)

include hids

theorem nameById_eq_some_iff {id name : String} :
    c.nameById id = some name ↔ ∃ p ∈ c.products, p.id = id ∧ p.name = name := by
  unfold nameById
  rw [Option.map_eq_some_iff]
  constructor
  · rintro ⟨p, hp, rfl⟩
    exact ⟨p, List.mem_reverse.mp (List.mem_of_find?_eq_some hp), by simpa using List.find?_some hp, rfl⟩
  · rintro ⟨p, hp, rfl, rfl⟩
    rcases h : c.products.reverse.find? (·.id = p.id) with _ | q
    · have hnone := List.find?_eq_none.mp h p (List.mem_reverse.mpr hp)
      simp at hnone
    · have hid : q.id = p.id := by simpa using List.find?_some h
      have hq := List.mem_reverse.mp (List.mem_of_find?_eq_some h)
      exact ⟨q, h, by rw [List.inj_on_of_nodup_map hids hq hp hid]⟩

theorem aliasTarget_eq_some_iff : c.aliasTarget a = some via ↔ ∃ p, c.StandsFor a p ∧ p.name = via := by
  unfold aliasTarget StandsFor
  rw [Option.filter_eq_some_iff, nameById_eq_some_iff hids]
  constructor
  · rintro ⟨⟨p, hp, hid, rfl⟩, hne⟩
    exact ⟨p, ⟨hp, hid, by simpa using hne⟩, rfl⟩
  · rintro ⟨p, ⟨hp, hid, hne⟩, rfl⟩
    exact ⟨⟨p, hp, hid, rfl⟩, by simpa using hne⟩

theorem aliasByKey_eq_some_iff : c.aliasByKey host key = some via ↔
    ∃ a p, c.LastAlias host key a ∧ c.StandsFor a p ∧ p.name = via := by
  have hlive : ∀ b, ((c.aliasTarget b).isSome && decide (normalizeProductName host b.aliasText = key)) = true ↔
      normalizeProductName host b.aliasText = key ∧ ∃ p, c.StandsFor b p := by
    intro b
    rw [Bool.and_eq_true, decide_eq_true_eq, Option.isSome_iff_exists, and_comm]
    simp only [aliasTarget_eq_some_iff hids]
    exact and_congr_right fun _ => ⟨fun ⟨_, p, hp, _⟩ => ⟨p, hp⟩, fun ⟨p, hp⟩ => ⟨p.name, p, hp, rfl⟩⟩
  unfold aliasByKey
  rw [Option.bind_eq_some_iff]
  simp only [reverse_find?_eq_some, hlive, aliasTarget_eq_some_iff hids]
  exact ⟨fun ⟨a, ha, p, hp, hvia⟩ => ⟨a, p, ha, hp, hvia⟩, fun ⟨a, p, ha, hp, hvia⟩ => ⟨a, ha, p, hp, hvia⟩⟩

/-- The answer by name is the last product of the key, unless the alias of the key names another one. -/
theorem explain_of_product {own : ProductRow} (hown : c.LastProduct host (normalizeProductName host raw) own) :
    (∃ a p, c.LastAlias host (normalizeProductName host raw) a ∧ c.StandsFor a p ∧ p.name ≠ own.name ∧
      c.explain host raw = .conflict own.name p.name) ∨ c.explain host raw = .hit own.name own.id .name := by
  have hget := byKey_eq_some_iff.mpr hown
  rcases hvia : c.aliasByKey host (normalizeProductName host raw) with _ | via
  · right
    simp only [explain, hget, hvia]
  · obtain ⟨a, p, ha, hp, rfl⟩ := (aliasByKey_eq_some_iff hids).mp hvia
    by_cases hname : p.name = own.name
    · right
      simp only [explain, hget, hvia, hname, ne_eq, not_true_eq_false, if_false]
    · left
      refine ⟨a, p, ha, hp, hname, ?_⟩
      simp only [explain, hget, hvia, ne_eq, hname, not_false_eq_true, if_true]

theorem explain_of_alias {target : ProductRow}
    (hnone : ∀ r ∈ c.products, normalizeProductName host r.name ≠ normalizeProductName host raw)
    (ha : c.LastAlias host (normalizeProductName host raw) a) (hp : c.StandsFor a p)
    (htarget : c.LastProduct host (normalizeProductName host p.name) target) :
    c.explain host raw = .hit p.name target.id .aliasName := by
  have hvia : c.aliasByKey host (normalizeProductName host raw) = some p.name :=
    (aliasByKey_eq_some_iff hids).mpr ⟨a, p, ha, hp, rfl⟩
  simp only [explain, byKey_eq_none_iff.mpr hnone, hvia, byKey_eq_some_iff.mpr htarget]

/-- Every answer comes from a product of the name, or from the alias of a name that no product has. -/
theorem explain_cases (raw : String) :
    (∃ own, c.LastProduct host (normalizeProductName host raw) own) ∨
      (∃ a p target, (∀ r ∈ c.products, normalizeProductName host r.name ≠ normalizeProductName host raw) ∧
        c.LastAlias host (normalizeProductName host raw) a ∧ c.StandsFor a p ∧
        c.LastProduct host (normalizeProductName host p.name) target) ∨
      c.explain host raw = .miss := by
  rcases hown : c.byKey host (normalizeProductName host raw) with _ | own
  · rcases hvia : c.aliasByKey host (normalizeProductName host raw) with _ | via
    · simp only [explain, hown, hvia, or_true]
    · rcases htarget : c.byKey host (normalizeProductName host via) with _ | target
      · simp only [explain, hown, hvia, htarget, or_true]
      · obtain ⟨a, p, ha, hp, rfl⟩ := (aliasByKey_eq_some_iff hids).mp hvia
        exact .inr (.inl ⟨a, p, target, byKey_eq_none_iff.mp hown, ha, hp, byKey_eq_some_iff.mp htarget⟩)
  · exact .inl ⟨own, byKey_eq_some_iff.mp hown⟩

/-- Hits name the product of their id when aliases are spelt as their products are. -/
theorem hits_of_spelling (h : c.LastRowsAgree host) {canon id : String} {source : CanonSource}
    (hr : c.explain host raw = .hit canon id source) : ∃ p ∈ c.products, p.id = id ∧ p.name = canon := by
  rcases explain_cases hids raw with ⟨own, hown⟩ | ⟨a, p, target, hnone, ha, hp, htarget⟩ | hmiss
  · rcases explain_of_product hids hown with ⟨_, _, _, _, _, heq⟩ | heq
    · exact nomatch heq.symm.trans hr
    · obtain ⟨rfl, rfl, -⟩ := CanonAnswer.hit.inj (heq.symm.trans hr)
      exact ⟨own, hown.mem, rfl, rfl⟩
  · have hkey := ha.holds.1
    obtain ⟨rfl, rfl, -⟩ := CanonAnswer.hit.inj ((explain_of_alias hids hnone ha hp htarget).symm.trans hr)
    exact ⟨target, htarget.mem, rfl, h.spelling a p target (hkey.symm ▸ ha) hp (hkey.symm ▸ hnone) htarget⟩
  · exact nomatch hmiss.symm.trans hr

/-- The name of a conflict is that of the last product of the key, whose id is answered. -/
theorem conflict_product {byName byAlias : String} (hr : c.explain host raw = .conflict byName byAlias) :
    ∃ own, c.LastProduct host (normalizeProductName host raw) own ∧ byName = own.name := by
  rcases explain_cases hids raw with ⟨own, hown⟩ | ⟨a, p, target, hnone, ha, hp, htarget⟩ | hmiss
  · rcases explain_of_product hids hown with ⟨a, p, -, -, -, heq⟩ | heq
    · exact ⟨own, hown, (CanonAnswer.conflict.inj (heq.symm.trans hr)).1.symm⟩
    · exact nomatch heq.symm.trans hr
  · exact nomatch (explain_of_alias hids hnone ha hp htarget).symm.trans hr
  · exact nomatch hmiss.symm.trans hr

theorem doors_of_spelling (h : c.LastRowsAgree host) (raw : String) :
    (c.canonOf host raw = none ∧ c.idOf host raw = none) ∨
      ∃ p ∈ c.products, c.canonOf host raw = some p.name ∧ c.idOf host raw = some p.id := by
  unfold canonOf idOf
  rw [resolveCatalogName_eq]
  split_ifs with hblank
  · exact .inl ⟨rfl, rfl⟩
  · rcases hr : c.explain host raw with ⟨canon, id, source⟩ | ⟨byName, byAlias⟩ | _
    · obtain ⟨p, hp, rfl, rfl⟩ := hits_of_spelling hids h hr
      exact .inr ⟨p, hp, rfl, rfl⟩
    · obtain ⟨own, hown, rfl⟩ := conflict_product hids hr
      have hkey : normalizeProductName host own.name = normalizeProductName host raw := hown.holds
      refine .inr ⟨own, hown.mem, rfl, ?_⟩
      dsimp only
      rw [hkey, byKey_eq_some_iff.mpr hown]
      rfl
    · exact .inl ⟨rfl, rfl⟩

/-- With keys of their own, rows in another order are found as before. -/
theorem explain_perm {c' : Catalog} (hnames : (c.products.map fun p => normalizeProductName host p.name).Nodup)
    (haliases : (c.aliases.map fun a => normalizeProductName host a.aliasText).Nodup)
    (hproducts : c'.products.Perm c.products) (hrows : c'.aliases.Perm c.aliases) :
    c'.byKey host = c.byKey host ∧ c'.aliasByKey host = c.aliasByKey host := by
  have hreverse : ∀ {α : Type} {l l' : List α}, l.Perm l' → l.reverse.Perm l'.reverse :=
    fun h => (List.reverse_perm _).trans (h.trans (List.reverse_perm _).symm)
  have hname : c'.nameById = c.nameById := by
    funext id
    unfold nameById
    rw [← find?_perm (hreverse hproducts.symm) fun x hx y hy hxid hyid => ?_]
    exact List.inj_on_of_nodup_map hids (List.mem_reverse.mp hx) (List.mem_reverse.mp hy)
      ((of_decide_eq_true hxid).trans (of_decide_eq_true hyid).symm)
  have htarget : c'.aliasTarget = c.aliasTarget := by
    funext a
    unfold aliasTarget
    rw [hname]
  constructor
  · funext key
    unfold byKey
    rw [← find?_perm (hreverse hproducts.symm) fun x hx y hy hxkey hykey => ?_]
    exact List.inj_on_of_nodup_map hnames (List.mem_reverse.mp hx) (List.mem_reverse.mp hy)
      ((of_decide_eq_true hxkey).trans (of_decide_eq_true hykey).symm)
  · funext key
    unfold aliasByKey
    rw [htarget, ← find?_perm (hreverse hrows.symm) fun x hx y hy hxkey hykey => ?_]
    have hx' := of_decide_eq_true (Bool.and_eq_true_iff.mp hxkey).2
    have hy' := of_decide_eq_true (Bool.and_eq_true_iff.mp hykey).2
    exact List.inj_on_of_nodup_map haliases (List.mem_reverse.mp hx) (List.mem_reverse.mp hy) (hx'.trans hy'.symm)

omit hids in
theorem answers_perm {c' : Catalog} (hkeys : c'.byKey host = c.byKey host)
    (haliases : c'.aliasByKey host = c.aliasByKey host) (raw : String) :
    c'.explain host raw = c.explain host raw ∧ c'.canonOf host raw = c.canonOf host raw ∧
      c'.idOf host raw = c.idOf host raw := by
  have hresolve : c'.resolveCatalogName host raw = c.resolveCatalogName host raw := by
    unfold resolveCatalogName
    rw [hkeys, haliases]
  refine ⟨?_, ?_, ?_⟩
  · unfold explain
    rw [hkeys, haliases]
  · unfold canonOf
    rw [hresolve]
  · unfold idOf
    rw [hresolve, hkeys]

/-- The index answers consistently exactly when the last rows of its keys tell the products apart. -/
theorem consistent_iff : c.Consistent host ↔ c.LastRowsAgree host := by
  constructor
  · intro h
    refine ⟨fun a p q ha hp hnone hq => ?_, fun p hp q hq a ha hne hid hkey => ?_⟩
    · obtain ⟨r, hr, hid, hname⟩ := h.hits a.aliasText _ _ _ (explain_of_alias hids hnone ha hp hq)
      rw [← hname, List.inj_on_of_nodup_map hids hr hq.mem hid]
    · obtain ⟨byName, byAlias, hr⟩ := h.conflicts p.name p hp q hq a ha hne hid rfl hkey
      obtain ⟨own, hown, -⟩ := conflict_product hids hr
      rcases explain_of_product hids hown with ⟨b, r, hb, hstands, hdiffer, -⟩ | heq
      · exact ⟨b, r, own, hb, hstands, hown, hdiffer⟩
      · exact nomatch heq.symm.trans hr
  · intro h
    refine ⟨fun raw canon id source hr => hits_of_spelling hids h hr, doors_of_spelling hids h,
      fun raw p hp q hq a ha hne hid hpkey hakey => ?_, fun hnames haliases c' hproducts hrows => ?_⟩
    · obtain ⟨b, r, own, hb, hstands, hown, hdiffer⟩ := h.disputes p hp q hq a ha hne hid (hakey.trans hpkey.symm)
      rw [hpkey] at hb hown
      rcases explain_of_product hids hown with ⟨-, p', -, -, -, heq⟩ | heq
      · exact ⟨own.name, p'.name, heq⟩
      · have hvia := (aliasByKey_eq_some_iff hids).mpr ⟨b, r, hb, hstands, rfl⟩
        simp only [explain, byKey_eq_some_iff.mpr hown, hvia, ne_eq, hdiffer, not_false_eq_true, if_true,
          reduceCtorEq] at heq
    · obtain ⟨hkeys, hvias⟩ := explain_perm hids hnames haliases hproducts hrows
      exact answers_perm hkeys hvias

end ids

end Catalog

def indexHost : Js.Host :=
  ⟨fun s => String.ofList (s.toList.map Char.toLower), fun _ => none, fun _ => "", fun _ => "", fun _ _ => 0,
    fun _ => ""⟩

/-- An alias of one product is the name of the other. -/
def disputedName : Catalog :=
  ⟨[⟨"1", "Cola", none, none⟩, ⟨"2", "Fanta CAN 0,25", none, none⟩], [⟨"1", "Fanta can 0.25"⟩]⟩

/-- Two products of one key, and an alias of the first. -/
def twoSpellings : Catalog :=
  ⟨[⟨"1", "Fanta CAN 0,25", none, none⟩, ⟨"2", "Fanta can 0.25", none, none⟩], [⟨"1", "orange"⟩]⟩

theorem consistent_iff_disputed : (disputedName.Consistent indexHost ↔ disputedName.LastRowsAgree indexHost) ∧
    disputedName.explain indexHost "fanta can 0,25" = .conflict "Fanta CAN 0,25" "Cola" :=
  ⟨Catalog.consistent_iff (by decide), by decide +kernel⟩

/-- The alias of the first product is answered with its name and the id of the second. -/
theorem twoSpellings_not_consistent :
    (twoSpellings.products.map (·.id)).Nodup ∧ ¬ twoSpellings.Consistent indexHost := by
  refine ⟨by decide, fun h => ?_⟩
  have hhit := h.hits "orange" "Fanta CAN 0,25" "2" .aliasName (by decide +kernel)
  exact absurd hhit (by decide)

end Mydon.Vending
