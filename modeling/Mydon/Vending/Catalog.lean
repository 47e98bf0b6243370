import Mydon.Js.Json

/-! The catalogue of the vending goods, and the one rule that takes a written name to a
product: the exact name of a product comes before an alias, and a name that is both is a conflict. -/

namespace Mydon.Vending

/-- `replace(/(\d),(\d)/g, "$1.$2")`: `free` is whether the last character is a digit of no match,
`matched` whether the next one ends a match. -/
def joinDecimals (free matched : Bool) : List Char → List Char
  | [] => []
  | c :: cs =>
    if c = ',' && free && cs.head?.any Js.isDigit then '.' :: joinDecimals false true cs
    else c :: joinDecimals (Js.isDigit c && !matched) false cs

def normalizeProductName (host : Js.Host) (name : String) : String :=
  String.ofList (joinDecimals false false (Js.collapseSpaces
    (Js.replaceAll (· = 'ё') 'е' (host.toLowerCase (Js.trim name)).toList)))

/-- A row of `vending_product`; `entityId` is the card of the registry. -/
structure ProductRow where
  id : String
  name : String
  purchasePrice : Option ℚ
  entityId : Option String
  deriving DecidableEq

structure AliasRow where
  productId : String
  aliasText : String
  deriving DecidableEq

structure Catalog where
  products : List ProductRow
  aliases : List AliasRow

inductive CatalogResolution
  | hit (canon id : String)
  | conflict (raw byName byAlias : String)
  | miss (raw : String)
  deriving DecidableEq

namespace Catalog

variable (host : Js.Host) (c : Catalog)

/-- A map made of the products keeps the last one of a key. -/
def byKey (key : String) : Option ProductRow :=
  c.products.reverse.find? fun p => normalizeProductName host p.name = key

def nameById (id : String) : Option String := (c.products.reverse.find? (·.id = id)).map (·.name)

/-- The name an alias stands for; an alias of a deleted product stands for none. -/
def aliasTarget (a : AliasRow) : Option String := (c.nameById a.productId).filter (· ≠ "")

def aliasByKey (key : String) : Option String :=
  (c.aliases.reverse.find? fun a => (c.aliasTarget a).isSome && normalizeProductName host a.aliasText = key).bind
    c.aliasTarget

def resolveCatalogName (raw : String) : CatalogResolution :=
  if Js.trim raw = "" then .miss raw
  else
    let key := normalizeProductName host raw
    match c.byKey host key, c.aliasByKey host key with
    | some own, some via => if via ≠ own.name then .conflict raw own.name via else .hit own.name own.id
    | some own, none => .hit own.name own.id
    | none, some via =>
      match c.byKey host (normalizeProductName host via) with
      | some target => .hit via target.id
      | none => .miss raw
    | none, none => .miss raw

def resolveProduct (name : String) : String :=
  match c.resolveCatalogName host name with
  | .hit canon _ => canon
  | .conflict _ byName _ => byName
  | .miss raw => raw

/-- `productIdResolver`: a conflict is answered as a miss. -/
def productIdOf (raw : String) : Option String :=
  match c.resolveCatalogName host raw with
  | .hit _ id => some id
  | _ => none

/-- The name and the product of a refill; a conflict is refused. -/
def resolveProductRef (raw : String) : Except Js.HttpError (String × Option String) :=
  let trimmed := Js.trim raw
  match c.resolveCatalogName host trimmed with
  | .conflict raw byName byAlias => .error (.badRequest
      s!"Имя «{raw}» разрешается двумя путями: карточка «{byName}» и алиас карточки «{byAlias}». Уберите лишний алиас.")
  | .hit canon id => .ok (canon, some id)
  | .miss _ => .ok (trimmed, none)

/-- The card of a product. -/
def cardIdOf (id : String) : Option String := (c.products.find? (·.id = id)).bind (·.entityId)

/-- Ids, names and cards tell the products apart, and every product has its card. -/
structure OwnCards : Prop where
  ids : (c.products.map (·.id)).Nodup
  names : (c.products.map fun p => normalizeProductName host p.name).Nodup
  cards : (c.products.map (·.entityId)).Nodup
  card : ∀ p ∈ c.products, p.entityId.isSome

end Catalog

section
variable {host : Js.Host} {c : Catalog} {p q : ProductRow} {raw id : String}

namespace Catalog

theorem OwnCards.eq_of_name (h : c.OwnCards host) (hp : p ∈ c.products) (hq : q ∈ c.products) (hn : p.name = q.name) :
    p = q := List.inj_on_of_nodup_map h.names hp hq (by rw [hn])

theorem OwnCards.eq_of_id (h : c.OwnCards host) (hp : p ∈ c.products) (hq : q ∈ c.products) (hn : p.id = q.id) :
    p = q := List.inj_on_of_nodup_map h.ids hp hq hn

theorem byKey_eq_some {key : String} (h : c.byKey host key = some p) :
    p ∈ c.products ∧ normalizeProductName host p.name = key := by
  refine ⟨List.mem_reverse.mp (List.mem_of_find?_eq_some h), ?_⟩
  simpa using List.find?_some h

theorem OwnCards.byKey_name (h : c.OwnCards host) (hp : p ∈ c.products) :
    c.byKey host (normalizeProductName host p.name) = some p := by
  rcases hb : c.byKey host (normalizeProductName host p.name) with _ | q
  · have hnone := List.find?_eq_none.mp hb p (List.mem_reverse.mpr hp)
    simp at hnone
  · obtain ⟨hq, hkey⟩ := byKey_eq_some hb
    rw [List.inj_on_of_nodup_map h.names hq hp hkey]

theorem aliasByKey_eq_some {key via : String} (h : c.aliasByKey host key = some via) :
    ∃ p ∈ c.products, p.name = via := by
  unfold aliasByKey at h
  obtain ⟨a, _, ha⟩ := Option.bind_eq_some_iff.mp h
  unfold aliasTarget at ha
  obtain ⟨hname, _⟩ := Option.filter_eq_some_iff.mp ha
  unfold nameById at hname
  obtain ⟨p, hp, rfl⟩ := Option.map_eq_some_iff.mp hname
  exact ⟨p, List.mem_reverse.mp (List.mem_of_find?_eq_some hp), rfl⟩

/-- What is found is one product: its name and its id. -/
theorem OwnCards.of_hit (h : c.OwnCards host) {canon : String}
    (hr : c.resolveCatalogName host raw = .hit canon id) : ∃ p ∈ c.products, p.name = canon ∧ p.id = id := by
  unfold resolveCatalogName at hr
  split_ifs at hr
  rcases hown : c.byKey host (normalizeProductName host raw) with _ | own
  · rcases hvia : c.aliasByKey host (normalizeProductName host raw) with _ | via
    · simp only [hown, hvia, reduceCtorEq] at hr
    · obtain ⟨q, hq, rfl⟩ := aliasByKey_eq_some hvia
      simp only [hown, hvia, h.byKey_name hq] at hr
      cases hr
      exact ⟨q, hq, rfl, rfl⟩
  · have hmem := (byKey_eq_some hown).1
    rcases hvia : c.aliasByKey host (normalizeProductName host raw) with _ | via
    · simp only [hown, hvia] at hr
      cases hr
      exact ⟨own, hmem, rfl, rfl⟩
    · simp only [hown, hvia] at hr
      split_ifs at hr
      cases hr
      exact ⟨own, hmem, rfl, rfl⟩

theorem name_of_conflict {raw' byName byAlias : String}
    (hr : c.resolveCatalogName host raw = .conflict raw' byName byAlias) : ∃ p ∈ c.products, p.name = byName := by
  unfold resolveCatalogName at hr
  split_ifs at hr
  rcases hown : c.byKey host (normalizeProductName host raw) with _ | own
  · rcases hvia : c.aliasByKey host (normalizeProductName host raw) with _ | via
    · simp only [hown, hvia, reduceCtorEq] at hr
    · simp only [hown, hvia] at hr
      split at hr <;> cases hr
  · rcases hvia : c.aliasByKey host (normalizeProductName host raw) with _ | via
    · simp only [hown, hvia, reduceCtorEq] at hr
    · simp only [hown, hvia] at hr
      split_ifs at hr
      cases hr
      exact ⟨own, (byKey_eq_some hown).1, rfl⟩

theorem raw_of_miss {raw' : String} (hr : c.resolveCatalogName host raw = .miss raw') : raw' = raw := by
  unfold resolveCatalogName at hr
  split_ifs at hr
  · cases hr
    rfl
  · rcases hown : c.byKey host (normalizeProductName host raw) with _ | own
    · rcases hvia : c.aliasByKey host (normalizeProductName host raw) with _ | via
      · simp only [hown, hvia] at hr
        cases hr
        rfl
      · simp only [hown, hvia] at hr
        split at hr <;> cases hr
        rfl
    · rcases hvia : c.aliasByKey host (normalizeProductName host raw) with _ | via
      · simp only [hown, hvia, reduceCtorEq] at hr
      · simp only [hown, hvia] at hr
        split_ifs at hr

/-- The name of a product is found as the product, or not at all. -/
theorem OwnCards.productIdOf_name (h : c.OwnCards host) (hp : p ∈ c.products)
    (hr : c.productIdOf host p.name = some id) : id = p.id := by
  unfold productIdOf at hr
  split at hr
  · next canon id' hhit =>
    cases hr
    unfold resolveCatalogName at hhit
    split_ifs at hhit
    simp only [h.byKey_name hp] at hhit
    split at hhit
    · split_ifs at hhit
      cases hhit
      simp_all
    · cases hhit
      simp_all
    · simp_all
    · simp_all
  · cases hr

theorem productIdOf_eq_some (h : c.OwnCards host) (hr : c.productIdOf host raw = some id) :
    ∃ p ∈ c.products, p.id = id := by
  unfold productIdOf at hr
  split at hr
  · next canon id' hhit =>
    cases hr
    obtain ⟨p, hp, _, hid⟩ := h.of_hit hhit
    exact ⟨p, hp, hid⟩
  · cases hr

theorem OwnCards.cardIdOf_id (h : c.OwnCards host) (hp : p ∈ c.products) : c.cardIdOf p.id = p.entityId := by
  unfold cardIdOf
  rcases hf : c.products.find? (·.id = p.id) with _ | q
  · have := List.find?_eq_none.mp hf p hp
    simp at this
  · have hq := List.mem_of_find?_eq_some hf
    have hid : q.id = p.id := by simpa using List.find?_some hf
    simp only [hf, Option.bind_some, h.eq_of_id hq hp hid]

end Catalog

end

end Mydon.Vending
