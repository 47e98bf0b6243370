import Mathlib.Data.List.Sort
import Mydon.Js.Text

/-! JSON values and their canonical text: keys of every object in code unit
order. Also the errors that a service answers with. -/

namespace Mydon.Js

/-- A key whose value is undefined is an entry left out. -/
inductive Json
  | null
  | bool (b : Bool)
  | num (n : ℚ)
  | str (s : String)
  | arr (items : List Json)
  | obj (entries : List (String × Json))

namespace Json

def get? (key : String) : Json → Option Json
  | .obj entries => (entries.find? (·.1 = key)).map Prod.snd
  | _ => none

def asString : Json → Option String
  | .str s => some s
  | _ => none

def asNumber : Json → Option ℚ
  | .num n => some n
  | _ => none

def isTrue : Json → Bool
  | .bool b => b
  | _ => false

def keyLE (a b : String × Json) : Prop := before b.1 a.1 = false

instance : DecidableRel keyLE := fun a b => inferInstanceAs (Decidable (before b.1 a.1 = false))

mutual

def canonical : Json → Json
  | .arr items => .arr (canonicalItems items)
  | .obj entries => .obj ((canonicalEntries entries).insertionSort keyLE)
  | .null => .null
  | .bool b => .bool b
  | .num n => .num n
  | .str s => .str s

def canonicalItems : List Json → List Json
  | [] => []
  | v :: items => canonical v :: canonicalItems items

def canonicalEntries : List (String × Json) → List (String × Json)
  | [] => []
  | (key, v) :: entries => (key, canonical v) :: canonicalEntries entries

end

def hexDigit (n : ℕ) : Char := if n < 10 then Char.ofNat (48 + n) else Char.ofNat (87 + n)

def quoteChar (c : Char) : List Char :=
  if c = '"' then ['\\', '"']
  else if c = '\\' then ['\\', '\\']
  else if c.toNat = 8 then ['\\', 'b']
  else if c = '\t' then ['\\', 't']
  else if c = '\n' then ['\\', 'n']
  else if c.toNat = 12 then ['\\', 'f']
  else if c = '\r' then ['\\', 'r']
  else if c.toNat < 32 then ['\\', 'u', '0', '0', hexDigit (c.toNat / 16), hexDigit (c.toNat % 16)]
  else [c]

def quote (s : String) : List Char := '"' :: s.toList.flatMap quoteChar ++ ['"']

mutual

/-- `JSON.stringify`. -/
def chars (host : Host) : Json → List Char
  | .null => "null".toList
  | .bool b => (if b then "true" else "false").toList
  | .num n => (host.numberText n).toList
  | .str s => quote s
  | .arr items => '[' :: itemChars host items ++ [']']
  | .obj entries => '{' :: entryChars host entries ++ ['}']

def itemChars (host : Host) : List Json → List Char
  | [] => []
  | [v] => chars host v
  | v :: items => chars host v ++ ',' :: itemChars host items

def entryChars (host : Host) : List (String × Json) → List Char
  | [] => []
  | [(key, v)] => quote key ++ ':' :: chars host v
  | (key, v) :: entries => quote key ++ ':' :: chars host v ++ ',' :: entryChars host entries

end

def stringify (host : Host) (v : Json) : String := String.ofList (v.chars host)

/-- The digest of the canonical text. -/
def canonicalHash (host : Host) (v : Json) : String := host.sha256 (v.canonical.stringify host)

end Json

inductive HttpError
  | badRequest (message : String)
  | notFound (message : String)
  | conflict (message : String)
  | forbidden (message : String)
  | internal (message : String)
  deriving DecidableEq

/-- `if (!p) throw e`. -/
def require (p : Prop) [Decidable p] (e : HttpError) : Except HttpError Unit := if p then .ok () else .error e

/-- The value, or `throw e`. -/
def orThrow {α : Type} (o : Option α) (e : HttpError) : Except HttpError α :=
  match o with
  | some a => .ok a
  | none => .error e

theorem require_eq_ok {p : Prop} [Decidable p] {e : HttpError} {u : Unit} : require p e = .ok u ↔ p := by
  unfold require
  split_ifs with h <;> simp [h]

theorem orThrow_eq_ok {α : Type} {o : Option α} {e : HttpError} {a : α} : orThrow o e = .ok a ↔ o = some a := by
  cases o <;> simp [orThrow]

theorem bind_eq_ok {ε α β : Type} {x : Except ε α} {f : α → Except ε β} {b : β} :
    (x >>= f) = .ok b ↔ ∃ a, x = .ok a ∧ f a = .ok b := by
  rcases x with e | a <;> simp only [bind, Except.bind, reduceCtorEq, false_and, exists_false, Except.ok.injEq,
    exists_eq_left']

/-- The results of a list are the results of its items. -/
theorem mapM_eq_ok {ε α β : Type} {f : α → Except ε β} {items : List α} {results : List β}
    (h : items.mapM f = .ok results) :
    (∀ b ∈ results, ∃ a ∈ items, f a = .ok b) ∧ ∀ a ∈ items, ∃ b ∈ results, f a = .ok b := by
  induction items generalizing results with
  | nil =>
    cases h
    exact ⟨List.forall_mem_nil _, List.forall_mem_nil _⟩
  | cons a items ih =>
    rw [List.mapM_cons] at h
    obtain ⟨b, hb, h⟩ := bind_eq_ok.mp h
    obtain ⟨bs, hbs, h⟩ := bind_eq_ok.mp h
    cases h
    obtain ⟨hfrom, hto⟩ := ih hbs
    refine ⟨fun b' hb' => ?_, fun a' ha' => ?_⟩
    · rcases List.mem_cons.mp hb' with rfl | hb'
      · exact ⟨a, List.mem_cons_self, hb⟩
      · obtain ⟨a', ha', hf⟩ := hfrom b' hb'
        exact ⟨a', List.mem_cons_of_mem _ ha', hf⟩
    · rcases List.mem_cons.mp ha' with rfl | ha'
      · exact ⟨b, List.mem_cons_self, hb⟩
      · obtain ⟨b', hb', hf⟩ := hto a' ha'
        exact ⟨b', List.mem_cons_of_mem _ hb', hf⟩

theorem exists_mapM_ok {ε α β : Type} {f : α → Except ε β} {items : List α} (h : ∀ a ∈ items, ∃ b, f a = .ok b) :
    ∃ results, items.mapM f = .ok results := by
  induction items with
  | nil => exact ⟨[], rfl⟩
  | cons a items ih =>
    obtain ⟨b, hb⟩ := h a List.mem_cons_self
    obtain ⟨bs, hbs⟩ := ih fun a' ha' => h a' (List.mem_cons_of_mem _ ha')
    exact ⟨b :: bs, by rw [List.mapM_cons, hb, hbs]; rfl⟩

/-- What every step of a loop keeps, the loop keeps. -/
theorem foldlM_invariant {ε σ α : Type} {f : σ → α → Except ε σ} {P : σ → Prop} {items : List α} {s s' : σ}
    (hstep : ∀ a ∈ items, ∀ s s', P s → f s a = .ok s' → P s') (h : items.foldlM f s = .ok s') (hs : P s) : P s' := by
  induction items generalizing s with
  | nil =>
    obtain rfl := Except.ok.inj h
    exact hs
  | cons a items ih =>
    rw [List.foldlM_cons] at h
    obtain ⟨s₁, hfirst, h⟩ := bind_eq_ok.mp h
    exact ih (fun a' ha' => hstep a' (List.mem_cons_of_mem _ ha')) h (hstep a List.mem_cons_self s s₁ hs hfirst)

theorem map_eq_ok {ε α β : Type} {x : Except ε α} {f : α → β} {b : β} :
    x.map f = .ok b ↔ ∃ a, x = .ok a ∧ f a = b := by
  rcases x with e | a <;> simp [Except.map]

theorem toOption_eq_some {ε α : Type} {x : Except ε α} {a : α} : x.toOption = some a ↔ x = .ok a := by
  rcases x with e | a <;> simp [Except.toOption]

end Mydon.Js
