import Mathlib.Data.List.Basic
import Mathlib.Data.Rat.Defs

/-! The string operations of the host language that the program relies on.
Case mapping, number parsing and printing, collation and the digest come from
the host, so they are fields of `Host`; the rest is computed on the characters. -/

namespace Mydon.Js

structure Host where
  toLowerCase : String → String
  /-- `Number(s)`, when that is a finite number. -/
  number : String → Option ℚ
  /-- `String(n)` of a finite number. -/
  numberText : ℚ → String
  /-- `n.toFixed(12)`. -/
  toFixed12 : ℚ → String
  localeCompare : String → String → ℤ
  /-- `createHash("sha256").update(s).digest("hex")`. -/
  sha256 : String → String

/-- Digests are written in hexadecimal. -/
def Host.HexDigests (host : Host) : Prop :=
  ∀ s, ∀ c ∈ (host.sha256 s).toList, '0' ≤ c ∧ c ≤ '9' ∨ 'a' ≤ c ∧ c ≤ 'f'

/-- The characters matched by `\s` and removed by `trim`. -/
def isSpace (c : Char) : Bool :=
  let n := c.toNat
  (9 ≤ n && n ≤ 13) || n == 32 || n == 0xA0 || n == 0x1680 || (0x2000 ≤ n && n ≤ 0x200A) ||
    n == 0x2028 || n == 0x2029 || n == 0x202F || n == 0x205F || n == 0x3000 || n == 0xFEFF

def trimChars (cs : List Char) : List Char :=
  ((cs.dropWhile isSpace).reverse.dropWhile isSpace).reverse

def trim (s : String) : String := String.ofList (trimChars s.toList)

/-- `replace(/\s+/g, " ")`. -/
def collapseSpaces : List Char → List Char
  | [] => []
  | c :: cs =>
    if isSpace c then
      match cs with
      | d :: _ => if isSpace d then collapseSpaces cs else ' ' :: collapseSpaces cs
      | [] => [' ']
    else c :: collapseSpaces cs

/-- `replace(a, b)` with a string pattern: the first occurrence only. -/
def replaceFirst (a b : Char) : List Char → List Char
  | [] => []
  | c :: cs => if c = a then b :: cs else c :: replaceFirst a b cs

def replaceAll (p : Char → Bool) (b : Char) (cs : List Char) : List Char :=
  cs.map fun c => if p c then b else c

def isDigit (c : Char) : Bool := '0' ≤ c && c ≤ '9'

def isLetter (c : Char) : Bool := ('a' ≤ c && c ≤ 'z') || ('A' ≤ c && c ≤ 'Z')

def isUpper (c : Char) : Bool := 'A' ≤ c && c ≤ 'Z'

def isLower (c : Char) : Bool := 'a' ≤ c && c ≤ 'z'

/-- Case-insensitive patterns of ASCII letters see a character so. -/
def lowerAscii (c : Char) : Char := if isUpper c then Char.ofNat (c.toNat + 32) else c

/-- `/(?:^|sep)(?:words)(?:sep|$)/`; `atStart` is whether the last character was a separator. -/
def delimitedWord (isSep : Char → Bool) (words : List (List Char)) : Bool → List Char → Bool
  | atStart, [] => atStart && words.any (·.isEmpty)
  | atStart, c :: cs =>
    (atStart && words.any fun w => w.isPrefixOf (c :: cs) && ((c :: cs).drop w.length).head?.all isSep) ||
      delimitedWord isSep words (isSep c) cs

/-- The code units of a character in the host's strings. -/
def utf16Units (c : Char) : List ℕ :=
  let n := c.toNat
  if n < 0x10000 then [n] else [0xD800 + (n - 0x10000) / 0x400, 0xDC00 + (n - 0x10000) % 0x400]

def codeUnits (s : String) : List ℕ := s.toList.flatMap utf16Units

/-- `s.length`. -/
def length (s : String) : ℕ := (codeUnits s).length

/-- `a < b` on strings compares code units. -/
def before (a b : String) : Bool := decide (codeUnits a < codeUnits b)

/-- `s.slice(0, n)` for a string whose first `n` code units are whole characters. -/
def take (n : ℕ) (s : String) : String := String.ofList (s.toList.take n)

/-- `Buffer.byteLength(s, "utf8")`. -/
def byteLength (s : String) : ℕ := s.utf8ByteSize

/-- A run of characters of one kind is cut off where it stops. -/
theorem span_append {p : Char → Bool} {xs rest : List Char} (hxs : ∀ c ∈ xs, p c = true)
    (hrest : ∀ c ∈ rest.head?, p c = false) : (xs ++ rest).takeWhile p = xs ∧ (xs ++ rest).dropWhile p = rest := by
  have hstop : rest.takeWhile p = [] ∧ rest.dropWhile p = rest := by
    rcases rest with _ | ⟨c, rest⟩
    · exact ⟨rfl, rfl⟩
    · have hc := hrest c rfl
      rw [List.takeWhile_cons, List.dropWhile_cons, hc]
      exact ⟨rfl, rfl⟩
  rw [List.takeWhile_append_of_pos hxs, List.dropWhile_append_of_pos hxs, hstop.1, hstop.2, List.append_nil]
  exact ⟨rfl, rfl⟩

/-- Texts are cut at the first separator. -/
theorem cut_inj {c : Char} {xs xs' ys ys' : List Char} (h : c ∉ xs) (h' : c ∉ xs')
    (heq : xs ++ c :: ys = xs' ++ c :: ys') : xs = xs' ∧ ys = ys' := by
  induction xs generalizing xs' with
  | nil =>
    rcases xs' with _ | ⟨x', xs'⟩
    · exact ⟨rfl, (List.cons.inj heq).2⟩
    · exact absurd (List.mem_cons.mpr (.inl (List.cons.inj heq).1)) h'
  | cons x xs ih =>
    rcases xs' with _ | ⟨x', xs'⟩
    · exact absurd (List.mem_cons.mpr (.inl (List.cons.inj heq).1.symm)) h
    · obtain ⟨rfl, htail⟩ := List.cons.inj heq
      obtain ⟨rfl, hys⟩ := ih (fun hc => h (List.mem_cons_of_mem _ hc)) (fun hc => h' (List.mem_cons_of_mem _ hc)) htail
      exact ⟨rfl, hys⟩

/-- Texts that do not hold the separator are read back from the joined text. -/
theorem intercalate_inj {c : Char} {l l' : List String} (hl : ∀ s ∈ l, c ∉ s.toList) (hl' : ∀ s ∈ l', c ∉ s.toList)
    (hne : l ≠ []) (hne' : l' ≠ [])
    (h : String.intercalate (String.singleton c) l = String.intercalate (String.singleton c) l') : l = l' := by
  have hs := String.toList_split_intercalate hl
  rw [h, String.toList_split_intercalate hl', if_neg hne, if_neg hne'] at hs
  exact hs.symm

theorem toString_inj {m n : ℕ} (h : toString m = toString n) : m = n := by
  have hdigits : Nat.toDigits 10 m = Nat.toDigits 10 n := by
    rw [← Nat.toList_repr, ← Nat.toList_repr]
    exact congrArg String.toList h
  rw [← @Nat.ofDigitChars_ten_toDigits m, hdigits, Nat.ofDigitChars_ten_toDigits]

example : trim " \t ab c\n" = "ab c" := by decide

end Mydon.Js
