import Mydon.Js.Text

/-! Texts as sequences of code units, half of a surrogate pair included, where a program can make such halves. -/

namespace Mydon.Js.Units

/-- A text by its code units. -/
abbrev Text := List ℕ

def ofString (s : String) : Text := codeUnits s

/-- `\s`. -/
def isSpace (n : ℕ) : Bool :=
  (9 ≤ n && n ≤ 13) || n == 32 || n == 0xA0 || n == 0x1680 || (0x2000 ≤ n && n ≤ 0x200A) ||
    n == 0x2028 || n == 0x2029 || n == 0x202F || n == 0x205F || n == 0x3000 || n == 0xFEFF

def isDigit (n : ℕ) : Bool := '0'.toNat ≤ n && n ≤ '9'.toNat

/-- `[0-9a-fA-F]`. -/
def isHexDigit (n : ℕ) : Bool :=
  isDigit n || ('a'.toNat ≤ n && n ≤ 'f'.toNat) || ('A'.toNat ≤ n && n ≤ 'F'.toNat)

/-- `\p{Cc}`. -/
def isControl (n : ℕ) : Bool := n ≤ 0x1F || (0x7F ≤ n && n ≤ 0x9F)

def trim (s : Text) : Text := ((s.dropWhile isSpace).reverse.dropWhile isSpace).reverse

/-- `replace(/\s+/g, " ")`. -/
def collapseSpaces : Text → Text
  | [] => []
  | c :: cs =>
    if isSpace c then
      match cs with
      | d :: _ => if isSpace d then collapseSpaces cs else ' '.toNat :: collapseSpaces cs
      | [] => [' '.toNat]
    else c :: collapseSpaces cs

/-- `replace(/(\d),(\d)/g, "$1.$2")`: `free` is whether the last unit is a digit of no match, `matched` whether the next
one ends a match. -/
def joinDecimals (free matched : Bool) : Text → Text
  | [] => []
  | c :: cs =>
    if c = ','.toNat && free && cs.head?.any isDigit then '.'.toNat :: joinDecimals false true cs
    else c :: joinDecimals (isDigit c && !matched) false cs

/-- `String.fromCodePoint`. -/
def fromCodePoint (code : ℕ) : Text :=
  if code < 0x10000 then [code] else [0xD800 + (code - 0x10000) / 0x400, 0xDC00 + (code - 0x10000) % 0x400]

/-- `Number.parseInt` of digits. -/
def parseDigits (base : ℕ) (digits : Text) : ℕ :=
  let value (n : ℕ) : ℕ :=
    if isDigit n then n - '0'.toNat else if n ≤ 'F'.toNat then n - 'A'.toNat + 10 else n - 'a'.toNat + 10
  digits.foldl (fun v n => base * v + value n) 0

/-- The operations that the host provides. -/
structure Host where
  toLowerCase : Text → Text
  /-- `Number(s)`, when that is a finite number. -/
  number : Text → Option ℚ
  /-- `String(n)` of a finite number. -/
  numberText : ℚ → Text

theorem trim_of_no_space {s : Text} (h : ∀ n ∈ s, isSpace n = false) : trim s = s := by
  have hall : ∀ s : Text, (∀ n ∈ s, isSpace n = false) → s.dropWhile isSpace = s := by
    intro s hs
    cases s with
    | nil => rfl
    | cons c cs => rw [List.dropWhile_cons_of_neg (by simp [hs c List.mem_cons_self])]
  unfold trim
  rw [hall s h, hall s.reverse fun n hn => h n (List.mem_reverse.mp hn), List.reverse_reverse]

end Mydon.Js.Units
