import Mathlib.Data.List.TakeWhile
import Mathlib.Tactic.IntervalCases
import Mydon.Js.Canonical
import Mydon.Lib.OrderedMap

/-! `JSON.parse`. Texts are sequences of characters here, so a lone surrogate is not read;
the numbers are read by the host. What is printed is read back. -/

namespace Mydon.Js

/-! Code units. -/

/-- The characters of a sequence of code units without lone surrogates. -/
def decodeUnits : List ℕ → Option (List Char)
  | [] => some []
  | u :: rest =>
    if u < 0xD800 ∨ 0xE000 ≤ u then (decodeUnits rest).map (Char.ofNat u :: ·)
    else
      match rest with
      | [] => none
      | low :: rest =>
        if u < 0xDC00 ∧ 0xDC00 ≤ low ∧ low < 0xE000 then
          (decodeUnits rest).map (Char.ofNat (0x10000 + (u - 0xD800) * 0x400 + (low - 0xDC00)) :: ·)
        else none

theorem decodeUnits_utf16Units (c : Char) (rest : List ℕ) :
    decodeUnits (utf16Units c ++ rest) = (decodeUnits rest).map (c :: ·) := by
  have hvalid : c.toNat < 0xD800 ∨ 0xDFFF < c.toNat ∧ c.toNat < 0x110000 := c.valid
  unfold utf16Units
  by_cases hshort : c.toNat < 0x10000
  · rw [if_pos hshort, List.singleton_append, decodeUnits.eq_def]
    dsimp only
    rw [if_pos (by omega), Char.ofNat_toNat]
  · rw [if_neg hshort, List.cons_append, List.singleton_append, decodeUnits.eq_def]
    dsimp only
    rw [if_neg (by omega), if_pos (by omega)]
    have hback : 0x10000 + (0xD800 + (c.toNat - 0x10000) / 0x400 - 0xD800) * 0x400 +
        (0xDC00 + (c.toNat - 0x10000) % 0x400 - 0xDC00) = c.toNat := by omega
    rw [hback, Char.ofNat_toNat]

theorem decodeUnits_flatMap (cs : List Char) : decodeUnits (cs.flatMap utf16Units) = some cs := by
  induction cs with
  | nil => rfl
  | cons c cs ih => rw [List.flatMap_cons, decodeUnits_utf16Units, ih, Option.map_some]

/-- Strings are told apart by their code units. -/
theorem codeUnits_inj {s t : String} (h : codeUnits s = codeUnits t) : s = t := by
  unfold codeUnits at h
  have hs := decodeUnits_flatMap s.toList
  rw [h, decodeUnits_flatMap] at hs
  exact String.toList_inj.mp (Option.some.inj hs.symm)

namespace Json

/-! Tokens. -/

def isJsonSpace (c : Char) : Bool := c = ' ' || c = '\t' || c = '\n' || c = '\r'

def skipSpace (cs : List Char) : List Char := cs.dropWhile isJsonSpace

def hexValue (c : Char) : Option ℕ :=
  if '0' ≤ c ∧ c ≤ '9' then some (c.toNat - 48)
  else if 'a' ≤ c ∧ c ≤ 'f' then some (c.toNat - 87)
  else if 'A' ≤ c ∧ c ≤ 'F' then some (c.toNat - 55)
  else none

/-- The code unit of `\uXXXX`. -/
def hexUnit (a b c d : Char) : Option ℕ := do
  return (((← hexValue a) * 16 + (← hexValue b)) * 16 + (← hexValue c)) * 16 + (← hexValue d)

/-- The code unit of an escape of one letter. -/
def escapedUnit (c : Char) : Option ℕ :=
  if c = '"' ∨ c = '\\' ∨ c = '/' then some c.toNat
  else if c = 'b' then some 8
  else if c = 'f' then some 12
  else if c = 'n' then some 10
  else if c = 'r' then some 13
  else if c = 't' then some 9
  else none

def pushUnits (units : List ℕ) (r : List ℕ × List Char) : List ℕ × List Char := (units ++ r.1, r.2)

/-- The code units of a string after its opening quote, and what follows the closing one. -/
def stringUnits : List Char → Option (List ℕ × List Char)
  | [] => none
  | c :: rest =>
    if c = '"' then some ([], rest)
    else if c = '\\' then
      match rest with
      | [] => none
      | e :: rest =>
        if e = 'u' then
          match rest with
          | a :: b :: c :: d :: rest => (hexUnit a b c d).bind fun u => (stringUnits rest).map (pushUnits [u])
          | _ => none
        else (escapedUnit e).bind fun u => (stringUnits rest).map (pushUnits [u])
    else if c.toNat < 32 then none
    else (stringUnits rest).map (pushUnits (utf16Units c))

def parseString (cs : List Char) : Option (String × List Char) :=
  (stringUnits cs).bind fun (units, rest) => (decodeUnits units).map fun s => (String.ofList s, rest)

/-- The characters a number is written with. -/
def isNumberChar (c : Char) : Bool := isDigit c || c = '-' || c = '+' || c = '.' || c = 'e' || c = 'E'

def dropDigits (cs : List Char) : Option (List Char) :=
  if cs.takeWhile isDigit = [] then none else some (cs.dropWhile isDigit)

def dropSign (sign : Char → Bool) : List Char → List Char
  | c :: rest => if sign c then rest else c :: rest
  | [] => []

def dropInteger : List Char → Option (List Char)
  | c :: rest => if c = '0' then some rest else dropDigits (c :: rest)
  | [] => none

def dropFraction : List Char → Option (List Char)
  | c :: rest => if c = '.' then dropDigits rest else some (c :: rest)
  | [] => some []

def dropExponent : List Char → Option (List Char)
  | c :: rest =>
    if c = 'e' ∨ c = 'E' then dropDigits (dropSign (fun c => c = '+' || c = '-') rest) else some (c :: rest)
  | [] => some []

/-- `-? (0 | [1-9] [0-9]*) (. [0-9]+)? ([eE] [+-]? [0-9]+)?`. -/
def isJsonNumber (cs : List Char) : Bool :=
  ((dropInteger (dropSign (· = '-') cs)).bind dropFraction).bind dropExponent = some []

def parseNumber (host : Host) (cs : List Char) : Option (Json × List Char) :=
  let text := cs.takeWhile isNumberChar
  if isJsonNumber text then
    (host.number (String.ofList text)).map fun n => (.num n, cs.dropWhile isNumberChar)
  else none

def literals : List (List Char × Json) :=
  [("null".toList, .null), ("true".toList, .bool true), ("false".toList, .bool false)]

/-- A literal or a number. -/
def parseWord (host : Host) (cs : List Char) : Option (Json × List Char) :=
  match literals.find? fun l => l.1.isPrefixOf cs with
  | some (word, v) => some (v, cs.drop word.length)
  | none => parseNumber host cs

/-! Values. A key that comes again replaces the value. -/

mutual

def parseValue (host : Host) : ℕ → List Char → Option (Json × List Char)
  | 0, _ => none
  | fuel + 1, cs =>
    match skipSpace cs with
    | [] => none
    | c :: rest =>
      if c = '"' then (parseString rest).map fun (s, rest) => (.str s, rest)
      else if c = '[' then
        if (skipSpace rest).head? = some ']' then some (.arr [], (skipSpace rest).tail)
        else (parseItems host fuel rest).map fun (items, rest) => (.arr items, rest)
      else if c = '{' then
        if (skipSpace rest).head? = some '}' then some (.obj [], (skipSpace rest).tail)
        else (parseEntries host fuel rest).map fun (entries, rest) =>
          (.obj (entries.foldl (fun m e => Lib.OrderedMap.set e.1 e.2 m) []), rest)
      else parseWord host (c :: rest)

/-- The items before the closing bracket. -/
def parseItems (host : Host) : ℕ → List Char → Option (List Json × List Char)
  | 0, _ => none
  | fuel + 1, cs =>
    (parseValue host fuel cs).bind fun (v, rest) =>
      match skipSpace rest with
      | [] => none
      | c :: rest =>
        if c = ',' then (parseItems host fuel rest).map fun (items, rest) => (v :: items, rest)
        else if c = ']' then some ([v], rest)
        else none

/-- The entries before the closing brace. -/
def parseEntries (host : Host) : ℕ → List Char → Option (List (String × Json) × List Char)
  | 0, _ => none
  | fuel + 1, cs =>
    if (skipSpace cs).head? = some '"' then
      (parseString (skipSpace cs).tail).bind fun (key, rest) =>
        if (skipSpace rest).head? = some ':' then
          (parseValue host fuel (skipSpace rest).tail).bind fun (v, rest) =>
            match skipSpace rest with
            | [] => none
            | c :: rest =>
              if c = ',' then (parseEntries host fuel rest).map fun (entries, rest) => ((key, v) :: entries, rest)
              else if c = '}' then some ([(key, v)], rest)
              else none
        else none
    else none

end

/-- `JSON.parse`. -/
def parse (host : Host) (text : String) : Option Json :=
  (parseValue host (text.toList.length + 1) text.toList).bind fun (v, rest) =>
    if skipSpace rest = [] then some v else none

/-! Printed strings. -/

theorem hexValue_hexDigit {d : ℕ} (h : d < 16) : hexValue (hexDigit d) = some d := by
  interval_cases d <;> rfl

theorem hexUnit_control {n : ℕ} (h : n < 32) : hexUnit '0' '0' (hexDigit (n / 16)) (hexDigit (n % 16)) = some n := by
  have hhigh : n / 16 < 16 := by omega
  have hlow : n % 16 < 16 := by omega
  have hzero : hexValue '0' = some 0 := rfl
  simp only [hexUnit, hzero, hexValue_hexDigit hhigh, hexValue_hexDigit hlow, Option.bind_eq_bind, Option.bind_some,
    Option.pure_def]
  congr 1
  omega

/-- An escape of one letter is one code unit. -/
theorem stringUnits_escape {e : Char} {u : ℕ} (he : escapedUnit e = some u) (hu : e ≠ 'u') (rest : List Char) :
    stringUnits ('\\' :: e :: rest) = (stringUnits rest).map (pushUnits [u]) := by
  rw [stringUnits.eq_def]
  simp [hu, he]

theorem stringUnits_control {n : ℕ} (h : n < 32) (rest : List Char) :
    stringUnits ('\\' :: 'u' :: '0' :: '0' :: hexDigit (n / 16) :: hexDigit (n % 16) :: rest) =
      (stringUnits rest).map (pushUnits [n]) := by
  rw [stringUnits.eq_def]
  simp [hexUnit_control h]

theorem stringUnits_plain {c : Char} (hquote : c ≠ '"') (hslash : c ≠ '\\') (hcontrol : ¬ c.toNat < 32)
    (rest : List Char) : stringUnits (c :: rest) = (stringUnits rest).map (pushUnits (utf16Units c)) := by
  rw [stringUnits.eq_def]
  simp [hquote, hslash, hcontrol]

theorem utf16Units_of_toNat {c : Char} {n : ℕ} (h : c.toNat = n) (hn : n < 0x10000) : utf16Units c = [n] := by
  unfold utf16Units
  rw [h, if_pos hn]

/-- A printed character is read back as its code units. -/
theorem stringUnits_quoteChar (c : Char) (rest : List Char) :
    stringUnits (quoteChar c ++ rest) = (stringUnits rest).map (pushUnits (utf16Units c)) := by
  by_cases hquote : c = '"'
  · subst hquote
    exact stringUnits_escape rfl (by decide) rest
  by_cases hslash : c = '\\'
  · subst hslash
    exact stringUnits_escape rfl (by decide) rest
  by_cases hb : c.toNat = 8
  · have hc : c = Char.ofNat 8 := Char.toNat_inj.mp hb
    subst hc
    exact stringUnits_escape rfl (by decide) rest
  by_cases ht : c = '\t'
  · subst ht
    exact stringUnits_escape rfl (by decide) rest
  by_cases hn : c = '\n'
  · subst hn
    exact stringUnits_escape rfl (by decide) rest
  by_cases hf : c.toNat = 12
  · have hc : c = Char.ofNat 12 := Char.toNat_inj.mp hf
    subst hc
    exact stringUnits_escape rfl (by decide) rest
  by_cases hr : c = '\r'
  · subst hr
    exact stringUnits_escape rfl (by decide) rest
  unfold quoteChar
  rw [if_neg hquote, if_neg hslash, if_neg hb, if_neg ht, if_neg hn, if_neg hf, if_neg hr]
  by_cases hcontrol : c.toNat < 32
  · rw [if_pos hcontrol, utf16Units_of_toNat rfl (by omega)]
    exact stringUnits_control hcontrol rest
  · rw [if_neg hcontrol]
    exact stringUnits_plain hquote hslash hcontrol rest

theorem stringUnits_quoted (cs rest : List Char) :
    stringUnits (cs.flatMap quoteChar ++ '"' :: rest) = some (cs.flatMap utf16Units, rest) := by
  induction cs with
  | nil =>
    rw [List.flatMap_nil, List.nil_append, stringUnits.eq_def]
    rfl
  | cons c cs ih =>
    rw [List.flatMap_cons, List.append_assoc, stringUnits_quoteChar, ih]
    rfl

theorem parseString_quoted (s : String) (rest : List Char) :
    parseString (s.toList.flatMap quoteChar ++ '"' :: rest) = some (s, rest) := by
  unfold parseString
  rw [stringUnits_quoted, Option.bind_some]
  dsimp only
  rw [decodeUnits_flatMap, Option.map_some, String.ofList_toList]

/-! Numbers. -/

/-- What is cut off the front is written with number characters. -/
def Eats (cs rest : List Char) : Prop := ∃ front, cs = front ++ rest ∧ ∀ c ∈ front, isNumberChar c = true

theorem Eats.refl (cs : List Char) : Eats cs cs := ⟨[], rfl, List.forall_mem_nil _⟩

theorem Eats.cons {c : Char} {cs rest : List Char} (hc : isNumberChar c = true) (h : Eats cs rest) :
    Eats (c :: cs) rest := by
  obtain ⟨front, rfl, hfront⟩ := h
  exact ⟨c :: front, rfl, List.forall_mem_cons.mpr ⟨hc, hfront⟩⟩

theorem Eats.trans {cs ds rest : List Char} (h : Eats cs ds) (h' : Eats ds rest) : Eats cs rest := by
  obtain ⟨front, rfl, hfront⟩ := h
  obtain ⟨middle, rfl, hmiddle⟩ := h'
  refine ⟨front ++ middle, (List.append_assoc _ _ _).symm, ?_⟩
  intro c hc
  rcases List.mem_append.mp hc with hc | hc
  · exact hfront c hc
  · exact hmiddle c hc

theorem eats_dropDigits {cs rest : List Char} (h : dropDigits cs = some rest) : Eats cs rest := by
  unfold dropDigits at h
  split at h
  · cases h
  · obtain rfl := Option.some.inj h
    refine ⟨cs.takeWhile isDigit, List.takeWhile_append_dropWhile.symm, ?_⟩
    intro c hc
    simp [isNumberChar, List.mem_takeWhile_imp hc]

theorem eats_dropSign {sign : Char → Bool} (hsign : ∀ c, sign c = true → isNumberChar c = true) (cs : List Char) :
    Eats cs (dropSign sign cs) := by
  rcases cs with _ | ⟨c, cs⟩
  · exact Eats.refl _
  · unfold dropSign
    dsimp only
    split_ifs with hc
    · exact (Eats.refl cs).cons (hsign c hc)
    · exact Eats.refl _

theorem eats_dropInteger {cs rest : List Char} (h : dropInteger cs = some rest) : Eats cs rest := by
  rcases cs with _ | ⟨c, cs⟩
  · cases h
  · unfold dropInteger at h
    dsimp only at h
    split_ifs at h with hc
    · obtain rfl := Option.some.inj h
      exact (Eats.refl cs).cons (by rw [hc]; rfl)
    · exact eats_dropDigits h

theorem eats_dropFraction {cs rest : List Char} (h : dropFraction cs = some rest) : Eats cs rest := by
  rcases cs with _ | ⟨c, cs⟩
  · obtain rfl := Option.some.inj h
    exact Eats.refl _
  · unfold dropFraction at h
    dsimp only at h
    split_ifs at h with hc
    · exact (eats_dropDigits h).cons (by rw [hc]; rfl)
    · obtain rfl := Option.some.inj h
      exact Eats.refl _

theorem eats_dropExponent {cs rest : List Char} (h : dropExponent cs = some rest) : Eats cs rest := by
  rcases cs with _ | ⟨c, cs⟩
  · obtain rfl := Option.some.inj h
    exact Eats.refl _
  · unfold dropExponent at h
    dsimp only at h
    split_ifs at h with hc
    · have hsign : ∀ c : Char, (c = '+' || c = '-') = true → isNumberChar c = true := by
        intro c hc
        rcases (by simpa using hc : c = '+' ∨ c = '-') with rfl | rfl <;> rfl
      refine ((eats_dropSign hsign cs).trans (eats_dropDigits h)).cons ?_
      rcases hc with rfl | rfl <;> rfl
    · obtain rfl := Option.some.inj h
      exact Eats.refl _

/-- A number is not empty and is written with number characters. -/
theorem isJsonNumber_chars {cs : List Char} (h : isJsonNumber cs = true) :
    cs ≠ [] ∧ ∀ c ∈ cs, isNumberChar c = true := by
  refine ⟨by rintro rfl; exact absurd h (by decide), ?_⟩
  unfold isJsonNumber at h
  obtain ⟨integer, hinteger, hexponent⟩ := Option.bind_eq_some_iff.mp (of_decide_eq_true h)
  obtain ⟨fraction, hfraction, hinteger⟩ := Option.bind_eq_some_iff.mp hinteger
  have hsign : ∀ c : Char, decide (c = '-') = true → isNumberChar c = true := by
    intro c hc
    rw [of_decide_eq_true hc]
    rfl
  have heats := ((eats_dropSign hsign cs).trans (eats_dropInteger hfraction)).trans
    ((eats_dropFraction hinteger).trans (eats_dropExponent hexponent))
  obtain ⟨front, rfl, hfront⟩ := heats
  rwa [List.append_nil]

/-- What follows a value does not go on with a number. -/
def Stops (rest : List Char) : Prop := ∀ c ∈ rest.head?, isNumberChar c = false

theorem parseNumber_text {host : Host} {n : ℚ} (hread : host.number (host.numberText n) = some n)
    (hnumber : isJsonNumber (host.numberText n).toList = true) {rest : List Char} (hrest : Stops rest) :
    parseNumber host ((host.numberText n).toList ++ rest) = some (.num n, rest) := by
  obtain ⟨htake, hdrop⟩ := span_append (isJsonNumber_chars hnumber).2 hrest
  unfold parseNumber
  rw [htake, hdrop, if_pos hnumber, String.ofList_toList, hread, Option.map_some]

/-! Values. -/

mutual

/-- A value the host language can hold: its numbers are printed and read back, no object has a
key twice. -/
def WellFormed (host : Host) : Json → Prop
  | .null => True
  | .bool _ => True
  | .num n => host.number (host.numberText n) = some n ∧ isJsonNumber (host.numberText n).toList = true
  | .str _ => True
  | .arr items => WellFormedItems host items
  | .obj entries => (entries.map Prod.fst).Nodup ∧ WellFormedEntries host entries

def WellFormedItems (host : Host) : List Json → Prop
  | [] => True
  | v :: items => WellFormed host v ∧ WellFormedItems host items

def WellFormedEntries (host : Host) : List (String × Json) → Prop
  | [] => True
  | (_, v) :: entries => WellFormed host v ∧ WellFormedEntries host entries

end

variable {host : Host}

/-- The first character of a printed value. -/
theorem chars_head {v : Json} (h : WellFormed host v) :
    ∃ c text, chars host v = c :: text ∧ isJsonSpace c = false ∧ c ≠ ']' := by
  rcases v with _ | b | n | s | items | entries
  · exact ⟨'n', _, rfl, rfl, by decide⟩
  · rcases b with _ | _
    · exact ⟨'f', _, rfl, rfl, by decide⟩
    · exact ⟨'t', _, rfl, rfl, by decide⟩
  · obtain ⟨hne, hall⟩ := isJsonNumber_chars h.2
    obtain ⟨c, text, htext⟩ := List.exists_cons_of_ne_nil hne
    have hc : isNumberChar c = true := hall c (htext ▸ List.mem_cons_self)
    refine ⟨c, text, htext, ?_, ?_⟩
    · by_contra hspace
      rw [Bool.not_eq_false] at hspace
      simp only [isJsonSpace, Bool.or_eq_true, decide_eq_true_eq] at hspace
      rcases hspace with ((rfl | rfl) | rfl) | rfl <;> exact absurd hc (by decide)
    · rintro rfl
      exact absurd hc (by decide)
  · exact ⟨'"', _, rfl, rfl, by decide⟩
  · exact ⟨'[', _, rfl, rfl, by decide⟩
  · exact ⟨'{', _, rfl, rfl, by decide⟩

theorem skipSpace_of_not_space {c : Char} (h : isJsonSpace c = false) (cs : List Char) :
    skipSpace (c :: cs) = c :: cs := by
  unfold skipSpace
  rw [List.dropWhile_cons, h]
  rfl

theorem parseWord_literal {word : List Char} {v : Json} (hmem : (word, v) ∈ literals) (rest : List Char) :
    parseWord host (word ++ rest) = some (v, rest) := by
  simp only [literals, List.mem_cons, Prod.mk.injEq, List.not_mem_nil, or_false] at hmem
  rcases hmem with ⟨rfl, rfl⟩ | ⟨rfl, rfl⟩ | ⟨rfl, rfl⟩ <;> simp [parseWord, literals]

theorem parseWord_number {n : ℚ} (h : WellFormed host (.num n)) {rest : List Char} (hrest : Stops rest) :
    parseWord host ((host.numberText n).toList ++ rest) = some (.num n, rest) := by
  obtain ⟨hne, hall⟩ := isJsonNumber_chars h.2
  obtain ⟨c, text, htext⟩ := List.exists_cons_of_ne_nil hne
  have hc : isNumberChar c = true := hall c (htext ▸ List.mem_cons_self)
  have hnone : literals.find? (fun l => l.1.isPrefixOf ((host.numberText n).toList ++ rest)) = none := by
    rw [htext, List.cons_append]
    have hn : c ≠ 'n' ∧ c ≠ 't' ∧ c ≠ 'f' := by
      refine ⟨?_, ?_, ?_⟩ <;> (rintro rfl; exact absurd hc (by decide))
    simp [literals, Ne.symm hn.1, Ne.symm hn.2.1, Ne.symm hn.2.2]
  unfold parseWord
  rw [hnone]
  exact parseNumber_text h.1 h.2 hrest

theorem parseValue_word {fuel : ℕ} {cs rest : List Char} {v : Json} {c : Char} {text : List Char} (hcs : cs = c :: text)
    (hspace : isJsonSpace c = false) (hplain : c ≠ '"' ∧ c ≠ '[' ∧ c ≠ '{') (h : parseWord host cs = some (v, rest)) :
    parseValue host (fuel + 1) cs = some (v, rest) := by
  subst hcs
  rw [parseValue, skipSpace_of_not_space hspace]
  dsimp only
  rw [if_neg hplain.1, if_neg hplain.2.1, if_neg hplain.2.2, h]

theorem head_parse {v : Json} (h : WellFormed host v) (rest : List Char) :
    (skipSpace (chars host v ++ rest)).head? ≠ some ']' := by
  obtain ⟨c, text, htext, hspace, hc⟩ := chars_head h
  rw [htext, List.cons_append, skipSpace_of_not_space hspace]
  simpa using hc

theorem itemChars_append {v : Json} {items : List Json} (hne : items ≠ []) :
    itemChars host (v :: items) = chars host v ++ ',' :: itemChars host items := by
  obtain ⟨w, items, rfl⟩ := List.exists_cons_of_ne_nil hne
  rw [itemChars]
  exact List.cons_ne_nil w items

theorem entryChars_append {key : String} {v : Json} {entries : List (String × Json)} (hne : entries ≠ []) :
    entryChars host ((key, v) :: entries) = quote key ++ ':' :: chars host v ++ ',' :: entryChars host entries := by
  obtain ⟨e, entries, rfl⟩ := List.exists_cons_of_ne_nil hne
  rw [entryChars]
  exact List.cons_ne_nil e entries

theorem parseValue_arr {fuel : ℕ} {v : Json} {items : List Json} {rest : List Char} (hv : WellFormed host v)
    (h : parseItems host fuel (itemChars host (v :: items) ++ ']' :: rest) = some (v :: items, rest)) :
    parseValue host (fuel + 1) (chars host (.arr (v :: items)) ++ rest) = some (.arr (v :: items), rest) := by
  have htext : chars host (.arr (v :: items)) ++ rest = '[' :: (itemChars host (v :: items) ++ ']' :: rest) := by
    simp [chars]
  have hhead : (skipSpace (itemChars host (v :: items) ++ ']' :: rest)).head? ≠ some ']' := by
    rcases items with _ | ⟨w, items⟩
    · exact head_parse hv _
    · rw [itemChars_append (List.cons_ne_nil w items), List.append_assoc]
      exact head_parse hv _
  rw [htext, parseValue, skipSpace_of_not_space (by decide)]
  dsimp only
  rw [if_neg (by decide), if_pos rfl, if_neg hhead, h]
  rfl

theorem parseValue_obj {fuel : ℕ} {e : String × Json} {entries : List (String × Json)} {rest : List Char}
    (hnodup : ((e :: entries).map Prod.fst).Nodup)
    (h : parseEntries host fuel (entryChars host (e :: entries) ++ '}' :: rest) = some (e :: entries, rest)) :
    parseValue host (fuel + 1) (chars host (.obj (e :: entries)) ++ rest) = some (.obj (e :: entries), rest) := by
  have htext : chars host (.obj (e :: entries)) ++ rest = '{' :: (entryChars host (e :: entries) ++ '}' :: rest) := by
    simp [chars]
  have hhead : (skipSpace (entryChars host (e :: entries) ++ '}' :: rest)).head? ≠ some '}' := by
    obtain ⟨key, v⟩ := e
    have hquote : ∃ text, entryChars host ((key, v) :: entries) = '"' :: text := by
      rcases entries with _ | ⟨e', entries⟩
      · exact ⟨_, rfl⟩
      · rw [entryChars_append (List.cons_ne_nil e' entries)]
        exact ⟨_, rfl⟩
    obtain ⟨text, hquote⟩ := hquote
    rw [hquote, List.cons_append, skipSpace_of_not_space (by decide)]
    simp
  have hset := Lib.OrderedMap.foldl_set_eq_append (m := []) hnodup
  rw [htext, parseValue, skipSpace_of_not_space (by decide)]
  dsimp only
  rw [if_neg (by decide), if_neg (by decide), if_pos rfl, if_neg hhead, h, Option.map_some]
  rw [hset, List.nil_append]

theorem parseItems_last {fuel : ℕ} {v : Json} {rest text : List Char}
    (h : parseValue host fuel text = some (v, ']' :: rest)) : parseItems host (fuel + 1) text = some ([v], rest) := by
  rw [parseItems, h, Option.bind_some]
  dsimp only
  rw [skipSpace_of_not_space (by decide)]
  dsimp only
  rw [if_neg (by decide), if_pos rfl]

theorem parseItems_cons {fuel : ℕ} {v : Json} {items : List Json} {rest text more : List Char}
    (h : parseValue host fuel text = some (v, ',' :: more)) (hmore : parseItems host fuel more = some (items, rest)) :
    parseItems host (fuel + 1) text = some (v :: items, rest) := by
  rw [parseItems, h, Option.bind_some]
  dsimp only
  rw [skipSpace_of_not_space (by decide)]
  dsimp only
  rw [if_pos rfl, hmore]
  rfl

/-- An entry is its quoted key, a colon and its value. -/
theorem parseEntries_step {fuel : ℕ} {key : String} {v : Json} {text more : List Char}
    (h : parseValue host fuel text = some (v, more)) :
    parseEntries host (fuel + 1) (quote key ++ ':' :: text) =
      match skipSpace more with
      | [] => none
      | c :: rest =>
        if c = ',' then (parseEntries host fuel rest).map fun (entries, rest) => ((key, v) :: entries, rest)
        else if c = '}' then some ([(key, v)], rest)
        else none := by
  have hquote : quote key ++ ':' :: text = '"' :: (key.toList.flatMap quoteChar ++ '"' :: ':' :: text) := by
    simp [quote]
  rw [hquote, parseEntries, skipSpace_of_not_space (by decide), List.head?_cons, if_pos rfl, List.tail_cons,
    parseString_quoted, Option.bind_some]
  dsimp only
  rw [skipSpace_of_not_space (by decide), List.head?_cons, if_pos rfl, List.tail_cons, h, Option.bind_some]

theorem stops_cons {c : Char} (h : isNumberChar c = false) (rest : List Char) : Stops (c :: rest) := by
  intro d hd
  obtain rfl := Option.some.inj hd
  exact h

theorem quote_length_pos (key : String) : 0 < (quote key).length := by simp [quote]

mutual

/-- A printed value is read back. -/
theorem parseValue_chars (v : Json) (hv : WellFormed host v) (fuel : ℕ) (rest : List Char)
    (hfuel : (chars host v).length ≤ fuel) (hrest : Stops rest) :
    parseValue host fuel (chars host v ++ rest) = some (v, rest) := by
  obtain ⟨c, text, htext, hspace, -⟩ := chars_head hv
  obtain ⟨fuel, rfl⟩ : ∃ k, fuel = k + 1 := ⟨fuel - 1, by rw [htext, List.length_cons] at hfuel; omega⟩
  match v, hv with
  | .null, _ => exact parseValue_word rfl (by decide) (by decide) (parseWord_literal (by simp [literals, chars]) rest)
  | .bool false, _ =>
    exact parseValue_word rfl (by decide) (by decide) (parseWord_literal (by simp [literals, chars]) rest)
  | .bool true, _ =>
    exact parseValue_word rfl (by decide) (by decide) (parseWord_literal (by simp [literals, chars]) rest)
  | .num n, hv =>
    have hword := parseWord_number hv hrest
    have hc : isNumberChar c = true := (isJsonNumber_chars hv.2).2 c (by
      have : (host.numberText n).toList = c :: text := htext
      rw [this]
      exact List.mem_cons_self)
    refine parseValue_word (by rw [htext, List.cons_append]) hspace ?_ hword
    refine ⟨?_, ?_, ?_⟩ <;> (rintro rfl; exact absurd hc (by decide))
  | .str s, _ =>
    have hquote : chars host (.str s) ++ rest = '"' :: (s.toList.flatMap quoteChar ++ '"' :: rest) := by
      simp [chars, quote]
    rw [hquote, parseValue, skipSpace_of_not_space (by decide)]
    dsimp only
    rw [if_pos rfl, parseString_quoted]
    rfl
  | .arr [], _ =>
    have htext : chars host (.arr []) ++ rest = '[' :: ']' :: rest := by simp [chars, itemChars]
    rw [htext, parseValue, skipSpace_of_not_space (by decide)]
    dsimp only
    rw [if_neg (by decide), if_pos rfl, skipSpace_of_not_space (by decide)]
    simp
  | .arr (w :: items), hv =>
    rw [chars, List.length_append, List.length_cons, List.length_singleton] at hfuel
    exact parseValue_arr hv.1 (parseItems_chars (w :: items) hv (List.cons_ne_nil w items) fuel rest (by omega))
  | .obj [], _ =>
    have htext : chars host (.obj []) ++ rest = '{' :: '}' :: rest := by simp [chars, entryChars]
    rw [htext, parseValue, skipSpace_of_not_space (by decide)]
    dsimp only
    rw [if_neg (by decide), if_neg (by decide), if_pos rfl, skipSpace_of_not_space (by decide)]
    simp
  | .obj ((key, w) :: entries), hv =>
    rw [chars, List.length_append, List.length_cons, List.length_singleton] at hfuel
    exact parseValue_obj hv.1
      (parseEntries_chars ((key, w) :: entries) hv.2 (List.cons_ne_nil (key, w) entries) fuel rest (by omega))

theorem parseItems_chars (items : List Json) (hitems : WellFormedItems host items) (hne : items ≠ []) (fuel : ℕ)
    (rest : List Char) (hfuel : (itemChars host items).length < fuel) :
    parseItems host fuel (itemChars host items ++ ']' :: rest) = some (items, rest) := by
  obtain ⟨fuel, rfl⟩ : ∃ k, fuel = k + 1 := ⟨fuel - 1, by omega⟩
  match items, hitems with
  | [v], hitems =>
    exact parseItems_last (parseValue_chars v hitems.1 fuel _ (Nat.le_of_lt_succ hfuel) (stops_cons (by decide) rest))
  | v :: w :: items, hitems =>
    rw [itemChars_append (List.cons_ne_nil w items), List.length_append, List.length_cons] at hfuel
    rw [itemChars_append (List.cons_ne_nil w items), List.append_assoc, List.cons_append]
    exact parseItems_cons (parseValue_chars v hitems.1 fuel _ (by omega) (stops_cons (by decide) _))
      (parseItems_chars (w :: items) hitems.2 (List.cons_ne_nil w items) fuel rest (by omega))

theorem parseEntries_chars (entries : List (String × Json)) (hentries : WellFormedEntries host entries)
    (hne : entries ≠ []) (fuel : ℕ) (rest : List Char) (hfuel : (entryChars host entries).length < fuel) :
    parseEntries host fuel (entryChars host entries ++ '}' :: rest) = some (entries, rest) := by
  obtain ⟨fuel, rfl⟩ : ∃ k, fuel = k + 1 := ⟨fuel - 1, by omega⟩
  match entries, hentries with
  | [(key, v)], hentries =>
    have hquote := quote_length_pos key
    have htext : entryChars host [(key, v)] = quote key ++ ':' :: chars host v := rfl
    rw [htext, List.length_append, List.length_cons] at hfuel
    rw [htext, List.append_assoc, List.cons_append,
      parseEntries_step (parseValue_chars v hentries.1 fuel _ (by omega) (stops_cons (by decide) rest)),
      skipSpace_of_not_space (by decide)]
    dsimp only
    rw [if_neg (by decide), if_pos rfl]
  | (key, v) :: e :: entries, hentries =>
    have hquote := quote_length_pos key
    have htext := @entryChars_append host key v _ (List.cons_ne_nil e entries)
    rw [htext, List.length_append, List.length_append, List.length_cons, List.length_cons] at hfuel
    rw [htext, List.append_assoc, List.append_assoc, List.cons_append, List.cons_append,
      parseEntries_step (parseValue_chars v hentries.1 fuel _ (by omega) (stops_cons (by decide) _)),
      skipSpace_of_not_space (by decide)]
    dsimp only
    rw [if_pos rfl, parseEntries_chars (e :: entries) hentries.2 (List.cons_ne_nil e entries) fuel rest (by omega)]
    rfl

end

theorem parse_stringify {v : Json} (hv : WellFormed host v) : parse host (v.stringify host) = some v := by
  unfold parse stringify
  rw [String.toList_ofList]
  have hstops : Stops [] := fun c hc => (nomatch hc)
  have h := parseValue_chars v hv ((chars host v).length + 1) [] (Nat.le_succ _) hstops
  rw [List.append_nil] at h
  rw [h, Option.bind_some]
  exact if_pos rfl

end Json

end Mydon.Js
