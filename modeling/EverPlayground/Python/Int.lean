import Mathlib.Data.List.DropRight
import EverPlayground.Math.Positional

/-!
# Python integers from text and from bytes

`int(text)`, `int(text, 2)` and `int(text, 16)` as Python documents them: the text may be
surrounded by whitespace, begin with one sign, have the prefix of its base (`0b`, `0x`), and
separate its digits by single underscores. Decimal digits and whitespace are those of
Unicode, which enters as a parameter; on printable ASCII it is fixed. Four separators among
the control characters are whitespace to Unicode but not to `int`.

## Main definitions

* `Unicode`, `LawfulUnicode` — the character classes
* `int` — the integer of a text, absent where Python raises `ValueError`
* `fromBytes`, `toBytes` — the integer of a string of bytes, and the other way

## Main results

* `int_digits` — a text of digits only, after an optional minus sign
* `int_toString` — the decimal spelling of an integer is read as that integer
* `int_word` — a text of binary or hexadecimal digits is read as the word it spells
-/

set_option autoImplicit false

namespace Python

/-- The character classes of the Unicode database. -/
class Unicode where
  isSpace : Char → Bool
  decimal : Char → Option (Fin 10)

class LawfulUnicode [Unicode] : Prop where
  isSpace_graphic : ∀ c : Char, 32 < c.toNat → c.toNat < 127 → Unicode.isSpace c = false
  isSpace_blank : Unicode.isSpace ' ' = true
  decimal_ascii : ∀ c : Char, c.toNat < 128 →
    Unicode.decimal c = if c.isDigit then some (Fin.ofNat 10 (c.toNat - 48)) else none

/-- The longest decimal numeral that is converted, in digits. -/
def maxStrDigits : ℕ := 4300

/-- The value of a digit in a base up to thirty-six. -/
def digitValue (base : ℕ) (c : Char) : Option ℕ :=
  let value :=
    if c.isDigit then c.toNat - 48
    else if c.isLower then c.toNat - 87
    else if c.isUpper then c.toNat - 55
    else base
  if value < base then some value else none

/-- The digits after the first one; an underscore stands between two digits. -/
def readDigits (base : ℕ) : ℕ → List Char → Option ℕ
  | acc, [] => some acc
  | acc, '_' :: c :: cs =>
    (digitValue base c).bind fun value => readDigits base (acc * base + value) cs
  | acc, c :: cs =>
    (digitValue base c).bind fun value => readDigits base (acc * base + value) cs

def readNumeral (base : ℕ) : List Char → Option ℕ
  | [] => none
  | c :: cs => (digitValue base c).bind fun value => readDigits base value cs

/-- A zero and one of two letters are dropped; an underscore may also follow them. -/
def dropPrefix (lower upper : Char) : List Char → List Char
  | '0' :: c :: cs =>
    if c = lower ∨ c = upper then
      match cs with
      | '_' :: cs => cs
      | cs => cs
    else '0' :: c :: cs
  | cs => cs

def dropBasePrefix (base : ℕ) (cs : List Char) : List Char :=
  if base = 16 then dropPrefix 'x' 'X' cs
  else if base = 2 then dropPrefix 'b' 'B' cs
  else cs

/-- Whether a minus sign was found, and what follows the sign. -/
def readSign : List Char → Bool × List Char
  | '-' :: cs => (true, cs)
  | '+' :: cs => (false, cs)
  | cs => (false, cs)

def strip (cs : List Char) : List Char := (cs.dropWhile (· == ' ')).rdropWhile (· == ' ')

section

variable [Unicode]

/-- Whitespace becomes blanks, and every decimal digit its ASCII form. -/
def asciiOf (isSpace : Char → Bool) (c : Char) : Char :=
  if isSpace c then ' '
  else match Unicode.decimal c with
    | some d => Nat.digitChar d
    | none => c

/-- The whitespace that `int` takes off: U+001C to U+001F are left where they are. -/
def isIntSpace (c : Char) : Bool := Unicode.isSpace c && !(28 ≤ c.toNat && c.toNat ≤ 31)

/-- A character as `int` sees it. -/
def toAscii : Char → Char := asciiOf isIntSpace

/-- `int(text, base)` for the bases two, ten and sixteen. -/
def int (base : ℕ) (text : List Char) : Option ℤ :=
  let (negative, cs) := readSign (strip (text.map toAscii))
  let cs := dropBasePrefix base cs
  if base = 10 ∧ maxStrDigits < (cs.filter (· != '_')).length then none
  else (readNumeral base cs).map fun value : ℕ =>
    if negative then -(value : ℤ) else (value : ℤ)

end

/-- `int.from_bytes(bytes, 'big')`. -/
def fromBytes (bytes : List UInt8) : ℕ :=
  bytes.foldl (fun acc byte => acc * 256 + byte.toNat) 0

theorem fromBytes_eq_value (bytes : List UInt8) :
    fromBytes bytes = Math.Positional.value bytes := by
  rw [Math.Positional.value_eq_foldl, List.foldl_map]
  rfl

/-- `n.to_bytes(length, 'big')`, absent where Python raises `OverflowError`. -/
def toBytes (length : ℕ) (n : ℤ) : Option (List UInt8) :=
  if 0 ≤ n ∧ n < 256 ^ length then some (Math.Positional.word length n.toNat) else none

/-- Only a natural number that has room is converted, and its bytes determine it. -/
theorem toBytes_eq_some_iff {length : ℕ} {n : ℤ} {bytes : List UInt8} :
    toBytes length n = some bytes ↔
      ∃ m : ℕ, m < 256 ^ length ∧ n = m ∧ bytes = Math.Positional.word length m := by
  unfold toBytes
  split_ifs with h
  · obtain ⟨m, rfl⟩ := Int.eq_ofNat_of_zero_le h.1
    have hm : m < 256 ^ length := by exact_mod_cast h.2
    constructor
    · intro hbytes
      exact ⟨m, hm, rfl, (Option.some.inj hbytes).symm⟩
    · rintro ⟨m', -, hm', rfl⟩
      rw [← Int.ofNat_inj.mp hm', Int.toNat_natCast]
  · refine iff_of_false nofun ?_
    rintro ⟨m, hm, rfl, -⟩
    exact h ⟨Int.natCast_nonneg m, by exact_mod_cast hm⟩

/-! ### Digits -/

theorem isDigit_iff (c : Char) : c.isDigit = true ↔ 48 ≤ c.toNat ∧ c.toNat ≤ 57 :=
  Char.isDigit_iff_toNat

theorem isLower_iff (c : Char) : c.isLower = true ↔ 97 ≤ c.toNat ∧ c.toNat ≤ 122 := by
  change (decide ('a'.val ≤ c.val) && decide (c.val ≤ 'z'.val)) = true ↔ _
  rw [Bool.and_eq_true, decide_eq_true_iff, decide_eq_true_iff]
  rfl

theorem isUpper_iff (c : Char) : c.isUpper = true ↔ 65 ≤ c.toNat ∧ c.toNat ≤ 90 := by
  change decide ('A'.val ≤ c.val ∧ c.val ≤ 'Z'.val) = true ↔ _
  rw [decide_eq_true_iff]
  rfl

/-- The number that a sequence of digits denotes, the first one the most significant. -/
def accumulate (base : ℕ) (values : List ℕ) : ℕ :=
  values.foldl (fun acc value => acc * base + value) 0

/-- A digit is a decimal digit or a letter. -/
theorem digitValue_range {base value : ℕ} {c : Char} (h : digitValue base c = some value) :
    48 ≤ c.toNat ∧ c.toNat ≤ 57 ∨ 97 ≤ c.toNat ∧ c.toNat ≤ 122 ∨
      65 ≤ c.toNat ∧ c.toNat ≤ 90 := by
  unfold digitValue at h
  by_cases hdigit : c.isDigit = true
  · exact Or.inl ((isDigit_iff c).mp hdigit)
  by_cases hlower : c.isLower = true
  · exact Or.inr (Or.inl ((isLower_iff c).mp hlower))
  by_cases hupper : c.isUpper = true
  · exact Or.inr (Or.inr ((isUpper_iff c).mp hupper))
  · simp [hdigit, hlower, hupper] at h

theorem isHexDigit_iff (c : Char) : c.isHexDigit = true ↔
    48 ≤ c.toNat ∧ c.toNat ≤ 57 ∨ 97 ≤ c.toNat ∧ c.toNat ≤ 102 ∨
      65 ≤ c.toNat ∧ c.toNat ≤ 70 := by
  have hlower : (decide (c.val ≥ 'a'.val) && decide (c.val ≤ 'f'.val)) = true ↔
      97 ≤ c.toNat ∧ c.toNat ≤ 102 := by
    rw [Bool.and_eq_true, decide_eq_true_iff, decide_eq_true_iff]
    rfl
  have hupper : (decide (c.val ≥ 'A'.val) && decide (c.val ≤ 'F'.val)) = true ↔
      65 ≤ c.toNat ∧ c.toNat ≤ 70 := by
    rw [Bool.and_eq_true, decide_eq_true_iff, decide_eq_true_iff]
    rfl
  rw [Char.isHexDigit, Bool.or_eq_true, Bool.or_eq_true, isDigit_iff, hlower, hupper, or_assoc]

theorem digitValue_lt {base value : ℕ} {c : Char} (h : digitValue base c = some value) :
    value < base := by
  obtain ⟨hlt, hvalue⟩ := Option.ite_none_right_eq_some.mp h
  exact Option.some.inj hvalue ▸ hlt

/-- The hexadecimal characters are the digits of base sixteen. -/
theorem isHexDigit_iff_digitValue (c : Char) :
    c.isHexDigit = true ↔ ∃ value, digitValue 16 c = some value := by
  have hsome : (∃ value, digitValue 16 c = some value) ↔
      (if c.isDigit then c.toNat - 48 else if c.isLower then c.toNat - 87
        else if c.isUpper then c.toNat - 55 else 16) < 16 := by
    simp only [digitValue, Option.ite_none_right_eq_some, exists_and_left, Option.some_inj,
      exists_eq', and_true]
  rw [hsome, isHexDigit_iff]
  simp only [isDigit_iff, isLower_iff, isUpper_iff]
  split_ifs <;> omega

theorem ne_of_digitValue {base value : ℕ} {c d : Char} (h : digitValue base c = some value)
    (hd : digitValue base d = none) : c ≠ d := by
  rintro rfl
  rw [h] at hd
  exact absurd hd (Option.some_ne_none value)

theorem digitValue_underscore (base : ℕ) : digitValue base '_' = none := by
  simp [digitValue]

theorem readDigits_cons {base : ℕ} {c : Char} (hc : c ≠ '_') (acc : ℕ) (cs : List Char) :
    readDigits base acc (c :: cs) =
      (digitValue base c).bind fun value => readDigits base (acc * base + value) cs := by
  rw [readDigits]
  intro c' cs' hc' _
  exact hc hc'

/-- Digits are accumulated from the left. -/
theorem readDigits_eq {base : ℕ} {cs : List Char} {values : List ℕ}
    (h : cs.map (digitValue base) = values.map some) (acc : ℕ) :
    readDigits base acc cs =
      some (values.foldl (fun acc value => acc * base + value) acc) := by
  induction cs generalizing values acc with
  | nil =>
    cases values with
    | nil => rfl
    | cons _ _ => simp at h
  | cons c cs ih =>
    cases values with
    | nil => simp at h
    | cons value values =>
      rw [List.map_cons, List.map_cons, List.cons.injEq] at h
      rw [readDigits_cons (ne_of_digitValue h.1 (digitValue_underscore base)), h.1,
        Option.bind_some, ih h.2, List.foldl_cons]

theorem readNumeral_eq {base : ℕ} {cs : List Char} {values : List ℕ} (hne : cs ≠ [])
    (h : cs.map (digitValue base) = values.map some) :
    readNumeral base cs = some (accumulate base values) := by
  obtain ⟨c, cs, rfl⟩ := List.exists_cons_of_ne_nil hne
  have hread := readDigits_eq h 0
  cases values with
  | nil => simp at h
  | cons value values =>
    rw [List.map_cons, List.map_cons, List.cons.injEq] at h
    rw [readDigits_cons (ne_of_digitValue h.1 (digitValue_underscore base)), h.1,
      Option.bind_some, Nat.zero_mul, Nat.zero_add] at hread
    rw [readNumeral, h.1, Option.bind_some, hread, accumulate]

/-! ### Surroundings -/

theorem dropPrefix_eq {lower upper : Char} {cs : List Char}
    (h : ∀ c ∈ cs, c ≠ lower ∧ c ≠ upper) : dropPrefix lower upper cs = cs := by
  unfold dropPrefix
  split
  · next c cs =>
    have hc := h c (List.mem_cons_of_mem _ List.mem_cons_self)
    rw [if_neg (by simp [hc])]
  · rfl

/-- The letter of a prefix is no digit of its base. -/
theorem dropBasePrefix_eq {base : ℕ} {cs : List Char}
    (h : ∀ c ∈ cs, ∃ value, digitValue base c = some value) : dropBasePrefix base cs = cs := by
  have hne : ∀ {d : Char}, digitValue base d = none → ∀ c ∈ cs, c ≠ d := by
    intro d hd c hc
    obtain ⟨value, hvalue⟩ := h c hc
    exact ne_of_digitValue hvalue hd
  unfold dropBasePrefix
  split_ifs with hhex hbin
  · subst hhex
    exact dropPrefix_eq fun c hc => ⟨hne (by decide) c hc, hne (by decide) c hc⟩
  · subst hbin
    exact dropPrefix_eq fun c hc => ⟨hne (by decide) c hc, hne (by decide) c hc⟩
  · rfl

theorem strip_eq {cs : List Char} (h : ∀ c ∈ cs, c ≠ ' ') : strip cs = cs := by
  have hfront : cs.dropWhile (· == ' ') = cs := by
    rw [List.dropWhile_eq_self_iff]
    intro hlen
    simpa using h _ (List.getElem_mem hlen)
  rw [strip, hfront, List.rdropWhile_eq_self_iff]
  intro hne
  simpa using h _ (List.getLast_mem hne)

section

variable [Unicode] [LawfulUnicode]

theorem isIntSpace_graphic (c : Char) (hlo : 32 < c.toNat) (hhi : c.toNat < 127) :
    isIntSpace c = false := by
  rw [isIntSpace, LawfulUnicode.isSpace_graphic c hlo hhi, Bool.false_and]

section

variable {isSpace : Char → Bool}
  (hgraphic : ∀ c : Char, 32 < c.toNat → c.toNat < 127 → isSpace c = false)

include hgraphic

theorem asciiOf_eq {c : Char} (hlo : 32 < c.toNat) (hhi : c.toNat < 127) :
    asciiOf isSpace c = c := by
  rw [asciiOf, hgraphic c hlo hhi, LawfulUnicode.decimal_ascii c (hhi.trans (by decide))]
  by_cases hdigit : c.isDigit = true
  · have hrange := (isDigit_iff c).mp hdigit
    have hlt : c.toNat - 48 < 10 := by omega
    have hval : (Fin.ofNat 10 (c.toNat - 48) : ℕ) = c.toNat - 48 := Nat.mod_eq_of_lt hlt
    simp only [hdigit, if_true, Bool.false_eq_true, if_false, hval]
    apply Char.toNat_inj.mp
    rw [Nat.toNat_digitChar_of_lt_ten hlt]
    omega
  · simp [hdigit]

theorem asciiOf_of_digitValue {base value : ℕ} {c : Char} (h : digitValue base c = some value) :
    asciiOf isSpace c = c := by
  have hrange := digitValue_range h
  exact asciiOf_eq hgraphic (by omega) (by omega)

/-- Digits, after a minus sign or not, have nothing around them to be taken off but the
sign. -/
theorem readSign_strip {base : ℕ} {cs : List Char} (negative : Bool) (hne : cs ≠ [])
    (hdigit : ∀ c ∈ cs, ∃ value, digitValue base c = some value) :
    readSign (strip (((if negative then ['-'] else []) ++ cs).map (asciiOf isSpace))) =
      (negative, cs) := by
  -- the text is ASCII without blanks
  have hascii : ((if negative then ['-'] else []) ++ cs).map (asciiOf isSpace) =
      (if negative then ['-'] else []) ++ cs := by
    have hsign : asciiOf isSpace '-' = '-' := asciiOf_eq hgraphic (by decide) (by decide)
    have hrest : cs.map (asciiOf isSpace) = cs := by
      refine (List.map_congr_left fun c hc => ?_).trans (List.map_id cs)
      obtain ⟨value, hvalue⟩ := hdigit c hc
      exact asciiOf_of_digitValue hgraphic hvalue
    cases negative <;> simp [hsign, hrest]
  have hstrip : strip ((if negative then ['-'] else []) ++ cs) =
      (if negative then ['-'] else []) ++ cs := by
    apply strip_eq
    intro c hc
    rcases List.mem_append.mp hc with hc | hc
    · cases negative with
      | false => simp at hc
      | true => simp_all
    · obtain ⟨value, hvalue⟩ := hdigit c hc
      exact ne_of_digitValue hvalue (by simp [digitValue])
  rw [hascii, hstrip]
  -- without a minus sign the text starts with a digit, which is no sign
  cases negative with
  | true => rfl
  | false =>
    obtain ⟨c, cs, rfl⟩ := List.exists_cons_of_ne_nil hne
    obtain ⟨value, hvalue⟩ := hdigit c List.mem_cons_self
    have hminus := ne_of_digitValue (d := '-') hvalue (by simp [digitValue])
    have hplus := ne_of_digitValue (d := '+') hvalue (by simp [digitValue])
    unfold readSign
    split
    · next heq => exact absurd (List.cons.inj heq).1 hminus
    · next heq => exact absurd (List.cons.inj heq).1 hplus
    · rfl

end

/-- A text of digits, after a minus sign or not, is read as the number that the digits
denote. -/
theorem int_digits {base : ℕ} {cs : List Char} {values : List ℕ} (negative : Bool) (hne : cs ≠ [])
    (hlen : base = 10 → cs.length ≤ maxStrDigits) (h : cs.map (digitValue base) = values.map some) :
    int base ((if negative then ['-'] else []) ++ cs) =
      some (if negative then -(accumulate base values : ℤ) else accumulate base values) := by
  have hdigit : ∀ c ∈ cs, ∃ value, digitValue base c = some value := by
    intro c hc
    have hmem : digitValue base c ∈ values.map some := h ▸ List.mem_map_of_mem hc
    obtain ⟨value, -, hvalue⟩ := List.mem_map.mp hmem
    exact ⟨value, hvalue.symm⟩
  -- underscores do not count towards the limit, but there are none
  have hlimit : ¬ (base = 10 ∧ maxStrDigits < (cs.filter (· != '_')).length) := by
    intro hover
    obtain ⟨hbase, hlt⟩ := hover
    have hle := (List.length_filter_le (· != '_') cs).trans (hlen hbase)
    omega
  simp only [int, toAscii, readSign_strip isIntSpace_graphic negative hne hdigit,
    dropBasePrefix_eq hdigit, if_neg hlimit, readNumeral_eq hne h, Option.map_some]

/-! ### Spellings of integers and of words -/

omit [Unicode] [LawfulUnicode] in
theorem toList_toString (n : ℤ) :
    (toString n).toList = (if n < 0 then ['-'] else []) ++ Nat.toDigits 10 n.natAbs := by
  rw [Int.toString_eq_repr, Int.repr_eq_if]
  by_cases h : 0 ≤ n
  · have habs : n.toNat = n.natAbs := by omega
    rw [if_pos h, if_neg (not_lt.mpr h), Nat.toList_repr, habs, List.nil_append]
  · have habs : (-n).toNat = n.natAbs := by omega
    rw [if_neg h, if_pos (not_le.mp h), String.toList_append, Nat.toList_repr, habs]
    rfl

omit [Unicode] [LawfulUnicode] in
theorem digitValue_ten {c : Char} (h : c.isDigit = true) :
    digitValue 10 c = some (c.toNat - 48) := by
  have hrange := (isDigit_iff c).mp h
  simp only [digitValue, h, if_true]
  rw [if_pos (by omega)]

/-- The values of the digits of a number. -/
def decimalDigits (n : ℕ) : List ℕ := (Nat.toDigits 10 n).map fun c => c.toNat - 48

omit [Unicode] [LawfulUnicode] in
theorem map_digitValue_toDigits (n : ℕ) :
    (Nat.toDigits 10 n).map (digitValue 10) = (decimalDigits n).map some := by
  rw [decimalDigits, List.map_map]
  refine List.map_congr_left fun c hc => digitValue_ten ?_
  exact Nat.isDigit_of_mem_toDigits (by decide) le_rfl hc

omit [Unicode] [LawfulUnicode] in
theorem accumulate_decimalDigits (n : ℕ) : accumulate 10 (decimalDigits n) = n := by
  -- the standard library accumulates with the factor on the left
  have hstep : (fun acc c => acc * 10 + (c.toNat - 48)) =
      fun (acc : ℕ) (c : Char) => 10 * acc + (c.toNat - '0'.toNat) := by
    funext acc c
    rw [Nat.mul_comm]
    rfl
  rw [accumulate, decimalDigits, List.foldl_map, hstep, ← Nat.ofDigitChars_eq_foldl]
  exact Nat.ofDigitChars_ten_toDigits

/-- The decimal spelling of an integer is read as that integer. -/
theorem int_toString {n : ℤ} (hlen : (Nat.toDigits 10 n.natAbs).length ≤ maxStrDigits) :
    int 10 (toString n).toList = some n := by
  have hint := int_digits (decide (n < 0)) Nat.toDigits_ne_nil (fun _ => hlen)
    (map_digitValue_toDigits n.natAbs)
  rw [accumulate_decimalDigits] at hint
  rw [toList_toString]
  simp only [decide_eq_true_eq] at hint
  rw [hint]
  by_cases h : n < 0
  · have habs : -(n.natAbs : ℤ) = n := by omega
    rw [if_pos h, habs]
  · have habs : (n.natAbs : ℤ) = n := by omega
    rw [if_neg h, habs]

/-- A text of digits is read as the word it spells; only decimal numerals are limited in
length. -/
theorem int_word {base : ℕ} {α : Type} [Math.Positional.Digit base α] {cs : List Char}
    {ds : List α} (hbase : base ≠ 10) (hne : cs ≠ [])
    (h : cs.map (digitValue base) = ds.map fun d => some (Math.Positional.Digit.toNat d)) :
    int base cs = some (Math.Positional.value ds : ℤ) := by
  have hdigits : cs.map (digitValue base) =
      (ds.map Math.Positional.Digit.toNat).map some := by
    rw [h, List.map_map]
    rfl
  have hint := int_digits false hne (fun h => absurd h hbase) hdigits
  have hvalue : accumulate base (ds.map Math.Positional.Digit.toNat) =
      Math.Positional.value ds := (Math.Positional.value_eq_foldl ds).symm
  rw [hvalue] at hint
  exact hint

end

/-! ### Character classes of ASCII text -/

namespace Ascii

scoped instance unicode : Unicode where
  isSpace c := c = ' ' || (9 ≤ c.toNat && c.toNat ≤ 13) || (28 ≤ c.toNat && c.toNat ≤ 31)
  decimal c := if c.isDigit then some (Fin.ofNat 10 (c.toNat - 48)) else none

scoped instance lawfulUnicode : LawfulUnicode where
  isSpace_graphic c hlo _ := by
    have hblank : c ≠ ' ' := by
      rintro rfl
      exact absurd hlo (by decide)
    have htab : ¬ c.toNat ≤ 13 := by omega
    have hseparator : ¬ c.toNat ≤ 31 := by omega
    simp [Unicode.isSpace, hblank, htab, hseparator]
  isSpace_blank := rfl
  decimal_ascii _ _ := rfl

end Ascii

end Python
