import Mathlib.Data.Rat.Floor
import EverPlayground.Python.Int

/-!
# Python rationals from text

`Fraction(text)` matches the text against one pattern: a sign, a numerator, and then
either a denominator behind a slash or a fractional part and an exponent. The groups of
the match are converted by `int`, so the limit on the length of a numeral applies to
each of them on its own. `int(fraction)` drops the fractional part.

The pattern is that of Python 3.12, which allows whitespace around the slash and
underscores between digits.

## Main definitions

* `Groups`, `matchRational` — the groups of the pattern, where the text matches it
* `fraction` — the rational a text denotes
* `truncate` — `int` of a rational

## Main results

* `truncate_eq_floor`, `truncate_eq_ceil` — which way a rational is rounded
* `truncate_lt_iff` — dropping the fractional part does not cross a positive integer
* `fraction_toString` — the decimal spelling of an integer denotes that integer
-/

set_option autoImplicit false

namespace Python

/-- What `Fraction(text)` raises. -/
inductive FractionError where
  | valueError
  | zeroDivisionError

/-- The groups of a match; an absent group is empty. -/
structure Groups where
  negative : Bool
  num : List Char
  denom : List Char
  decimal : List Char
  exp : List Char

/-- One or more digits, with single underscores between them. -/
def isNumeral (cs : List Char) : Bool := (readNumeral 10 cs).isSome

/-- The longest front that a numeral can be, and what follows it. -/
def spanNumeral (cs : List Char) : List Char × List Char :=
  cs.span fun c => c.isDigit || c == '_'

/-- The fractional part and the exponent after a numerator. -/
def matchDecimal (negative : Bool) (num cs : List Char) : Option Groups :=
  let (decimal, cs) :=
    match cs with
    | '.' :: cs => spanNumeral cs
    | cs => ([], cs)
  -- a numerator may be missing before a fractional part
  if (decimal == [] && num == []) || (decimal != [] && !isNumeral decimal) then none
  else match cs with
    | [] => some { negative, num, denom := [], decimal, exp := [] }
    | c :: exp =>
      if (c == 'E' || c == 'e') && isNumeral (readSign exp).2 then
        some { negative, num, denom := [], decimal, exp }
      else none

section

variable [Unicode]

def matchRational (text : List Char) : Option Groups :=
  let (negative, cs) := readSign (strip (text.map (asciiOf Unicode.isSpace)))
  let (num, cs) := spanNumeral cs
  if num != [] && !isNumeral num then none
  else match cs.dropWhile (· == ' ') with
    | '/' :: cs =>
      let denom := cs.dropWhile (· == ' ')
      if num != [] && isNumeral denom then
        some { negative, num, denom, decimal := [], exp := [] }
      else none
    | _ => matchDecimal negative num cs

/-- `int(group)` for a group that may be empty. -/
def groupInt (group : List Char) : Except FractionError ℤ :=
  if group = [] then .ok 0
  else match int 10 group with
    | some n => .ok n
    | none => .error .valueError

/-- The rational that the groups denote. -/
def Groups.value (m : Groups) : Except FractionError ℚ := do
  let numerator ← groupInt m.num
  let magnitude : ℚ ←
    if m.denom ≠ [] then do
      let denominator ← groupInt m.denom
      if denominator = 0 then .error .zeroDivisionError
      else .ok (numerator / denominator)
    else do
      let decimal ← groupInt m.decimal
      let exp ← groupInt m.exp
      -- every digit of the fractional part scales the numerator by ten
      let scale := 10 ^ (m.decimal.filter (· != '_')).length
      .ok ((numerator * scale + decimal) / scale * (10 : ℚ) ^ exp)
  .ok (if m.negative then -magnitude else magnitude)

/-- `Fraction(text)`. -/
def fraction (text : List Char) : Except FractionError ℚ :=
  match matchRational text with
  | none => .error .valueError
  | some m => m.value

end

/-- `int(q)`: towards zero. -/
def truncate (q : ℚ) : ℤ := q.num.tdiv q.den

theorem truncate_intCast (n : ℤ) : truncate n = n := Int.tdiv_one n

theorem truncate_eq_floor {q : ℚ} (hq : 0 ≤ q) : truncate q = ⌊q⌋ := by
  rw [truncate, Int.tdiv_eq_ediv_of_nonneg (Rat.num_nonneg.mpr hq), Rat.floor_def']

/-- A rational that is not positive is rounded up. -/
theorem truncate_eq_ceil {q : ℚ} (hq : q ≤ 0) : truncate q = ⌈q⌉ := by
  have hneg : truncate (-q) = -truncate q := by
    rw [truncate, truncate, Rat.num_neg_eq_neg_num, Rat.den_neg_eq_den, Int.neg_tdiv]
  have hfloor := truncate_eq_floor (neg_nonneg.mpr hq)
  rw [hneg, Int.floor_neg] at hfloor
  exact neg_injective hfloor

/-- Dropping the fractional part does not cross a positive integer. -/
theorem truncate_lt_iff (q : ℚ) {n : ℤ} (hn : 0 < n) : truncate q < n ↔ q < n := by
  rcases le_or_gt 0 q with hq | hq
  · rw [truncate_eq_floor hq, Int.floor_lt]
  · have hnonpos : truncate q ≤ 0 := by
      rw [truncate_eq_ceil hq.le]
      exact Int.ceil_le.mpr (by exact_mod_cast hq.le)
    exact iff_of_true (hnonpos.trans_lt hn) (hq.trans (Int.cast_pos.mpr hn))

/-! ### Decimal spellings -/

theorem spanNumeral_eq {cs : List Char} (h : ∀ c ∈ cs, c.isDigit = true) :
    spanNumeral cs = (cs, []) := by
  have hall : ∀ c ∈ cs, (c.isDigit || c == '_') = true := fun c hc => by rw [h c hc]; rfl
  rw [spanNumeral, List.span_eq_takeWhile_dropWhile, List.takeWhile_eq_self_iff.mpr hall,
    List.dropWhile_eq_nil_iff.mpr hall]

variable [Unicode] [LawfulUnicode]

omit [LawfulUnicode] in
/-- Without a denominator, a fractional part and an exponent the magnitude is the
numerator. -/
theorem value_num (negative : Bool) {num : List Char} {numerator : ℤ}
    (h : groupInt num = .ok numerator) :
    Groups.value { negative, num, denom := [], decimal := [], exp := [] } =
      .ok (if negative then -(numerator : ℚ) else numerator) := by
  have hempty : groupInt [] = .ok 0 := rfl
  rw [Groups.value]
  change (do
    let numerator ← groupInt num
    let decimal ← groupInt []
    let exp ← groupInt []
    let magnitude : ℚ := (numerator * 10 ^ 0 + decimal) / 10 ^ 0 * (10 : ℚ) ^ exp
    Except.ok (if negative then -magnitude else magnitude)) = _
  rw [h, hempty]
  change Except.ok _ = _
  simp

omit [LawfulUnicode] in
/-- A numerator over a denominator. -/
theorem value_ratio (negative : Bool) {num denom : List Char} {numerator denominator : ℤ}
    (hne : denom ≠ []) (hnum : groupInt num = .ok numerator)
    (hdenom : groupInt denom = .ok denominator) (hzero : denominator ≠ 0) :
    Groups.value { negative, num, denom, decimal := [], exp := [] } =
      .ok (if negative then -((numerator : ℚ) / denominator) else numerator / denominator) := by
  simp only [Groups.value, hnum, hdenom, bind, Except.bind, if_pos hne, if_neg hzero]

/-- The decimal spelling of an integer denotes that integer. -/
theorem fraction_toString {n : ℤ} (hlen : (Nat.toDigits 10 n.natAbs).length ≤ maxStrDigits) :
    fraction (toString n).toList = .ok (n : ℚ) := by
  have hvalues := map_digitValue_toDigits n.natAbs
  have hdigit : ∀ c ∈ Nat.toDigits 10 n.natAbs, c.isDigit = true := fun c hc =>
    Nat.isDigit_of_mem_toDigits (by decide) le_rfl hc
  have hdigitValue : ∀ c ∈ Nat.toDigits 10 n.natAbs, ∃ value, digitValue 10 c = some value :=
    fun c hc => ⟨_, digitValue_ten (hdigit c hc)⟩
  have hsign := readSign_strip LawfulUnicode.isSpace_graphic (decide (n < 0))
    Nat.toDigits_ne_nil hdigitValue
  have hnumeral : isNumeral (Nat.toDigits 10 n.natAbs) = true := by
    rw [isNumeral, readNumeral_eq Nat.toDigits_ne_nil hvalues]
    rfl
  -- the numerator is the whole text
  have hmatch : matchRational (toString n).toList =
      some ⟨decide (n < 0), Nat.toDigits 10 n.natAbs, [], [], []⟩ := by
    simp only [decide_eq_true_eq] at hsign
    rw [toList_toString, matchRational, hsign]
    simp [spanNumeral_eq hdigit, hnumeral, matchDecimal]
  have hnum : groupInt (Nat.toDigits 10 n.natAbs) = .ok (n.natAbs : ℤ) := by
    have hint := int_digits false Nat.toDigits_ne_nil (fun _ => hlen) hvalues
    rw [accumulate_decimalDigits] at hint
    rw [groupInt, if_neg Nat.toDigits_ne_nil]
    simp only [Bool.false_eq_true, if_false, List.nil_append] at hint
    rw [hint]
  have hsigned : (if decide (n < 0) then -((n.natAbs : ℤ) : ℚ) else (n.natAbs : ℤ)) = (n : ℚ) := by
    by_cases h : n < 0
    · have habs : -(n.natAbs : ℤ) = n := by omega
      rw [if_pos (decide_eq_true h), ← Int.cast_neg, habs]
    · have habs : (n.natAbs : ℤ) = n := by omega
      rw [if_neg (by simpa using h), habs]
  rw [fraction, hmatch]
  change Groups.value _ = _
  rw [value_num _ hnum, hsigned]

end Python
