import EverPlayground.Math.Positional
import EverPlayground.Python.Literal

/-!
# Printed integers

Python prints an integer in hexadecimal digits with zeros up to a width, and reads a decimal
numeral up to a number of digits. What is printed can be read, and what has been read can be
printed.

## Main definitions

* `hexText` — the format `0<width>x`

## Main results

* `int_hexText` — what is printed is read as the integer
* `hexText_eq_word` — an integer with room in the width is printed in that many digits
* `int_toString_of_int` — so is the decimal form of an integer that has been read
-/

set_option autoImplicit false

namespace Python

/-- `format(n, "0<width>x")`; a minus sign counts towards the width. -/
def hexText (width : ℕ) (n : ℤ) : List Char :=
  let sign := if n < 0 then ['-'] else []
  let digits := Nat.toDigits 16 n.natAbs
  sign ++ (List.replicate (width - (sign.length + digits.length)) '0' ++ digits)

/-! ### Accumulating -/

theorem accumulate_append (base : ℕ) (u v : List ℕ) :
    accumulate base (u ++ v) = v.foldl (fun acc value => acc * base + value) (accumulate base u) :=
  List.foldl_append

theorem accumulate_replicate_zero (base n : ℕ) : accumulate base (List.replicate n 0) = 0 := by
  induction n with
  | zero => rfl
  | succ n ih =>
    rw [List.replicate_succ', accumulate_append, ih]
    exact Nat.zero_mul base

theorem accumulate_lt {base : ℕ} {values : List ℕ} (h : ∀ value ∈ values, value < base) :
    accumulate base values < base ^ values.length := by
  induction values using List.reverseRecOn with
  | nil => exact Nat.one_pos
  | append_singleton values value ih =>
    have hvalue := h value (List.mem_append_right _ (List.mem_singleton_self value))
    have hvalues := ih fun v hv => h v (List.mem_append_left _ hv)
    rw [accumulate_append, List.length_append, List.length_singleton, pow_succ]
    calc accumulate base values * base + value
        < (accumulate base values + 1) * base := by
          rw [Nat.add_mul, Nat.one_mul]
          exact Nat.add_lt_add_left hvalue _
      _ ≤ base ^ values.length * base := Nat.mul_le_mul_right base hvalues

/-! ### Hexadecimal digits -/

theorem digitValue_digitChar {k : ℕ} (h : k < 16) : digitValue 16 k.digitChar = some k := by
  interval_cases k <;> rfl

theorem exists_hexDigits (n : ℕ) :
    ∃ values, (Nat.toDigits 16 n).map (digitValue 16) = values.map some ∧
      accumulate 16 values = n := by
  induction n using Nat.strong_induction_on with
  | h n ih =>
    rw [Nat.toDigits_eq_if (by decide)]
    split_ifs with hn
    · exact ⟨[n], by rw [List.map_singleton, digitValue_digitChar hn]; rfl, Nat.zero_add n⟩
    · obtain ⟨values, hmap, hvalue⟩ := ih (n / 16) (by omega)
      have hdigit := digitValue_digitChar (Nat.mod_lt n (show 0 < 16 by decide))
      refine ⟨values ++ [n % 16], ?_, ?_⟩
      · rw [List.map_append, List.map_append, hmap, List.map_singleton, hdigit]
        rfl
      · rw [accumulate_append, hvalue, List.foldl_cons, List.foldl_nil]
        omega

/-- Besides its sign the text has digits only, and zeros in front of them do not count. -/
theorem hexText_eq (width : ℕ) (n : ℤ) :
    ∃ cs values, hexText width n = (if decide (n < 0) then ['-'] else []) ++ cs ∧ cs ≠ [] ∧
      cs.map (digitValue 16) = values.map some ∧ accumulate 16 values = n.natAbs := by
  obtain ⟨values, hmap, hvalue⟩ := exists_hexDigits n.natAbs
  have hzero : digitValue 16 '0' = some 0 := rfl
  simp only [hexText, decide_eq_true_eq]
  generalize width - _ = k
  refine ⟨_, List.replicate k 0 ++ values, rfl, ?_, ?_, ?_⟩
  · exact List.append_ne_nil_of_right_ne_nil _ Nat.toDigits_ne_nil
  · rw [List.map_append, List.map_append, hmap, List.map_replicate, List.map_replicate, hzero]
  · rw [accumulate_append, accumulate_replicate_zero]
    exact hvalue

theorem mem_hexText {width : ℕ} {n : ℤ} {c : Char} (h : c ∈ hexText width n) :
    c = '-' ∨ ∃ value, digitValue 16 c = some value := by
  obtain ⟨cs, values, htext, -, hmap, -⟩ := hexText_eq width n
  rw [htext] at h
  rcases List.mem_append.mp h with h | h
  · split_ifs at h
    · exact Or.inl (List.mem_singleton.mp h)
    · exact absurd h List.not_mem_nil
  · have hmem : digitValue 16 c ∈ values.map some := hmap ▸ List.mem_map_of_mem h
    obtain ⟨value, -, hvalue⟩ := List.mem_map.mp hmem
    exact Or.inr ⟨value, hvalue.symm⟩

open Math.Positional in
theorem hexText_eq_word {width n : ℕ} (h : n < 16 ^ (width + 1)) :
    hexText (width + 1) n =
      (word (width + 1) n : List (Fin 16)).map fun d : Fin 16 => Nat.digitChar d := by
  have htext : hexText (width + 1) n =
      List.replicate (width + 1 - (Nat.toDigits 16 n).length) '0' ++ Nat.toDigits 16 n := by
    have hneg : ¬ (n : ℤ) < 0 := by omega
    simp only [hexText, if_neg hneg, Int.natAbs_natCast, List.nil_append, List.length_nil,
      Nat.zero_add]
  rw [htext]
  clear htext
  induction width generalizing n with
  | zero =>
    have hn : n < 16 := h
    rw [Nat.toDigits_of_lt_base hn]
    interval_cases n <;> rfl
  | succ width ih =>
    -- the last digit is the rest modulo the base
    have hlast : ∀ m : ℕ, Nat.digitChar (Digit.ofNat m : Fin 16) = Nat.digitChar (m % 16) :=
      fun m => rfl
    rw [word_succ, List.map_append, List.map_singleton, hlast, Nat.toDigits_eq_if (by decide)]
    split_ifs with hn
    · have hzero : n / 16 = 0 := Nat.div_eq_of_lt hn
      rw [← ih (by omega : n / 16 < 16 ^ (width + 1)), hzero, Nat.mod_eq_of_lt hn]
      exact congrArg (· ++ [n.digitChar]) List.replicate_succ'
    · rw [← ih (by rw [pow_succ] at h; omega), List.length_append, List.length_singleton,
        Nat.add_sub_add_right, List.append_assoc]

/-! ### Decimal numerals -/

theorem MoreDigits.length_eq {base : ℕ} {cs : List Char} {values : List ℕ}
    (h : MoreDigits base cs values) :
    (cs.filter (· != '_')).length = values.length ∧ ∀ value ∈ values, value < base := by
  induction h with
  | nil => exact ⟨rfl, nofun⟩
  | digit hvalue _ ih =>
    have hne := ne_of_digitValue hvalue (digitValue_underscore base)
    simpa [hne, digitValue_lt hvalue] using ih
  | underscore hvalue _ ih =>
    have hne := ne_of_digitValue hvalue (digitValue_underscore base)
    simpa [hne, digitValue_lt hvalue] using ih

/-- A numeral is less than the power of the base with as many digits. -/
theorem readNumeral_lt {base m : ℕ} {cs : List Char} (h : readNumeral base cs = some m) :
    m < base ^ (cs.filter (· != '_')).length := by
  obtain ⟨values, hnumeral, rfl⟩ := readNumeral_eq_some_iff.mp h
  obtain ⟨hvalue, hdigits⟩ := hnumeral
  obtain ⟨hlength, hlt⟩ := (MoreDigits.digit hvalue hdigits).length_eq
  rw [hlength]
  exact accumulate_lt hlt

section

variable [Unicode] [LawfulUnicode]

theorem int_hexText (width : ℕ) (n : ℤ) : int 16 (hexText width n) = some n := by
  obtain ⟨cs, values, htext, hne, hmap, hvalue⟩ := hexText_eq width n
  have hbase : (16 : ℕ) = 10 → cs.length ≤ maxStrDigits := fun h => absurd h (by decide)
  rw [htext, int_digits _ hne hbase hmap, hvalue]
  by_cases hneg : n < 0
  · rw [if_pos (decide_eq_true hneg)]
    exact congrArg some (by omega)
  · rw [if_neg (by simpa using hneg)]
    exact congrArg some (by omega)

omit [LawfulUnicode] in
/-- Behind the sign and the prefix there is a numeral, within the limit. -/
theorem exists_numeral_of_int {base : ℕ} {text : List Char} {n : ℤ} (h : int base text = some n) :
    ∃ cs, readNumeral base cs = some n.natAbs ∧
      ¬ (base = 10 ∧ maxStrDigits < (cs.filter (· != '_')).length) := by
  unfold int at h
  generalize readSign (strip (text.map toAscii)) = r at h
  obtain ⟨negative, cs⟩ := r
  by_cases hlimit : base = 10 ∧ maxStrDigits < ((dropBasePrefix base cs).filter (· != '_')).length
  · simp only [if_pos hlimit] at h
    cases h
  · simp only [if_neg hlimit] at h
    obtain ⟨m, hread, hn⟩ := Option.map_eq_some_iff.mp h
    have habs : n.natAbs = m := by
      rw [← hn]
      cases negative <;> simp
    exact ⟨_, habs ▸ hread, hlimit⟩

/-- An integer that has been read has no more digits than can be read. -/
theorem int_toString_of_int {text : List Char} {n : ℤ} (h : int 10 text = some n) :
    int 10 (toString n).toList = some n := by
  obtain ⟨cs, hread, hlimit⟩ := exists_numeral_of_int h
  have hle : (cs.filter (· != '_')).length ≤ maxStrDigits :=
    not_lt.mp fun hlt => hlimit ⟨rfl, hlt⟩
  apply int_toString
  rw [Nat.length_toDigits_le_iff (by decide) (by decide)]
  exact (readNumeral_lt hread).trans_le (Nat.pow_le_pow_right (by decide) hle)

end

end Python
