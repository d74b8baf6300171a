import EverPlayground.Math.Positional
import Mathlib.Tactic.Linarith

/-!
# Two's complement on bit words

A word of `w` bits denotes a residue modulo `2 ^ w`. Read as *unsigned* it is the
residue in `[0, 2 ^ w)`, which is `Positional.value`; read as *signed* it is the
residue in `[-2 ^ (w - 1), 2 ^ (w - 1))`. One word per width and integer,
`twos`, therefore serves both readings.

The range of a signed reading is stated doubled, `-2 ^ w ≤ 2 * n < 2 ^ w`, so that
the empty word is no exception.

## Main results

* `signed_unique` — the signed reading is the only residue in the signed range
* `signed_twos`, `value_twos` — `twos` is undone by the reading whose range holds `n`
* `twos_value`, `twos_signed` — every word is the `twos` of either of its readings
* `value_append_shiftRight`, `signed_append_shiftRight` — dropping low bits is a
  right shift of the reading, rounding down
-/

set_option autoImplicit false

namespace Math
namespace TwosComplement

open Positional

/-- The integer a bit word denotes in two's complement. -/
def signed (w : List Bool) : ℤ :=
  if 2 * value w < 2 ^ w.length then value w else value w - 2 ^ w.length

/-- The `w`-bit word of the residue of `n` modulo `2 ^ w`. -/
def twos (w : ℕ) (n : ℤ) : List Bool := word w (n % 2 ^ w).toNat

@[simp] theorem length_twos (w : ℕ) (n : ℤ) : (twos w n).length = w := length_word _ _

theorem value_lt_int (w : List Bool) : (value w : ℤ) < 2 ^ w.length := by
  exact_mod_cast value_lt w

theorem signed_range (w : List Bool) :
    -(2 ^ w.length) ≤ 2 * signed w ∧ 2 * signed w < 2 ^ w.length := by
  have hlt := value_lt_int w
  unfold signed
  split_ifs with h
  · have h' : 2 * (value w : ℤ) < 2 ^ w.length := by exact_mod_cast h
    constructor <;> linarith [Int.natCast_nonneg (value w)]
  · have h' : (2 : ℤ) ^ w.length ≤ 2 * (value w : ℤ) := by exact_mod_cast not_lt.mp h
    constructor <;> linarith

theorem signed_emod (w : List Bool) : signed w % 2 ^ w.length = value w := by
  have hval : (value w : ℤ) % 2 ^ w.length = value w :=
    Int.emod_eq_of_lt (Int.natCast_nonneg _) (value_lt_int w)
  unfold signed
  split_ifs
  · exact hval
  · rw [Int.sub_emod_right, hval]

/-- Two integers of the signed range that agree modulo `2 ^ k` are equal. -/
theorem eq_of_emod_eq {k : ℕ} {m n : ℤ} (hm : -(2 ^ k) ≤ 2 * m ∧ 2 * m < 2 ^ k)
    (hn : -(2 ^ k) ≤ 2 * n ∧ 2 * n < 2 ^ k) (h : m % 2 ^ k = n % 2 ^ k) : m = n := by
  have hdvd : (2 : ℤ) ^ k ∣ m - n :=
    Int.dvd_of_emod_eq_zero (Int.emod_eq_emod_iff_emod_sub_eq_zero.mp h)
  have habs : |m - n| < 2 ^ k := by
    rw [abs_lt]
    constructor <;> linarith [hm.1, hm.2, hn.1, hn.2]
  exact sub_eq_zero.mp (Int.eq_zero_of_abs_lt_dvd hdvd habs)

theorem signed_unique {w : List Bool} {n : ℤ}
    (hn : -(2 ^ w.length) ≤ 2 * n ∧ 2 * n < 2 ^ w.length)
    (h : n % 2 ^ w.length = value w) : signed w = n :=
  eq_of_emod_eq (signed_range w) hn ((signed_emod w).trans h.symm)

theorem value_twos (w : ℕ) (n : ℤ) : (value (twos w n) : ℤ) = n % 2 ^ w := by
  have hpos : (0 : ℤ) < 2 ^ w := by positivity
  have hnonneg : 0 ≤ n % 2 ^ w := Int.emod_nonneg _ hpos.ne'
  have hlt : (n % 2 ^ w).toNat < 2 ^ w := by
    zify
    rw [Int.toNat_of_nonneg hnonneg]
    exact Int.emod_lt_of_pos _ hpos
  rw [twos, value_word_of_lt hlt, Int.toNat_of_nonneg hnonneg]

theorem value_twos_of_nonneg {w : ℕ} {n : ℤ} (h₀ : 0 ≤ n) (h : n < 2 ^ w) :
    (value (twos w n) : ℤ) = n := by
  rw [value_twos, Int.emod_eq_of_lt h₀ h]

theorem signed_twos {w : ℕ} {n : ℤ} (h : -(2 ^ w) ≤ 2 * n ∧ 2 * n < 2 ^ w) :
    signed (twos w n) = n :=
  signed_unique (by rwa [length_twos]) (by rw [length_twos, value_twos])

/-- `twos` depends on the residue only. -/
theorem twos_congr {w : ℕ} {m n : ℤ} (h : m % 2 ^ w = n % 2 ^ w) : twos w m = twos w n := by
  rw [twos, twos, h]

theorem twos_eq_iff {w : ℕ} {m n : ℤ} : twos w m = twos w n ↔ m % 2 ^ w = n % 2 ^ w := by
  refine ⟨fun h => ?_, twos_congr⟩
  rw [← value_twos, ← value_twos, h]

theorem twos_value (w : List Bool) : twos w.length (value w) = w := by
  apply value_inj (length_twos _ _)
  zify
  exact value_twos_of_nonneg (Int.natCast_nonneg _) (value_lt_int w)

theorem twos_signed (w : List Bool) : twos w.length (signed w) = w := by
  conv_rhs => rw [← twos_value w]
  apply twos_congr
  rw [← signed_emod, Int.emod_emod]

/-! ### Concatenation and shifts -/

/-- Leading zeros widen a word that denotes a non-negative number. -/
theorem replicate_false_append (j : ℕ) {w : List Bool} {n : ℤ} (h : (value w : ℤ) = n) :
    List.replicate j false ++ w = twos (j + w.length) n := by
  have hval : value (List.replicate j false ++ w) = value w := by
    rw [value_append, value_replicate_zero rfl, Nat.zero_mul, Nat.zero_add]
  have hlen : (List.replicate j false ++ w).length = j + w.length := by simp
  rw [← hlen, ← h, ← hval, twos_value]

/-- Leading ones widen a word that denotes a negative number. -/
theorem replicate_true_append (j : ℕ) {w : List Bool} {n : ℤ}
    (h : (value w : ℤ) = n + 2 ^ w.length) :
    List.replicate j true ++ w = twos (j + w.length) n := by
  -- ones up to the width of the word complete its value to the next power
  have hones : (value (List.replicate j true) : ℤ) = 2 ^ j - 1 := by
    rw [eq_sub_iff_add_eq]
    exact_mod_cast value_replicate_top (a := true) rfl j
  have hval : (value (List.replicate j true ++ w) : ℤ) = n + 2 ^ (j + w.length) := by
    rw [value_append, Nat.cast_add, Nat.cast_mul, hones, h, pow_add]
    push_cast
    ring
  have hlen : (List.replicate j true ++ w).length = j + w.length := by simp
  rw [← twos_value (List.replicate j true ++ w), hlen, hval]
  exact twos_congr (Int.add_emod_right _ _)

/-- Scaling by a power of two appends zeros. -/
theorem twos_mul (u v : ℕ) (n : ℤ) :
    twos (u + v) (n * 2 ^ v) = twos u n ++ List.replicate v false := by
  have hval : (value (twos u n ++ List.replicate v false) : ℤ) = n % 2 ^ u * 2 ^ v := by
    rw [value_append, value_replicate_zero rfl, List.length_replicate, Nat.add_zero]
    push_cast
    rw [value_twos]
  have hlen : (twos u n ++ List.replicate v false).length = u + v := by simp
  rw [← twos_value (twos u n ++ List.replicate v false), hlen, hval]
  apply twos_congr
  have hv : (0 : ℤ) < 2 ^ v := by positivity
  rw [pow_add, mul_comm n, mul_comm (2 ^ u), mul_comm (n % 2 ^ u),
    Int.mul_emod_mul_of_pos _ _ hv, Int.mul_emod_mul_of_pos _ _ hv, Int.emod_emod]

theorem value_append_int (u v : List Bool) :
    (value (u ++ v) : ℤ) = value u * 2 ^ v.length + value v := by
  rw [value_append]
  push_cast
  rfl

/-- Appending low bits to a word that has a sign bit scales its signed reading. -/
theorem signed_append {u : List Bool} (hu : u ≠ []) (v : List Bool) :
    signed (u ++ v) = signed u * 2 ^ v.length + value v := by
  obtain ⟨k, hk⟩ : ∃ k, u.length = k + 1 :=
    Nat.exists_eq_succ_of_ne_zero (by simpa using hu)
  have hv := value_lt_int v
  have hv₀ := Int.natCast_nonneg (value v)
  have hpow : (0 : ℤ) < 2 ^ v.length := by positivity
  obtain ⟨hlo, hhi⟩ := signed_range u
  have hhi' : 2 * signed u + 2 ≤ 2 ^ u.length := by
    -- a power of two with a positive exponent is even
    rw [hk, pow_succ] at hhi ⊢
    omega
  apply signed_unique
  · have hlo' := mul_le_mul_of_nonneg_right hlo hpow.le
    have hhi'' := mul_le_mul_of_nonneg_right hhi' hpow.le
    rw [List.length_append, pow_add]
    constructor <;> linarith
  · rw [value_append_int, List.length_append, ← signed_emod u]
    -- the high word enters through its residue only
    have hdiv := Int.emod_add_mul_ediv (signed u) (2 ^ u.length)
    calc (signed u * 2 ^ v.length + value v) % 2 ^ (u.length + v.length)
        = (signed u % 2 ^ u.length * 2 ^ v.length + value v
            + 2 ^ (u.length + v.length) * (signed u / 2 ^ u.length))
            % 2 ^ (u.length + v.length) := by
          have hscaled := congrArg (· * 2 ^ v.length) hdiv
          congr 1
          rw [pow_add]
          linarith
      _ = (signed u % 2 ^ u.length * 2 ^ v.length + value v)
            % 2 ^ (u.length + v.length) := Int.add_mul_emod_self_left _ _ _
      _ = signed u % 2 ^ u.length * 2 ^ v.length + value v := by
          rw [signed_emod, ← value_append_int, ← List.length_append]
          exact Int.emod_eq_of_lt (Int.natCast_nonneg _) (value_lt_int _)

theorem value_append_shiftRight (u v : List Bool) :
    value (u ++ v) >>> v.length = value u := by
  rw [value_append, Nat.shiftRight_eq_div_pow, Nat.mul_comm,
    Nat.mul_add_div (Nat.two_pow_pos _), Nat.div_eq_of_lt (value_lt v), Nat.add_zero]

theorem signed_append_shiftRight {u : List Bool} (hu : u ≠ []) (v : List Bool) :
    signed (u ++ v) >>> v.length = signed u := by
  have hpow : (0 : ℤ) < 2 ^ v.length := by positivity
  rw [signed_append hu, Int.shiftRight_eq_div_pow, Nat.cast_pow, Nat.cast_ofNat, add_comm,
    Int.add_mul_ediv_right _ _ hpow.ne',
    Int.ediv_eq_zero_of_lt (Int.natCast_nonneg _) (value_lt_int v), zero_add]

end TwosComplement
end Math
