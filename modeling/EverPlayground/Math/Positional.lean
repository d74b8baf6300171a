import Mathlib.Data.Nat.Digits.Lemmas
import Mathlib.Tactic.Ring

/-!
# Big-endian positional words

A *word* is a list of digits, most significant first. The same arithmetic serves
bits (base 2), bytes (base 256) and the digits of a numeral, so it is developed
once for any digit type that is in bijection with the numbers below its base.

## Main definitions

* `Digit` — a digit type of a given base
* `value` — the number a word denotes
* `word` — the fixed-width word of a number, high digits dropped
* `expand` — rewriting each digit as `k` digits of a smaller base

## Main results

* `value_append` — concatenation is shift and add
* `value_word`, `word_value` — `word` and `value` are mutually inverse on a width
* `value_inj` — words of one length are told apart by their values
* `value_expand` — expanding keeps the value
-/

set_option autoImplicit false

namespace Math
namespace Positional

/-- A digit type of base `b`: its members are the numbers below `b`. -/
class Digit (b : outParam ℕ) (α : Type*) where
  toNat : α → ℕ
  ofNat : ℕ → α
  toNat_lt : ∀ a, toNat a < b
  toNat_ofNat : ∀ n, toNat (ofNat n) = n % b
  ofNat_toNat : ∀ a, ofNat (toNat a) = a

instance : Digit 2 Bool where
  toNat := Bool.toNat
  ofNat n := n % 2 == 1
  toNat_lt a := by cases a <;> decide
  toNat_ofNat n := by
    rcases Nat.mod_two_eq_zero_or_one n with h | h <;> simp [h]
  ofNat_toNat a := by cases a <;> rfl

instance : Digit 256 UInt8 where
  toNat := UInt8.toNat
  ofNat := UInt8.ofNat
  toNat_lt := UInt8.toNat_lt
  toNat_ofNat _ := UInt8.toNat_ofNat'
  ofNat_toNat _ := UInt8.ofNat_toNat

instance (n : ℕ) : Digit (n + 1) (Fin (n + 1)) where
  toNat := Fin.val
  ofNat := Fin.ofNat (n + 1)
  toNat_lt := Fin.isLt
  toNat_ofNat _ := rfl
  ofNat_toNat := Fin.ofNat_val_eq_self

variable {b : ℕ} {α : Type*} [Digit b α]

theorem Digit.toNat_injective : Function.Injective (Digit.toNat : α → ℕ) := by
  intro x y h
  rw [← Digit.ofNat_toNat x, ← Digit.ofNat_toNat y, h]

/-- The number a word denotes. -/
def value (w : List α) : ℕ := Nat.ofDigits b (w.map Digit.toNat).reverse

@[simp] theorem value_nil : value ([] : List α) = 0 := rfl

theorem value_append (u v : List α) :
    value (u ++ v) = value u * b ^ v.length + value v := by
  simp only [value, List.map_append, List.reverse_append, Nat.ofDigits_append,
    List.length_reverse, List.length_map]
  ring

@[simp] theorem value_singleton (a : α) : value [a] = Digit.toNat a := by
  simp [value]

theorem value_cons (a : α) (w : List α) :
    value (a :: w) = Digit.toNat a * b ^ w.length + value w := by
  rw [← List.singleton_append, value_append, value_singleton]

/-- Digits can be accumulated from the left. -/
theorem value_eq_foldl (w : List α) :
    value w = (w.map Digit.toNat).foldl (fun acc d => acc * b + d) 0 := by
  induction w using List.reverseRecOn with
  | nil => rfl
  | append_singleton w a ih =>
    rw [value_append, value_singleton, List.length_singleton, pow_one, ih, List.map_append,
      List.map_singleton, List.foldl_concat]

theorem value_lt (w : List α) : value w < b ^ w.length := by
  induction w with
  | nil => simp
  | cons a w ih =>
    rw [value_cons, List.length_cons, pow_succ']
    calc Digit.toNat a * b ^ w.length + value w
        < Digit.toNat a * b ^ w.length + b ^ w.length := by omega
      _ = (Digit.toNat a + 1) * b ^ w.length := by ring
      _ ≤ b * b ^ w.length := Nat.mul_le_mul_right _ (Digit.toNat_lt a)

/-- The word of `w` digits that denotes `n`; digits above the width are dropped. -/
def word : ℕ → ℕ → List α
  | 0, _ => []
  | w + 1, n => word w (n / b) ++ [Digit.ofNat n]

@[simp] theorem word_zero (n : ℕ) : word 0 n = ([] : List α) := rfl

theorem word_succ (w n : ℕ) :
    (word (w + 1) n : List α) = word w (n / b) ++ [Digit.ofNat n] := rfl

@[simp] theorem length_word (w n : ℕ) : (word w n : List α).length = w := by
  induction w generalizing n with
  | zero => rfl
  | succ w ih => simp [word_succ, ih]

/-- The digits of a word of bits are the binary digits of the number. -/
theorem word_getElem {w j : ℕ} (h : j < w) (n : ℕ) :
    (word w n : List Bool)[j]? = some (n.testBit (w - 1 - j)) := by
  induction w generalizing n with
  | zero => exact absurd h (Nat.not_lt_zero j)
  | succ w ih =>
    rw [word_succ]
    by_cases hj : j < w
    · have hexp : w + 1 - 1 - j = w - 1 - j + 1 := by omega
      rw [List.getElem?_append_left (by rwa [length_word]), ih hj, hexp, Nat.testBit_succ]
    · obtain rfl : j = w := by omega
      rw [List.getElem?_append_right (by rw [length_word]), length_word, Nat.sub_self,
        Nat.add_sub_cancel, Nat.sub_self, Nat.testBit_zero]
      rfl

theorem value_word (w n : ℕ) : value (word w n : List α) = n % b ^ w := by
  induction w generalizing n with
  | zero => simp [Nat.mod_one]
  | succ w ih =>
    rw [word_succ, value_append, ih, value_singleton, Digit.toNat_ofNat, List.length_singleton,
      pow_one, pow_succ', Nat.mod_mul]
    ring

theorem value_word_of_lt {w n : ℕ} (h : n < b ^ w) : value (word w n : List α) = n := by
  rw [value_word, Nat.mod_eq_of_lt h]

theorem value_inj {u v : List α} (hlen : u.length = v.length) (h : value u = value v) :
    u = v := by
  induction u generalizing v with
  | nil => exact (List.length_eq_zero_iff.mp hlen.symm).symm
  | cons x u ih =>
    cases v with
    | nil => simp at hlen
    | cons y v =>
      have hlen' : u.length = v.length := by simpa using hlen
      rw [value_cons, value_cons, hlen'] at h
      have hu : value u < b ^ v.length := hlen' ▸ value_lt u
      have hv : value v < b ^ v.length := value_lt v
      have hpos : 0 < b ^ v.length := by omega
      -- the leading digits are the quotients by the common weight
      have hxy : Digit.toNat x = Digit.toNat y := by
        have := congrArg (· / b ^ v.length) h
        simpa [Nat.mul_add_div hpos, Nat.mul_comm, Nat.div_eq_of_lt hu, Nat.div_eq_of_lt hv]
          using this
      rw [Digit.toNat_injective hxy, ih hlen' (by rw [hxy] at h; omega)]

theorem word_value (w : List α) : word w.length (value w) = w :=
  value_inj (length_word _ _) (value_word_of_lt (value_lt w))

theorem value_replicate_zero {a : α} (ha : Digit.toNat a = 0) (n : ℕ) :
    value (List.replicate n a) = 0 := by
  induction n with
  | zero => rfl
  | succ n ih => rw [List.replicate_succ, value_cons, ih, ha, Nat.zero_mul]

/-- A word of largest digits is one short of the next power. -/
theorem value_replicate_top {a : α} (ha : Digit.toNat a + 1 = b) (n : ℕ) :
    value (List.replicate n a) + 1 = b ^ n := by
  induction n with
  | zero => rfl
  | succ n ih =>
    rw [List.replicate_succ, value_cons, List.length_replicate, pow_succ']
    calc Digit.toNat a * b ^ n + value (List.replicate n a) + 1
        = Digit.toNat a * b ^ n + b ^ n := by omega
      _ = (Digit.toNat a + 1) * b ^ n := by ring
      _ = b * b ^ n := by rw [ha]

/-! ### Changing the base -/

variable {c : ℕ} {β : Type*} [Digit c β]

/-- Rewrite every digit as `k` digits of another base. -/
def expand (k : ℕ) (w : List α) : List β := w.flatMap fun a => word k (Digit.toNat a)

@[simp] theorem expand_nil (k : ℕ) : expand k ([] : List α) = ([] : List β) := rfl

theorem expand_append (k : ℕ) (u v : List α) :
    (expand k (u ++ v) : List β) = expand k u ++ expand k v := by
  simp [expand]

@[simp] theorem length_expand (k : ℕ) (w : List α) :
    (expand k w : List β).length = k * w.length := by
  induction w with
  | nil => rfl
  | cons a w ih =>
    rw [← List.singleton_append, expand_append, List.length_append, ih]
    simp [expand, Nat.mul_add, Nat.add_comm]

theorem value_expand {k : ℕ} (hb : b = c ^ k) (w : List α) :
    value (expand k w : List β) = value w := by
  induction w with
  | nil => rfl
  | cons a w ih =>
    have hhead : (expand k [a] : List β) = word k (Digit.toNat a) := by simp [expand]
    -- a digit of the old base is a word of `k` digits of the new one
    have ha : Digit.toNat a < c ^ k := hb ▸ Digit.toNat_lt a
    have hpow : c ^ (k * w.length) = b ^ w.length := by rw [pow_mul, hb]
    rw [← List.singleton_append, expand_append, value_append, value_append, ih, hhead,
      value_word_of_lt ha, value_singleton, length_expand, hpow]

/-- Regrouping the digits of a word is again a word of the same number. -/
theorem expand_word {k : ℕ} (hb : b = c ^ k) (w n : ℕ) :
    (expand k (word w n : List α) : List β) = word (k * w) n := by
  apply value_inj (by simp)
  rw [value_expand hb, value_word, value_word, pow_mul, ← hb]

end Positional
end Math
