import EverPlayground.TonTypes.Reference

/-!
# Integer fields and errors

The Rust helpers shared by the Python classes: the exceptions they raise and the
conversion of big integers to and from left-aligned bit fields.

A field of `bits` bits occupies `fieldBytes bits` bytes, of which the last
`padding bits` bits are unused. The encoders shift the integer over the padding
before they take its bytes; the decoders shift it back.

The encoders find the number of bytes by an addition of machine words, which wraps
around for the seven largest widths; there the buffer is not filled up.

## Main definitions

* `Representable` — the integers that have a word in a field
* `EncodesField` — a buffer that holds the word of an integer, left-aligned

## Main results

* `intSerialize_denotes` — the buffer denotes the shifted integer at its own length
* `intSerialize_encodesField_iff` — the widths at which a representable integer is
  encoded as it should be
* `unsignedIntDeserialize_eq`, `signedIntDeserialize_eq` — the decoders ignore the
  padding
-/

set_option autoImplicit false

namespace EverPlayground

open Math.Positional Math.TwosComplement Semantics

/-- A Python exception. The text is kept where the package supplies it. -/
inductive PyErr where
  | runtimeError (message : String)
  | exception (message : String)
  | assertionError
  | typeError
  | valueError
  | zeroDivisionError
  | overflowError
  | nameError
  | fileNotFoundError (filename : String)

/-- `runtime_err`: an error of `ton_types` as a Python exception. -/
def runtimeErr (err : Error) : PyErr := .runtimeError err.message

/-- `extract::<usize>` of an integer that is not negative. -/
def extractUsize (n : ℕ) : Except PyErr ℕ :=
  if n < 2 ^ 64 then .ok n else .error .overflowError

theorem extractUsize_of_lt {n : ℕ} (h : n < 2 ^ 64) : extractUsize n = .ok n := if_pos h

theorem extractUsize_of_le {n : ℕ} (h : 2 ^ 64 ≤ n) : extractUsize n = .error .overflowError :=
  if_neg (not_lt.mpr h)

/-- `pyo3::basic::CompareOp`. -/
inductive CompareOp where
  | lt
  | le
  | eq
  | ne
  | gt
  | ge

/-! ### The encoders and decoders -/

def excessBits (bits : ℕ) : ℕ := bits &&& 0b111

def bitsToBytes (bits : ℕ) : ℕ := usizeAdd bits 7 >>> 3

def getFill (isNegative : Bool) : UInt8 := if isNegative then 0xFF else 0

def extendBufferBe (bytes : List UInt8) (bits : ℕ) (isNegative : Bool) : List UInt8 :=
  -- a buffer that is longer than the field is not cut
  let newLen := bitsToBytes bits
  if newLen > bytes.length then
    List.replicate (newLen - bytes.length) (getFill isNegative) ++ bytes
  else
    bytes

section

variable [NumBigint]

def signedIntSerialize (integer : ℤ) (bits : ℕ) : Except PyErr (List UInt8) :=
  let excess := excessBits bits
  let integer := if excess ≠ 0 then integer <<< (8 - excess) else integer
  let buffer := NumBigint.toSignedBytesBe integer
  .ok (extendBufferBe buffer bits (integer < 0))

def unsignedIntSerialize (integer : ℤ) (bits : ℕ) : Except PyErr (List UInt8) :=
  if integer < 0 then
    .error (.runtimeError "integer is negative")
  else
    let integer := integer.toNat
    let excess := excessBits bits
    let integer := if excess ≠ 0 then integer <<< (8 - excess) else integer
    let buffer := NumBigint.toBytesBe integer
    .ok (extendBufferBe buffer bits false)

def signedIntDeserialize (bytes : List UInt8) (bits : ℕ) : Except PyErr ℤ :=
  let integer := NumBigint.fromSignedBytesBe bytes
  let excess := excessBits bits
  .ok (if excess ≠ 0 then integer >>> (8 - excess) else integer)

def unsignedIntDeserialize (bytes : List UInt8) (bits : ℕ) : Except PyErr ℕ :=
  let integer := NumBigint.fromBytesBe bytes
  let excess := excessBits bits
  .ok (if excess ≠ 0 then integer >>> (8 - excess) else integer)

/-- The encoder `Builder.i` chooses by the sign of the integer. -/
def intSerialize (integer : ℤ) (bits : ℕ) : Except PyErr (List UInt8) :=
  if integer < 0 then signedIntSerialize integer bits else unsignedIntSerialize integer bits

end

/-! ### Widths -/

/-- The bytes that a field takes. -/
def fieldBytes (bits : ℕ) : ℕ := (bits + 7) / 8

/-- The unused low bits of the last byte of a field. -/
def padding (bits : ℕ) : ℕ := 8 * fieldBytes bits - bits

theorem bitsToBytes_eq {bits : ℕ} (h : bits + 7 < 2 ^ 64) : bitsToBytes bits = fieldBytes bits := by
  rw [bitsToBytes, usizeAdd_of_lt h]
  exact Nat.shiftRight_eq_div_pow _ _

/-- The addition wraps around to less than a byte. -/
theorem bitsToBytes_wrap {bits : ℕ} (h : bits < 2 ^ 64) (hwrap : 2 ^ 64 ≤ bits + 7) :
    bitsToBytes bits = 0 := by
  rw [bitsToBytes, usizeAdd, Nat.shiftRight_eq_div_pow]
  omega

theorem excessBits_eq (bits : ℕ) : excessBits bits = bits % 8 :=
  Nat.and_two_pow_sub_one_eq_mod bits 3

theorem bits_add_padding (bits : ℕ) : bits + padding bits = 8 * fieldBytes bits := by
  rw [padding, fieldBytes]
  omega

theorem fieldBytes_pos {bits : ℕ} (h : 1 ≤ bits) : 0 < fieldBytes bits := by
  rw [fieldBytes]
  omega

/-- The shift distance of the encoders and decoders is the padding. -/
theorem padding_eq_of_excessBits {bits : ℕ} :
    (excessBits bits = 0 → padding bits = 0) ∧
      (excessBits bits ≠ 0 → padding bits = 8 - excessBits bits) := by
  rw [excessBits_eq, padding, fieldBytes]
  omega

theorem ite_shiftLeft_eq (n : ℤ) (bits : ℕ) :
    (if excessBits bits ≠ 0 then n <<< (8 - excessBits bits) else n) = n * 2 ^ padding bits := by
  split_ifs with h
  · rw [padding_eq_of_excessBits.2 h, Int.shiftLeft_eq]
  · rw [padding_eq_of_excessBits.1 (not_not.mp h), pow_zero, mul_one]

theorem ite_shiftLeft_eq_nat (n bits : ℕ) :
    (if excessBits bits ≠ 0 then n <<< (8 - excessBits bits) else n) = n * 2 ^ padding bits := by
  split_ifs with h
  · rw [padding_eq_of_excessBits.2 h, Nat.shiftLeft_eq]
  · rw [padding_eq_of_excessBits.1 (not_not.mp h), pow_zero, mul_one]

theorem ite_shiftRight_eq (n : ℤ) (bits : ℕ) :
    (if excessBits bits ≠ 0 then n >>> (8 - excessBits bits) else n) = n >>> padding bits := by
  split_ifs with h
  · rw [padding_eq_of_excessBits.2 h]
  · rw [padding_eq_of_excessBits.1 (not_not.mp h), Int.shiftRight_zero]

theorem ite_shiftRight_eq_nat (n bits : ℕ) :
    (if excessBits bits ≠ 0 then n >>> (8 - excessBits bits) else n) = n >>> padding bits := by
  split_ifs with h
  · rw [padding_eq_of_excessBits.2 h]
  · rw [padding_eq_of_excessBits.1 (not_not.mp h), Nat.shiftRight_zero]

/-! ### Widening a buffer -/

theorem bytesToBits_replicate_getFill (j : ℕ) (isNegative : Bool) :
    bytesToBits (List.replicate j (getFill isNegative)) = List.replicate (8 * j) isNegative := by
  induction j with
  | zero => rfl
  | succ j ih =>
    -- a filling byte is eight copies of the sign
    have hbyte : bytesToBits [getFill isNegative] = List.replicate 8 isNegative := by
      cases isNegative <;> decide
    rw [List.replicate_succ, ← List.singleton_append, bytesToBits_append, hbyte, ih,
      List.replicate_append_replicate]
    congr 1
    omega

theorem length_extendBufferBe (bytes : List UInt8) (bits : ℕ) (isNegative : Bool) :
    (extendBufferBe bytes bits isNegative).length = max bytes.length (bitsToBytes bits) := by
  simp only [extendBufferBe]
  split_ifs with h
  · rw [List.length_append, List.length_replicate]
    omega
  · omega

/-- A buffer is widened by copies of the sign. -/
theorem bytesToBits_extendBufferBe (bytes : List UInt8) (bits : ℕ) (isNegative : Bool) :
    ∃ j, bytesToBits (extendBufferBe bytes bits isNegative) =
      List.replicate j isNegative ++ bytesToBits bytes := by
  simp only [extendBufferBe]
  split_ifs with h
  · exact ⟨_, by rw [bytesToBits_append, bytesToBits_replicate_getFill]⟩
  · exact ⟨0, rfl⟩

/-! ### Representable integers -/

/-- The integer has a representation in `bits` bits, signed or unsigned. -/
def Representable (bits : ℕ) (n : ℤ) : Prop := -(2 ^ (bits - 1)) ≤ n ∧ n < 2 ^ bits

instance (bits : ℕ) (n : ℤ) : Decidable (Representable bits n) :=
  inferInstanceAs (Decidable (_ ∧ _))

/-- The bounds without a subtraction in the exponent. -/
theorem representable_iff {bits : ℕ} {n : ℤ} (hbits : 1 ≤ bits) :
    Representable bits n ↔ -(2 ^ bits) ≤ 2 * n ∧ n < 2 ^ bits := by
  obtain ⟨k, rfl⟩ : ∃ k, bits = k + 1 := ⟨bits - 1, by omega⟩
  rw [Representable, Nat.add_sub_cancel, pow_succ]
  constructor <;> rintro ⟨hlo, hhi⟩ <;> exact ⟨by linarith, hhi⟩

theorem Representable.signed_twos {bits : ℕ} {n : ℤ} (hbits : 1 ≤ bits)
    (h : Representable bits n) (hneg : n < 0) : signed (twos bits n) = n := by
  have hpow : (0 : ℤ) < 2 ^ bits := by positivity
  exact Math.TwosComplement.signed_twos ⟨((representable_iff hbits).mp h).1, by omega⟩

/-- Shifting both the integer and the width changes nothing. -/
theorem representable_mul_iff {bits : ℕ} {n : ℤ} (hbits : 1 ≤ bits) (p : ℕ) :
    Representable (bits + p) (n * 2 ^ p) ↔ Representable bits n := by
  have hp : (0 : ℤ) < 2 ^ p := by positivity
  rw [representable_iff hbits, representable_iff (hbits.trans (Nat.le_add_right _ _)), pow_add]
  have hlo : -(2 ^ bits * 2 ^ p) ≤ 2 * (n * 2 ^ p) ↔ -(2 ^ bits) ≤ 2 * n := by
    rw [← neg_mul, ← mul_assoc]
    exact mul_le_mul_iff_of_pos_right hp
  have hhi : n * 2 ^ p < 2 ^ bits * 2 ^ p ↔ n < 2 ^ bits := mul_lt_mul_iff_of_pos_right hp
  rw [hlo, hhi]

theorem value_representable (w : List Bool) : Representable w.length (value w) := by
  have hpow : (0 : ℤ) < 2 ^ (w.length - 1) := by positivity
  exact ⟨by omega, value_lt_int w⟩

theorem signed_representable {w : List Bool} (h : 1 ≤ w.length) :
    Representable w.length (signed w) := by
  have hrange := signed_range w
  have hpow : (0 : ℤ) < 2 ^ w.length := by positivity
  exact (representable_iff h).mpr ⟨hrange.1, by linarith [hrange.2]⟩

/-! ### What the encoders produce -/

section

variable [NumBigint]

/-- The number of bytes before the buffer is widened. -/
def minimalLength (n : ℤ) : ℕ :=
  if n < 0 then (NumBigint.toSignedBytesBe n).length else (NumBigint.toBytesBe n.toNat).length

theorem signedIntSerialize_eq (n : ℤ) (bits : ℕ) :
    signedIntSerialize n bits =
      .ok (extendBufferBe (NumBigint.toSignedBytesBe (n * 2 ^ padding bits)) bits
        (decide (n * 2 ^ padding bits < 0))) := by
  simp only [signedIntSerialize, ite_shiftLeft_eq]

theorem unsignedIntSerialize_eq {n : ℤ} (h : 0 ≤ n) (bits : ℕ) :
    unsignedIntSerialize n bits =
      .ok (extendBufferBe (NumBigint.toBytesBe (n.toNat * 2 ^ padding bits)) bits false) := by
  simp only [unsignedIntSerialize, if_neg (not_lt.mpr h), ite_shiftLeft_eq_nat]

/-- The buffer covers the field, also for an integer that does not fit it, as long as the
number of bytes is found without a wrap-around. -/
theorem le_length_intSerialize (n : ℤ) (bits : ℕ) :
    ∃ buf, intSerialize n bits = .ok buf ∧ (bits + 7 < 2 ^ 64 → bits ≤ 8 * buf.length) := by
  have hle (bytes : List UInt8) (isNegative : Bool) (h : bits + 7 < 2 ^ 64) :
      bits ≤ 8 * (extendBufferBe bytes bits isNegative).length := by
    have hpadding := bits_add_padding bits
    rw [length_extendBufferBe, bitsToBytes_eq h]
    omega
  unfold intSerialize
  split_ifs with h
  · exact ⟨_, signedIntSerialize_eq n bits, hle _ _⟩
  · exact ⟨_, unsignedIntSerialize_eq (not_lt.mp h) bits, hle _ _⟩

variable [LawfulNumBigint]

theorem length_toBytesBe_le_iff {n k : ℕ} (hk : 0 < k) :
    (NumBigint.toBytesBe n).length ≤ k ↔ n < 256 ^ k := by
  constructor
  · intro h
    have hlt := value_lt (NumBigint.toBytesBe n)
    rw [LawfulNumBigint.toBytesBe_value] at hlt
    exact hlt.trans_le (Nat.pow_le_pow_right (by decide) h)
  · intro h
    have hne : (word k n : List UInt8) ≠ [] := by
      rw [← List.length_pos_iff, length_word]
      exact hk
    have hle := LawfulNumBigint.toBytesBe_shortest n (word k n) hne (value_word_of_lt h)
    rwa [length_word] at hle

theorem length_toSignedBytesBe_le_iff {n : ℤ} {k : ℕ} (hk : 0 < k) :
    (NumBigint.toSignedBytesBe n).length ≤ k ↔
      -(2 ^ (8 * k)) ≤ 2 * n ∧ 2 * n < 2 ^ (8 * k) := by
  constructor
  · intro h
    have hrange := signed_range (bytesToBits (NumBigint.toSignedBytesBe n))
    rw [LawfulNumBigint.toSignedBytesBe_signed, length_bytesToBits] at hrange
    have hpow : (2 : ℤ) ^ (8 * (NumBigint.toSignedBytesBe n).length) ≤ 2 ^ (8 * k) :=
      pow_le_pow_right₀ (by decide) (Nat.mul_le_mul_left 8 h)
    exact ⟨by linarith [hrange.1], by linarith [hrange.2]⟩
  · intro h
    have hne : (word k (n % 2 ^ (8 * k)).toNat : List UInt8) ≠ [] := by
      rw [← List.length_pos_iff, length_word]
      exact hk
    have hbits : bytesToBits (word k (n % 2 ^ (8 * k)).toNat) = twos (8 * k) n :=
      expand_word rfl _ _
    have hle := LawfulNumBigint.toSignedBytesBe_shortest n _ hne (by rw [hbits, signed_twos h])
    rwa [length_word] at hle

/-- The shortest buffer is as long as the integer needs, also at the negative end. -/
theorem minimalLength_le_iff {n : ℤ} {k : ℕ} (hk : 0 < k) :
    minimalLength n ≤ k ↔ Representable (8 * k) n := by
  have hpow : (0 : ℤ) < 2 ^ (8 * k) := by positivity
  rw [representable_iff (by omega), minimalLength]
  by_cases hneg : n < 0
  · rw [if_pos hneg, length_toSignedBytesBe_le_iff hk]
    exact ⟨fun h => ⟨h.1, by linarith⟩, fun h => ⟨h.1, by linarith⟩⟩
  · rw [if_neg hneg, length_toBytesBe_le_iff hk]
    obtain ⟨m, rfl⟩ := Int.eq_ofNat_of_zero_le (not_lt.mp hneg)
    rw [Int.toNat_natCast, show (256 : ℕ) = 2 ^ 8 from rfl, ← pow_mul]
    constructor
    · intro h
      exact ⟨by linarith [Int.natCast_nonneg m], by exact_mod_cast h⟩
    · intro h
      exact_mod_cast h.2

theorem unsignedIntSerialize_denotes {n : ℤ} (h₀ : 0 ≤ n) (bits : ℕ) :
    ∃ buf, unsignedIntSerialize n bits = .ok buf ∧
      buf.length = max (minimalLength (n * 2 ^ padding bits)) (bitsToBytes bits) ∧
      bytesToBits buf = twos (8 * buf.length) (n * 2 ^ padding bits) := by
  obtain ⟨m, rfl⟩ := Int.eq_ofNat_of_zero_le h₀
  have hcast : (m : ℤ) * 2 ^ padding bits = ((m * 2 ^ padding bits : ℕ) : ℤ) := by
    push_cast
    rfl
  refine ⟨_, unsignedIntSerialize_eq h₀ bits, ?_, ?_⟩
  · rw [length_extendBufferBe, hcast, minimalLength, if_neg (not_lt.mpr (Int.natCast_nonneg _)),
      Int.toNat_natCast, Int.toNat_natCast]
  · rw [Int.toNat_natCast, ← length_bytesToBits]
    obtain ⟨j, hj⟩ := bytesToBits_extendBufferBe (NumBigint.toBytesBe (m * 2 ^ padding bits))
      bits false
    have hval : (value (bytesToBits (NumBigint.toBytesBe (m * 2 ^ padding bits))) : ℤ) =
        m * 2 ^ padding bits := by
      rw [value_bytesToBits, LawfulNumBigint.toBytesBe_value, hcast]
    rw [hj, List.length_append, List.length_replicate]
    exact replicate_false_append j hval

theorem signedIntSerialize_denotes {n : ℤ} (hneg : n < 0) (bits : ℕ) :
    ∃ buf, signedIntSerialize n bits = .ok buf ∧
      buf.length = max (minimalLength (n * 2 ^ padding bits)) (bitsToBytes bits) ∧
      bytesToBits buf = twos (8 * buf.length) (n * 2 ^ padding bits) := by
  have hpow : (0 : ℤ) < 2 ^ padding bits := by positivity
  have hneg' : n * 2 ^ padding bits < 0 := mul_neg_of_neg_of_pos hneg hpow
  refine ⟨_, signedIntSerialize_eq n bits, ?_, ?_⟩
  · rw [length_extendBufferBe, minimalLength, if_pos hneg']
  · rw [decide_eq_true hneg', ← length_bytesToBits]
    generalize hbuf : NumBigint.toSignedBytesBe (n * 2 ^ padding bits) = buf
    have hsigned : signed (bytesToBits buf) = n * 2 ^ padding bits := by
      rw [← hbuf, LawfulNumBigint.toSignedBytesBe_signed]
    -- a negative reading is the unsigned one less the weight of the word
    have hval : (value (bytesToBits buf) : ℤ) =
        n * 2 ^ padding bits + 2 ^ (bytesToBits buf).length := by
      have hdef := hsigned
      unfold signed at hdef
      split_ifs at hdef
      · exact absurd hneg' (by rw [← hdef]; exact not_lt.mpr (Int.natCast_nonneg _))
      · linarith
    obtain ⟨j, hj⟩ := bytesToBits_extendBufferBe buf bits true
    rw [hj, List.length_append, List.length_replicate]
    exact replicate_true_append j hval

/-- Read as two's complement over its whole length, the buffer is the integer shifted over
the padding, whether the integer fits the field or not. -/
theorem intSerialize_denotes (n : ℤ) (bits : ℕ) :
    ∃ buf, intSerialize n bits = .ok buf ∧
      buf.length = max (minimalLength (n * 2 ^ padding bits)) (bitsToBytes bits) ∧
      bytesToBits buf = twos (8 * buf.length) (n * 2 ^ padding bits) := by
  unfold intSerialize
  split_ifs with hneg
  · exact signedIntSerialize_denotes hneg bits
  · exact unsignedIntSerialize_denotes (not_lt.mp hneg) bits

/-- The shortest buffer of a representable integer is not longer than the field. -/
theorem Representable.minimalLength_le {bits : ℕ} {n : ℤ} (hbits : 1 ≤ bits)
    (h : Representable bits n) : minimalLength (n * 2 ^ padding bits) ≤ fieldBytes bits := by
  rw [minimalLength_le_iff (fieldBytes_pos hbits), ← bits_add_padding]
  exact (representable_mul_iff hbits _).mpr h

/-- It is as long as the field when the integer needs the first eight bits of the field. -/
theorem fieldBytes_le_minimalLength_iff {bits : ℕ} (hbits : 9 ≤ bits) (n : ℤ) :
    fieldBytes bits ≤ minimalLength (n * 2 ^ padding bits) ↔ ¬ Representable (bits - 8) n := by
  have hpos : 0 < fieldBytes bits - 1 := by
    rw [fieldBytes]
    omega
  have hwidth : 8 * (fieldBytes bits - 1) = bits - 8 + padding bits := by
    have hpadding := bits_add_padding bits
    omega
  rw [← representable_mul_iff (by omega) (padding bits), ← hwidth, ← minimalLength_le_iff hpos]
  omega

omit [NumBigint] [LawfulNumBigint] in
/-- A buffer as long as the field: the two's-complement word of the integer, then zeros. -/
theorem bytesToBits_of_length {bits : ℕ} {n : ℤ} {buf : List UInt8}
    (hlen : buf.length = fieldBytes bits)
    (hdenotes : bytesToBits buf = twos (8 * buf.length) (n * 2 ^ padding bits)) :
    bytesToBits buf = twos bits n ++ List.replicate (padding bits) false := by
  rw [hdenotes, hlen, ← bits_add_padding, twos_mul]

/-- The buffer of a representable integer, where the number of bytes does not wrap around. -/
theorem intSerialize_of_representable {bits : ℕ} {n : ℤ} (husize : bits + 7 < 2 ^ 64)
    (hbits : 1 ≤ bits) (h : Representable bits n) :
    ∃ buf, intSerialize n bits = .ok buf ∧ buf.length = fieldBytes bits ∧
      bytesToBits buf = twos bits n ++ List.replicate (padding bits) false := by
  obtain ⟨buf, hbuf, hlen, hdenotes⟩ := intSerialize_denotes n bits
  rw [bitsToBytes_eq husize, max_eq_right (h.minimalLength_le hbits)] at hlen
  exact ⟨buf, hbuf, hlen, bytesToBits_of_length hlen hdenotes⟩

end

/-! ### The encoding of a field -/

/-- The buffer has just the bytes of the field: the binary digits of the integer modulo
`2 ^ bits`, the highest first, and zeros after them. -/
structure EncodesField (bits : ℕ) (n : ℤ) (buf : List UInt8) : Prop where
  length : buf.length = (bits + 7) / 8
  digit : ∀ j < bits,
    (bytesToBits buf)[j]? = some ((n % 2 ^ bits).toNat.testBit (bits - 1 - j))
  unused : ∀ j, bits ≤ j → j < 8 * buf.length → (bytesToBits buf)[j]? = some false

theorem encodesField_of_bytesToBits {bits : ℕ} {n : ℤ} {buf : List UInt8}
    (hlen : buf.length = fieldBytes bits)
    (hbits : bytesToBits buf = twos bits n ++ List.replicate (padding bits) false) :
    EncodesField bits n buf where
  length := hlen
  digit j hj := by
    rw [hbits, List.getElem?_append_left (by rwa [length_twos])]
    exact word_getElem hj _
  unused j hj hlt := by
    have hpadding := bits_add_padding bits
    rw [hbits, List.getElem?_append_right (by rwa [length_twos]), length_twos,
      List.getElem?_replicate, if_pos (by omega)]

/-- A representable integer is encoded as a field exactly when the number of bytes does not
wrap around, or the integer needs all of them anyway. -/
theorem intSerialize_encodesField_iff [NumBigint] [LawfulNumBigint] {bits : ℕ} {n : ℤ}
    (hbits : 1 ≤ bits) (husize : bits < 2 ^ 64) (h : Representable bits n) :
    (∃ buf, intSerialize n bits = .ok buf ∧ EncodesField bits n buf) ↔
      bits + 7 < 2 ^ 64 ∨ ¬ Representable (bits - 8) n := by
  obtain ⟨buf, hbuf, hlen, hdenotes⟩ := intSerialize_denotes n bits
  have hle := h.minimalLength_le hbits
  -- everything follows from the length of the buffer
  have hfield : (∃ buf, intSerialize n bits = .ok buf ∧ EncodesField bits n buf) ↔
      buf.length = fieldBytes bits := by
    constructor
    · rintro ⟨buf', hbuf', hencodes⟩
      obtain rfl : buf = buf' := Except.ok.inj (hbuf.symm.trans hbuf')
      exact hencodes.length
    · intro hlen'
      exact ⟨buf, hbuf, encodesField_of_bytesToBits hlen' (bytesToBits_of_length hlen' hdenotes)⟩
  rw [hfield, hlen]
  by_cases hwrap : bits + 7 < 2 ^ 64
  · rw [bitsToBytes_eq hwrap, max_eq_right hle]
    exact iff_of_true rfl (Or.inl hwrap)
  · rw [bitsToBytes_wrap husize (not_lt.mp hwrap), Nat.max_zero, or_iff_right hwrap,
      ← fieldBytes_le_minimalLength_iff (by omega)]
    exact ⟨fun heq => heq.ge, fun hge => hle.antisymm hge⟩

section Reference

open scoped Reference

theorem intSerialize_encodesField_iff_byte :
    (∃ buf, intSerialize (-128) 8 = .ok buf ∧ EncodesField 8 (-128) buf) ↔
      8 + 7 < 2 ^ 64 ∨ ¬ Representable (8 - 8) (-128) :=
  intSerialize_encodesField_iff (by decide) (by decide) (by decide)

/-- At the largest width zero goes into one byte, where the field takes `2 ^ 61`. -/
theorem intSerialize_usizeMax :
    Representable (2 ^ 64 - 1) 0 ∧ intSerialize 0 (2 ^ 64 - 1) = .ok [0] ∧
      ¬ EncodesField (2 ^ 64 - 1) 0 [0] := by
  have hrun : intSerialize 0 (2 ^ 64 - 1) = .ok [0] := by
    rfl
  refine ⟨⟨neg_nonpos.mpr (by positivity), by positivity⟩, hrun, fun h => ?_⟩
  have hlen := h.length
  simp at hlen

end Reference

section

variable [NumBigint] [LawfulNumBigint]

/-! ### What the decoders read -/

theorem unsignedIntDeserialize_eq {buf : List UInt8} {w pad : List Bool}
    (h : bytesToBits buf = w ++ pad) (hpad : pad.length = padding w.length) :
    unsignedIntDeserialize buf w.length = .ok (value w) := by
  simp only [unsignedIntDeserialize, ite_shiftRight_eq_nat, LawfulNumBigint.fromBytesBe_eq]
  rw [← value_bytesToBits, h, ← hpad, value_append_shiftRight]

theorem signedIntDeserialize_eq {buf : List UInt8} {w pad : List Bool}
    (h : bytesToBits buf = w ++ pad) (hpad : pad.length = padding w.length) :
    signedIntDeserialize buf w.length = .ok (signed w) := by
  simp only [signedIntDeserialize, ite_shiftRight_eq, LawfulNumBigint.fromSignedBytesBe_eq]
  rw [h, ← hpad]
  cases w with
  | nil =>
    -- a field of no bits has no padding either
    obtain rfl : pad = [] := List.length_eq_zero_iff.mp (hpad.trans rfl)
    rfl
  | cons b w => rw [signed_append_shiftRight (List.cons_ne_nil b w)]

end

end EverPlayground
