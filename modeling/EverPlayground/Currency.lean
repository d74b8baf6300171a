import EverPlayground.Builder
import EverPlayground.Python.Fraction
import EverPlayground.TonTypes.Reference

/-!
# The `Currency` class

An amount is written as a four-bit length in bytes, followed by that many bytes. The
reader accepts any length; the writer chooses the least one, found from the number of
significant bits.

The constructor bounds the amount in bits and the writer in bytes, and the two bounds do
not coincide.

## Main definitions

* `Currency.encoding` — an amount behind a length of one's choice
* `Currency.RoundTrips` — the object can be written and read back

## Main results

* `Currency.byteLength_le_iff` — the writer's length is the least that holds the amount
* `Currency.serialize_canonical` — below `2 ^ 120` the code is self-delimiting, the
  writer's choice is the only shortest one, and the reader never leaves that range
* `Currency.roundTrips_iff_lt` — which of the objects that can be made can be written
-/

set_option autoImplicit false

namespace EverPlayground

open Math.Positional Semantics Semantics.Cursor

/-- Python's `int.bit_length`. -/
def bitLength (n : ℤ) : ℕ := if n = 0 then 0 else n.natAbs.log2 + 1

theorem bitLength_le_iff (n : ℤ) (k : ℕ) : bitLength n ≤ k ↔ n.natAbs < 2 ^ k := by
  unfold bitLength
  by_cases h : n = 0
  · rw [if_pos h, h]
    exact iff_of_true (Nat.zero_le k) (Nat.two_pow_pos k)
  · rw [if_neg h, Nat.add_one_le_iff]
    exact Nat.log2_lt (Int.natAbs_ne_zero.mpr h)

/-- The exceptions of `Fraction`. -/
def fractionErr : Python.FractionError → PyErr
  | .valueError => .valueError
  | .zeroDivisionError => .zeroDivisionError

@[ext] structure Currency where
  value : ℤ

namespace Currency

section Methods

variable [NumBigint] [TonTypes]

/-- `Currency.__init__`. -/
def create (value : ℤ) : Except PyErr Currency :=
  if value < 0 ∨ bitLength value > 128 then
    .error (.exception "Currency value must be non-negative and fit into 128 bits")
  else
    .ok { value := value }

/-- `Currency.FACTOR`. -/
def factor : ℕ := 1000000000

/-- `Currency.from_str`. -/
def fromStr [Python.Unicode] (value : String) : Except PyErr Currency := do
  let fraction ← (Python.fraction value.toList).mapError fractionErr
  create (Python.truncate (fraction * factor))

def setValue (value : ℕ) (_ : Currency) : Currency := { value := value }

def deserialize : Mut PyErr (Currency × PySlice) Unit := do
  let len ← Mut.onSnd (PySlice.u 4)
  if len = 0 then
    Mut.onFst (modify (setValue 0))
  else
    Mut.assign (PySlice.u (len * 8)) setValue

/-- The length of the value in bytes. -/
def byteLength (self : Currency) : ℕ := (bitLength self.value + 7) >>> 3

def serialize (self : Currency) : Except PyErr PyBuilder :=
  if self.value = 0 then
    PyBuilder.build (PyBuilder.i 4 0)
  else if self.byteLength < 16 then
    PyBuilder.build do
      PyBuilder.i 4 self.byteLength
      PyBuilder.i (self.byteLength * 8) self.value
  else
    .error .assertionError

end Methods

/-! ### Lengths -/

/-- The object that holds a natural number. -/
abbrev amount (m : ℕ) : Currency := { value := m }

theorem amount_value_lt {m k : ℕ} : (amount m).value < 2 ^ k ↔ m < 2 ^ k := by
  change (m : ℤ) < 2 ^ k ↔ m < 2 ^ k
  norm_cast

/-- `len:(#< 16) value:(uint (len * 8))`. -/
def encoding (len m : ℕ) : Fragment := TlB.uint 4 len * TlB.uint (len * 8) m

theorem length_encoding (len m : ℕ) : (encoding len m).bits.length = 4 + len * 8 := by
  simp [encoding, TlB.uint]

theorem encoding_fits {len : ℕ} (h : len < 16) (m : ℕ) : (encoding len m).Fits := by
  have hlen := (TlB.within_uint 4 len).mul (TlB.within_uint (len * 8) m)
  exact hlen.fits (by change 4 + len * 8 ≤ 1023; omega) (by decide)

theorem byteLength_le_iff (m k : ℕ) : (amount m).byteLength ≤ k ↔ m < 2 ^ (k * 8) := by
  have hbits := bitLength_le_iff (amount m).value (k * 8)
  rw [Int.natAbs_natCast] at hbits
  rw [← hbits, byteLength, Nat.shiftRight_eq_div_pow]
  omega

theorem lt_of_byteLength (m : ℕ) : m < 2 ^ ((amount m).byteLength * 8) :=
  (byteLength_le_iff m _).mp le_rfl

theorem byteLength_lt {m : ℕ} (h : m < 2 ^ 120) : (amount m).byteLength < 16 :=
  Nat.lt_succ_of_le ((byteLength_le_iff m 15).mpr h)

/-- The encoding of an amount with its own length is the shortest, and the only one of
that size. -/
theorem encoding_shortest {len m : ℕ} (h : m < 2 ^ (len * 8)) :
    (encoding (amount m).byteLength m).bits.length ≤ (encoding len m).bits.length ∧
      ((encoding len m).bits.length = (encoding (amount m).byteLength m).bits.length →
        encoding len m = encoding (amount m).byteLength m) := by
  have hle := (byteLength_le_iff m len).mpr h
  rw [length_encoding, length_encoding]
  refine ⟨by omega, fun hlen => ?_⟩
  have heq : len = (amount m).byteLength := by omega
  rw [← heq]

/-- `__init__` admits the integers of 128 bits. -/
theorem create_eq_ok_iff {v : ℤ} {currency : Currency} :
    create v = .ok currency ↔ ∃ m : ℕ, m < 2 ^ 128 ∧ v = m ∧ currency = amount m := by
  have hbits := bitLength_le_iff v 128
  unfold create
  split_ifs with h
  · refine iff_of_false (fun h => by cases h) ?_
    rintro ⟨m, hm, rfl, -⟩
    rw [Int.natAbs_natCast] at hbits
    omega
  · obtain ⟨m, rfl⟩ : ∃ m : ℕ, v = m := Int.eq_ofNat_of_zero_le (by omega)
    rw [Int.natAbs_natCast] at hbits
    constructor
    · rintro ⟨⟩
      exact ⟨m, hbits.mp (by omega), rfl, rfl⟩
    · rintro ⟨n, -, hn, rfl⟩
      rw [amount, ← hn]

theorem create_eq {m : ℕ} (h : m < 2 ^ 120) : create m = .ok (amount m) :=
  create_eq_ok_iff.mpr ⟨m, h.trans (by decide), rfl, rfl⟩

section

variable [NumBigint] [TonTypes] [LawfulNumBigint] [LawfulTonTypes]

/-! ### One direction and the other -/

/-- The reader accepts every length that holds the amount. -/
theorem deserialize_decodes {len m : ℕ} (hlen : len < 16) (hm : m < 2 ^ (len * 8))
    (t : Currency) :
    Decodes SliceData.content deserialize (encoding len m) t (amount m) () := by
  apply ((PySlice.u_reads_uint hlen).decodes t).bind
  by_cases hzero : len = 0
  · subst hzero
    -- the reader takes a zero length for the amount zero, without a further read
    obtain rfl : m = 0 := by simpa using hm
    rw [if_pos rfl]
    exact Decodes.update (setValue 0) t
  · rw [if_neg hzero]
    exact (PySlice.u_reads_uint hm).assign setValue t

/-- The reader accepts nothing else. -/
theorem deserialize_parses (t : Currency) :
    Parses SliceData.content deserialize t fun f t' _ =>
      ∃ len m, len < 16 ∧ m < 2 ^ (len * 8) ∧ f = encoding len m ∧ t' = amount m := by
  refine ((PySlice.u_consumes_uint 4).parses t).bind fun f t' len => ?_
  rintro ⟨rfl, rfl, hlen⟩
  by_cases hzero : len = 0
  · subst hzero
    rw [if_pos rfl]
    apply (Parses.update (setValue 0) _).mono
    rintro f t' _ ⟨rfl, rfl⟩
    exact ⟨0, 0, hlen, Nat.one_pos, rfl, rfl⟩
  · rw [if_neg hzero]
    apply ((PySlice.u_consumes_uint (len * 8)).assign setValue _).mono
    rintro f t' _ ⟨m, ⟨rfl, hm⟩, rfl⟩
    exact ⟨len, m, hlen, hm, rfl, rfl⟩

/-- The writer's length is `byteLength`, also for zero, where it is not computed. -/
theorem serialize_eq {m : ℕ} (hlen : (amount m).byteLength < 16) :
    ∃ b, serialize (amount m) = .ok b ∧
      b.toFragment = encoding (amount m).byteLength m := by
  have hfits := encoding_fits hlen m
  have hlength : PyBuilder.BuilderWrites (PyBuilder.i 4 (amount m).byteLength)
      (TlB.uint 4 (amount m).byteLength) :=
    PyBuilder.i_writes_uint (by decide) (Int.natCast_nonneg _) (by exact_mod_cast hlen)
  unfold serialize
  by_cases hzero : (amount m).value = 0
  · obtain rfl : m = 0 := Int.natCast_eq_zero.mp hzero
    rw [if_pos hzero]
    -- the writer stops after the length, which is zero
    exact ⟨_, PyBuilder.build_eq hlength hfits, rfl⟩
  · have hpos : 1 ≤ (amount m).byteLength * 8 := by
      -- only the amount zero has no bytes
      have hnot := mt (byteLength_le_iff m 0).mp fun hlt => hzero (by
        rw [Nat.lt_one_iff.mp hlt]
        rfl)
      omega
    have hvalue : PyBuilder.BuilderWrites
        (PyBuilder.i ((amount m).byteLength * 8) (amount m).value)
        (TlB.uint ((amount m).byteLength * 8) m) :=
      PyBuilder.i_writes_uint hpos (Int.natCast_nonneg m) (amount_value_lt.mpr (lt_of_byteLength m))
    rw [if_neg hzero, if_pos hlen]
    exact ⟨_, PyBuilder.build_eq (hlength.seq hvalue) hfits, rfl⟩

omit [LawfulNumBigint] [LawfulTonTypes] in
/-- The writer gives up on an amount that takes sixteen bytes or more. -/
theorem serialize_assertion {m : ℕ} (h : 2 ^ 120 ≤ m) :
    serialize (amount m) = .error .assertionError := by
  have hlen : ¬ (amount m).byteLength < 16 := fun hlt =>
    not_lt.mpr h ((byteLength_le_iff m 15).mp (Nat.le_of_lt_succ hlt))
  have hzero : (amount m).value ≠ 0 := by
    intro hzero
    have hm : m = 0 := Int.natCast_eq_zero.mp hzero
    omega
  rw [serialize, if_neg hzero, if_neg hlen]

/-- The code is canonical and self-delimiting below `2 ^ 120`, and the reader stays
there: the amount is written, it is read back whatever follows, no other word that is
read as the same amount is as short, and every amount that is read can be written. -/
theorem serialize_canonical :
    (∀ v : ℤ, 0 ≤ v → v < 2 ^ 120 → ∃ currency b, create v = .ok currency ∧
      currency.value = v ∧ serialize currency = .ok b ∧
      (∀ (t : Currency) (trailing : Fragment) (s : PySlice),
        s.content = b.toFragment * trailing →
          ∃ s', deserialize.exec (t, s) = (.ok (), (currency, s')) ∧ s'.content = trailing) ∧
      (∀ (t : Currency) (f : Fragment) (s s' : PySlice),
        deserialize.exec (t, s) = (.ok (), (currency, s')) → s.content = f * s'.content →
          b.bits.length ≤ f.bits.length ∧
            (f.bits.length = b.bits.length → f = b.toFragment))) ∧
    (∀ (t t' : Currency) (s s' : PySlice), deserialize.exec (t, s) = (.ok (), (t', s')) →
      0 ≤ t'.value ∧ t'.value < 2 ^ 120 ∧ ∃ b, serialize t' = .ok b) := by
  constructor
  · intro v h₀ hv
    obtain ⟨m, rfl⟩ := Int.eq_ofNat_of_zero_le h₀
    have hm : m < 2 ^ 120 := amount_value_lt.mp hv
    have hlen := byteLength_lt hm
    obtain ⟨b, hb, hencoding⟩ := serialize_eq hlen
    refine ⟨amount m, b, create_eq hm, rfl, hb, fun t trailing s hs => ?_,
      fun t f s s' hrun hf => ?_⟩
    · rw [hencoding] at hs
      exact deserialize_decodes hlen (lt_of_byteLength m) t s trailing hs
    · -- whatever was consumed is an encoding of the same amount
      obtain ⟨g, hg, len, n, -, hn, hencoding', hvalue⟩ := deserialize_parses t s _ s' () hrun
      obtain rfl : m = n := Int.ofNat.inj (congrArg value hvalue)
      obtain rfl : f = g := mul_right_cancel (hf.symm.trans hg)
      rw [hencoding', hencoding]
      exact encoding_shortest hn
  · intro t t' s s' hrun
    obtain ⟨f, -, len, m, hlen, hm, -, rfl⟩ := deserialize_parses t s t' s' () hrun
    have hlt : m < 2 ^ 120 := hm.trans_le (Nat.pow_le_pow_right (by decide) (by omega))
    obtain ⟨b, hb, -⟩ := serialize_eq (byteLength_lt hlt)
    exact ⟨Int.natCast_nonneg m, amount_value_lt.mpr hlt, b, hb⟩

end

section Reference

open scoped Reference

/-- The amount 256, the first that needs two bytes. -/
theorem serialize_canonical_256 :
    ∃ currency b, create 256 = .ok currency ∧
      currency.value = 256 ∧ serialize currency = .ok b ∧
      (∀ (t : Currency) (trailing : Fragment) (s : PySlice),
        s.content = b.toFragment * trailing →
          ∃ s', deserialize.exec (t, s) = (.ok (), (currency, s')) ∧ s'.content = trailing) ∧
      (∀ (t : Currency) (f : Fragment) (s s' : PySlice),
        deserialize.exec (t, s) = (.ok (), (currency, s')) → s.content = f * s'.content →
          b.bits.length ≤ f.bits.length ∧
            (f.bits.length = b.bits.length → f = b.toFragment)) :=
  serialize_canonical.1 256 (by decide) (by decide)

end Reference

/-! ### Every amount that can exist -/

section

variable [NumBigint] [TonTypes]

/-- The amount is written, and read back whatever follows. -/
def RoundTrips (currency : Currency) : Prop :=
  ∃ b, serialize currency = .ok b ∧
    ∀ (t : Currency) (trailing : Fragment) (s : PySlice), s.content = b.toFragment * trailing →
      ∃ s', deserialize.exec (t, s) = (.ok (), (currency, s')) ∧ s'.content = trailing

variable [LawfulNumBigint] [LawfulTonTypes]

theorem roundTrips_iff (m : ℕ) : RoundTrips (amount m) ↔ m < 2 ^ 120 := by
  constructor
  · rintro ⟨b, hb, -⟩
    by_contra hm
    rw [serialize_assertion (not_lt.mp hm)] at hb
    cases hb
  · intro hm
    have hlen := byteLength_lt hm
    obtain ⟨b, hb, hencoding⟩ := serialize_eq hlen
    refine ⟨b, hb, fun t trailing s hs => ?_⟩
    rw [hencoding] at hs
    exact deserialize_decodes hlen (lt_of_byteLength m) t s trailing hs

/-- Of the objects that the constructor makes, on its own or from a text, exactly those
below `2 ^ 120` can be written and read back; those that the reader makes always can. -/
theorem roundTrips_iff_lt [Python.Unicode] :
    (∀ (v : ℤ) (currency : Currency), create v = .ok currency →
      (RoundTrips currency ↔ v < 2 ^ 120)) ∧
    (∀ (text : String) (currency : Currency), fromStr text = .ok currency →
      ∃ q, Python.fraction text.toList = .ok q ∧
        (RoundTrips currency ↔ q * factor < 2 ^ 120)) ∧
    (∀ (t t' : Currency) (s s' : PySlice), deserialize.exec (t, s) = (.ok (), (t', s')) →
      RoundTrips t') := by
  have hcreate : ∀ (v : ℤ) (currency : Currency), create v = .ok currency →
      (RoundTrips currency ↔ v < 2 ^ 120) := by
    intro v currency h
    obtain ⟨m, -, rfl, rfl⟩ := create_eq_ok_iff.mp h
    exact (roundTrips_iff m).trans amount_value_lt.symm
  refine ⟨hcreate, fun text currency h => ?_, fun t t' s s' hrun => ?_⟩
  · obtain ⟨q, hq, hv⟩ := exists_of_bind_eq_ok h
    -- the object holds the integer part, which crosses the bound with the rational
    have hlt := Python.truncate_lt_iff (q * factor) (n := 2 ^ 120) (by decide)
    push_cast at hlt
    exact ⟨q, mapError_eq_ok_iff.mp hq, (hcreate _ _ hv).trans hlt⟩
  · obtain ⟨f, -, len, m, hlen, hm, -, rfl⟩ := deserialize_parses t s t' s' () hrun
    have hlt : m < 2 ^ 120 := hm.trans_le (Nat.pow_le_pow_right (by decide) (by omega))
    exact (roundTrips_iff m).mpr hlt

end

section Reference

open scoped Reference Python.Ascii

theorem fromStr_one : fromStr "1" = .ok (amount factor) := by
  have htext : toString (1 : ℤ) = "1" := rfl
  have hfraction := Python.fraction_toString (n := 1) (by decide)
  have hvalue : Python.truncate (((1 : ℤ) : ℚ) * factor) = (factor : ℤ) := by
    rw [Int.cast_one, one_mul, ← Int.cast_natCast, Python.truncate_intCast]
  rw [htext] at hfraction
  rw [fromStr, hfraction]
  change create (Python.truncate (((1 : ℤ) : ℚ) * factor)) = _
  rw [hvalue]
  exact create_eq (by decide)

/-- One coin, made of a number and read from a text. -/
theorem roundTrips_iff_lt_coin :
    (RoundTrips (amount factor) ↔ (factor : ℤ) < 2 ^ 120) ∧
      ∃ q, Python.fraction "1".toList = .ok q ∧
        (RoundTrips (amount factor) ↔ q * factor < 2 ^ 120) := by
  have hcreate : create factor = .ok (amount factor) := create_eq (by decide)
  exact ⟨roundTrips_iff_lt.1 _ _ hcreate, roundTrips_iff_lt.2.1 _ _ fromStr_one⟩

/-- The constructor makes the amount `2 ^ 120`, which the writer refuses. -/
theorem create_not_roundTrips :
    create (2 ^ 120) = .ok (amount (2 ^ 120)) ∧
      serialize (amount (2 ^ 120)) = .error .assertionError ∧
      ¬ RoundTrips (amount (2 ^ 120)) := by
  refine ⟨create_eq_ok_iff.mpr ⟨2 ^ 120, by norm_num, by norm_num, rfl⟩,
    serialize_assertion le_rfl, ?_⟩
  rw [roundTrips_iff]
  exact lt_irrefl _

end Reference

end Currency

end EverPlayground
