import EverPlayground.Slice

/-!
# The `Builder` class

Appending integers, references, slices and other builders at the end of a builder.

Every single append either extends the builder by exactly one fragment or, when that
does not fit a cell, raises and leaves the builder alone. `Builder.i` is the one
method where *which* fragment is a question: `i_writes` answers it for the integers
that have a representation, `i_appends` says what can be said for all of them.
-/

set_option autoImplicit false

namespace EverPlayground

open Math.Positional Math.TwosComplement Semantics Semantics.Cursor

/-- `struct PyBuilder { builder: BuilderData }`. -/
abbrev PyBuilder := BuilderData

namespace PyBuilder

section Methods

variable [NumBigint] [TonTypes]

def s (slice : PySlice) : Mut PyErr PyBuilder Unit :=
  (TonTypes.checkedAppendReferencesAndData slice).mapErr runtimeErr

def b (builder : PyBuilder) : Mut PyErr PyBuilder Unit :=
  (TonTypes.appendBuilder builder).mapErr runtimeErr

def i (bits : ℕ) (integer : ℤ) : Mut PyErr PyBuilder Unit :=
  if bits = 0 then
    throw (.runtimeError "bits must be greater than 0")
  else do
    -- the bytes may hold more than the field; the first `bits` of them are appended
    let bytes ← Mut.ofExcept (intSerialize integer bits)
    (TonTypes.appendRaw bytes bits).mapErr runtimeErr

/-- One turn of the loop of `ib`. -/
def ibDigit (bin : String) (digit : Char) : Mut PyErr PyBuilder Unit :=
  match digit with
  | '0' => TonTypes.appendBitZero.mapErr runtimeErr
  | '1' => TonTypes.appendBitOne.mapErr runtimeErr
  | _ => throw (.runtimeError s!"Failed to parse binary string {bin}")

def ib (bin : String) : Mut PyErr PyBuilder Unit := forM bin.toList (ibDigit bin)

def x (bitstring : String) : Mut PyErr PyBuilder Unit := do
  let slice ← Mut.ofExcept ((TonTypes.fromString bitstring).mapError runtimeErr)
  (TonTypes.checkedAppendReferencesAndData slice).mapErr runtimeErr

def y (bytes : List UInt8) : Mut PyErr PyBuilder Unit := do
  let length := bytes.length * 8
  let bytes ← Mut.ofExcept ((TonTypes.withRaw bytes length).mapError runtimeErr)
  (TonTypes.appendBuilder bytes).mapErr runtimeErr

def r (cell : Cell) : Mut PyErr PyBuilder Unit :=
  (TonTypes.checkedAppendReference cell).mapErr runtimeErr

def fits (self : PyBuilder) (slice : PySlice) (extraBits extraRefs : ℕ) : Bool :=
  TonTypes.checkEnoughSpace self (usizeAdd slice.remainingBits extraBits) &&
    TonTypes.checkEnoughRefs self (usizeAdd slice.remainingReferences extraRefs)

def slice (self : PyBuilder) : Except PyErr PySlice :=
  (TonTypes.loadBuilder self).mapError runtimeErr

def finalize (self : PyBuilder) : Except PyErr Cell :=
  (TonTypes.intoCell self).mapError runtimeErr

/-- The builder a chain of calls on `Builder()` returns. -/
def build (x : Mut PyErr PyBuilder Unit) : Except PyErr PyBuilder := x.result BuilderData.new

end Methods

/-! ### Appending a fragment -/

/-- Writing to a builder, as a cursor. -/
abbrev BuilderWrites (x : Mut PyErr PyBuilder Unit) (f : Fragment) : Prop :=
  Writes BuilderData.toFragment Fragment.Fits x f ()

/-- Two calls in a row write one fragment after the other. -/
theorem BuilderWrites.seq {x y : Mut PyErr PyBuilder Unit} {f g : Fragment}
    (hx : BuilderWrites x f) (hy : BuilderWrites y g) :
    BuilderWrites (do x; y) (f * g) :=
  Writes.bind Fragment.Fits.left hx hy

theorem writes_of_appends {x : Mut Error BuilderData Unit} {f : Fragment}
    (h : BuilderData.Appends x f) : BuilderWrites (x.mapErr runtimeErr) f :=
  fun b hfits => ⟨_, Mut.exec_mapErr_eq_ok_iff.mpr (h.fits b hfits), rfl⟩

/-- What a chain of calls writes on a fresh builder is the content of the result. -/
theorem build_eq {x : Mut PyErr PyBuilder Unit} {f : Fragment} (h : BuilderWrites x f)
    (hfits : f.Fits) : build x = .ok ⟨f, hfits⟩ := by
  -- the content of a fresh builder is the unit
  obtain ⟨b, hrun, hb⟩ := h BuilderData.new (by rwa [BuilderData.new_toFragment, one_mul])
  rw [BuilderData.new_toFragment, one_mul] at hb
  rw [build, Mut.result_eq hrun]
  exact congrArg Except.ok (BuilderData.eq_of_toFragment_eq hb)

variable [TonTypes] [LawfulTonTypes]

theorem b_writes (builder : PyBuilder) : BuilderWrites (b builder) builder.toFragment :=
  writes_of_appends (LawfulTonTypes.appendBuilder builder)

theorem r_writes (cell : Cell) : BuilderWrites (r cell) (.ofRef cell) :=
  writes_of_appends (LawfulTonTypes.checkedAppendReference cell)

theorem slice_eq (self : PyBuilder) :
    ∃ s, slice self = .ok s ∧ s.content = self.toFragment := by
  obtain ⟨s, hload, hs⟩ := LawfulTonTypes.loadBuilder self
  exact ⟨s, by rw [slice, hload]; rfl, hs⟩

theorem finalize_eq (self : PyBuilder) : finalize self = .ok (Cell.ordinary self) := by
  rw [finalize, LawfulTonTypes.intoCell]
  rfl

/-- The cell that a builder becomes is opened with the content of the builder. -/
theorem create_ordinary_eq (self : PyBuilder) :
    ∃ s, PySlice.create (Cell.ordinary self) = .ok s ∧ s.content = self.toFragment :=
  ⟨_, PySlice.create_eq (Cell.ordinary_exotic self), by ext1 <;> simp⟩

/-- `Slice(b.finalize())` shows the content of the builder. -/
theorem create_finalize_eq (self : PyBuilder) :
    ∃ c s, finalize self = .ok c ∧ PySlice.create c = .ok s ∧ s.content = self.toFragment := by
  obtain ⟨s, hcreate, hcontent⟩ := create_ordinary_eq self
  exact ⟨_, s, finalize_eq self, hcreate, hcontent⟩

/-! ### Integer fields -/

variable [NumBigint]

omit [LawfulTonTypes] in
/-- `Builder.i` appends the front of the buffer that the encoder makes. -/
theorem i_eq_appendRaw {bits : ℕ} {n : ℤ} {buf : List UInt8} (hbits : 1 ≤ bits)
    (hbuf : intSerialize n bits = .ok buf) :
    i bits n = (TonTypes.appendRaw buf bits).mapErr runtimeErr := by
  rw [i, if_neg (by omega), hbuf]
  exact Mut.ext fun _ => Mut.exec_bind_ok rfl

/-- For a positive width `Builder.i` is one append of exactly that many bits, whatever
the integer. -/
theorem i_appends {bits : ℕ} (hbits : 1 ≤ bits) (n : ℤ) :
    ∃ x w, w.length = bits ∧ BuilderData.Appends x (.ofBits w) ∧
      i bits n = x.mapErr runtimeErr := by
  obtain ⟨buf, hbuf, hlen⟩ := le_length_intSerialize n bits
  have hi := i_eq_appendRaw hbits hbuf
  by_cases hle : bits ≤ 8 * buf.length
  · refine ⟨_, _, ?_, LawfulTonTypes.appendRaw buf bits hle, hi⟩
    rw [List.length_take, length_bytesToBits]
    omega
  · -- the buffer is short only for widths that no cell has room for
    have hwide : maxBits < bits := by
      have hwrap := mt hlen hle
      rw [maxBits]
      omega
    refine ⟨_, List.replicate bits false, List.length_replicate, ?_, hi⟩
    constructor
    · intro b hfits
      have hbits := (BuilderData.fits_mul_ofBits_iff b _).mp hfits
      rw [List.length_replicate] at hbits
      omega
    · intro b _
      exact LawfulTonTypes.appendRaw_short buf bits b (not_le.mp hle)

variable [LawfulNumBigint]

theorem i_writes {bits : ℕ} {n : ℤ} (hbits : 1 ≤ bits) (h : Representable bits n) :
    BuilderWrites (i bits n) (.ofBits (twos bits n)) := by
  intro b hfits
  -- a width that fits a cell is far from the wrap-around
  have hwidth : bits ≤ maxBits := by
    have hlen := (BuilderData.fits_mul_ofBits_iff b _).mp hfits
    rw [length_twos] at hlen
    omega
  have husize : bits + 7 < 2 ^ 64 := by
    rw [maxBits] at hwidth
    omega
  obtain ⟨buf, hbuf, hlen, hbits'⟩ := intSerialize_of_representable husize hbits h
  have hle : bits ≤ 8 * buf.length := by
    have hpadding := bits_add_padding bits
    omega
  -- the field is the front of the buffer; the padding behind it is not appended
  have happ := writes_of_appends (LawfulTonTypes.appendRaw buf bits hle)
  rw [hbits', List.take_left' (length_twos bits n)] at happ
  rw [i_eq_appendRaw hbits hbuf]
  exact happ b hfits

/-- Any integer is written as some word of the width. -/
theorem i_writes_word {bits : ℕ} (hbits : 1 ≤ bits) (n : ℤ) :
    ∃ w, w.length = bits ∧ (Representable bits n → w = twos bits n) ∧
      BuilderWrites (i bits n) (.ofBits w) := by
  by_cases h : Representable bits n
  · exact ⟨_, length_twos bits n, fun _ => rfl, i_writes hbits h⟩
  · obtain ⟨x, w, hw, happ, hi⟩ := i_appends hbits n
    exact ⟨w, hw, fun h' => absurd h' h, hi ▸ writes_of_appends happ⟩

theorem i_writes_uint {bits : ℕ} {n : ℤ} (hbits : 1 ≤ bits) (h₀ : 0 ≤ n) (h : n < 2 ^ bits) :
    BuilderWrites (i bits n) (TlB.uint bits n.toNat) := by
  have hpow : (0 : ℤ) < 2 ^ (bits - 1) := by positivity
  have hwrites := i_writes hbits ⟨by omega, h⟩
  rwa [twos, Int.emod_eq_of_lt h₀ h] at hwrites

/-- A bit written as an integer. -/
theorem i_one_writes (bit : Bool) : BuilderWrites (i 1 bit.toInt) (.ofBits [bit]) := by
  have hbit : Representable 1 bit.toInt := by cases bit <;> decide
  have htwos : twos 1 bit.toInt = [bit] := by cases bit <;> decide
  have h := i_writes le_rfl hbit
  rwa [htwos] at h

end PyBuilder

end EverPlayground
