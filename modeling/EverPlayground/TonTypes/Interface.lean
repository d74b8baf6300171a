import EverPlayground.Math.TwosComplement
import EverPlayground.Semantics.Mutation
import EverPlayground.TonTypes.Cell

/-!
# The crates under the package

The package calls two crates whose sources are not part of the repository:
`ton_types` for cells and `num-bigint` for the byte conversions of big integers.
Their functions are parameters, gathered in one class per crate; what the package
relies on is a second, propositional class, one field per documented fact.

The capacity of a cell is the only bound of `ton_types` recorded here; its cap on
the nesting depth of references is not.

## Main definitions

* `NumBigint`, `LawfulNumBigint`
* `TonTypes`, `LawfulTonTypes`, `LawfulTonWindows`, `LawfulHexStrings`, `LawfulLoad`
* `BuilderData.Appends` — appending exactly a fragment, or leaving the builder alone
-/

set_option autoImplicit false

namespace EverPlayground

open Math.Positional Math.TwosComplement Semantics

/-- The bits of a byte string, most significant first. -/
def bytesToBits (bytes : List UInt8) : List Bool := expand 8 bytes

theorem length_bytesToBits (bytes : List UInt8) :
    (bytesToBits bytes).length = 8 * bytes.length := length_expand 8 bytes

theorem bytesToBits_append (u v : List UInt8) :
    bytesToBits (u ++ v) = bytesToBits u ++ bytesToBits v := expand_append 8 u v

theorem value_bytesToBits (bytes : List UInt8) : value (bytesToBits bytes) = value bytes :=
  value_expand rfl bytes

/-! ### num-bigint -/

/-- The byte conversions of `num_bigint::{BigInt, BigUint}`. -/
class NumBigint where
  toBytesBe : ℕ → List UInt8
  toSignedBytesBe : ℤ → List UInt8
  fromBytesBe : List UInt8 → ℕ
  fromSignedBytesBe : List UInt8 → ℤ

/-- The conversions are big-endian, in two's complement where signed, and produce
the shortest nonempty representation. -/
class LawfulNumBigint [NumBigint] : Prop where
  fromBytesBe_eq : ∀ bytes : List UInt8, NumBigint.fromBytesBe bytes = value bytes
  fromSignedBytesBe_eq : ∀ bytes : List UInt8,
    NumBigint.fromSignedBytesBe bytes = signed (bytesToBits bytes)
  toBytesBe_value : ∀ n, value (NumBigint.toBytesBe n) = n
  toBytesBe_ne_nil : ∀ n, NumBigint.toBytesBe n ≠ []
  toBytesBe_shortest : ∀ n (bytes : List UInt8), bytes ≠ [] → value bytes = n →
    (NumBigint.toBytesBe n).length ≤ bytes.length
  toSignedBytesBe_signed : ∀ n, signed (bytesToBits (NumBigint.toSignedBytesBe n)) = n
  toSignedBytesBe_ne_nil : ∀ n, NumBigint.toSignedBytesBe n ≠ []
  toSignedBytesBe_shortest : ∀ n (bytes : List UInt8), bytes ≠ [] → signed (bytesToBits bytes) = n →
    (NumBigint.toSignedBytesBe n).length ≤ bytes.length

/-! ### ton_types -/

/-- `ton_types::Error`, of which the package only uses the text. -/
structure Error where
  message : String

/-- The functions of `ton_types` that the package calls. -/
class TonTypes where
  -- BuilderData
  appendRaw : List UInt8 → ℕ → Mut Error BuilderData Unit
  appendBitZero : Mut Error BuilderData Unit
  appendBitOne : Mut Error BuilderData Unit
  appendBuilder : BuilderData → Mut Error BuilderData Unit
  checkedAppendReference : Cell → Mut Error BuilderData Unit
  checkedAppendReferencesAndData : SliceData → Mut Error BuilderData Unit
  withRaw : List UInt8 → ℕ → Except Error BuilderData
  checkEnoughSpace : BuilderData → ℕ → Bool
  checkEnoughRefs : BuilderData → ℕ → Bool
  intoCell : BuilderData → Except Error Cell
  -- SliceData
  loadBuilder : BuilderData → Except Error SliceData
  loadCell : Cell → Except Error SliceData
  fromString : String → Except Error SliceData
  asBuilder : SliceData → BuilderData
  getNextBit : Mut Error SliceData Bool
  getNextBits : ℕ → Mut Error SliceData (List UInt8)
  moveBy : ℕ → Mut Error SliceData Unit
  checkedDrainReference : Mut Error SliceData Cell
  reference : SliceData → ℕ → Except Error Cell
  -- Cell
  toHexString : Cell → (lower : Bool) → String
  -- HashmapE
  writeHashmapData : HashmapE → Mut Error BuilderData Unit

/-- The call appends exactly `f` where that fits; otherwise it raises and leaves the
builder as it was. -/
structure BuilderData.Appends (x : Mut Error BuilderData Unit) (f : Fragment) : Prop where
  fits : ∀ (b : BuilderData) (h : (b.toFragment * f).Fits), x.exec b = (.ok (), ⟨_, h⟩)
  overflow : ∀ b : BuilderData, ¬ (b.toFragment * f).Fits → x.Raises b

/-- The bit that tells whether a dictionary has a root, followed by the root. -/
def HashmapE.fragment (map : HashmapE) : Fragment :=
  match map.data with
  | none => .ofBits [false]
  | some root => .ofBits [true] * .ofRef root

/-- The documented behaviour of `ton_types`. -/
class LawfulTonTypes [TonTypes] : Prop where
  appendRaw : ∀ (buf : List UInt8) bits, bits ≤ 8 * buf.length →
    BuilderData.Appends (TonTypes.appendRaw buf bits) (.ofBits ((bytesToBits buf).take bits))
  appendRaw_short : ∀ (buf : List UInt8) bits b, 8 * buf.length < bits →
    (TonTypes.appendRaw buf bits).Raises b
  appendBitZero : BuilderData.Appends TonTypes.appendBitZero (.ofBits [false])
  appendBitOne : BuilderData.Appends TonTypes.appendBitOne (.ofBits [true])
  appendBuilder : ∀ b : BuilderData, BuilderData.Appends (TonTypes.appendBuilder b) b.toFragment
  checkedAppendReference : ∀ c, BuilderData.Appends (TonTypes.checkedAppendReference c) (.ofRef c)
  checkedAppendReferencesAndData : ∀ s : SliceData,
    BuilderData.Appends (TonTypes.checkedAppendReferencesAndData s) s.content
  withRaw : ∀ (buf : List UInt8) bits, bits ≤ 8 * buf.length → bits ≤ maxBits →
    ∃ b, TonTypes.withRaw buf bits = .ok b ∧ b.toFragment = .ofBits ((bytesToBits buf).take bits)
  withRaw_overflow : ∀ (buf : List UInt8) bits, maxBits < bits →
    ∃ e, TonTypes.withRaw buf bits = .error e
  checkEnoughSpace : ∀ b n, TonTypes.checkEnoughSpace b n = true ↔ b.bits.length + n ≤ maxBits
  checkEnoughRefs : ∀ b n, TonTypes.checkEnoughRefs b n = true ↔ b.refs.length + n ≤ maxRefs
  intoCell : ∀ b, TonTypes.intoCell b = .ok (Cell.ordinary b)
  loadBuilder : ∀ b, ∃ s, TonTypes.loadBuilder b = .ok s ∧ s.content = b.toFragment
  loadCell : ∀ c : Cell, c.exotic = false → TonTypes.loadCell c = .ok (SliceData.ofCell c)
  asBuilder : ∀ s : SliceData, (TonTypes.asBuilder s).toFragment = s.content
  getNextBit : ∀ (s : SliceData) b w, s.bits = b :: w →
    ∃ s', TonTypes.getNextBit.exec s = (.ok b, s') ∧ s.Advances (.ofBits [b]) s'
  getNextBit_empty : ∀ s : SliceData, s.bits = [] → TonTypes.getNextBit.Raises s
  /-- The next bits come left-aligned in just enough bytes. -/
  getNextBits : ∀ (s : SliceData) n, n ≤ s.bits.length →
    ∃ buf pad s', (TonTypes.getNextBits n).exec s = (.ok buf, s') ∧
      buf.length = (n + 7) / 8 ∧ bytesToBits buf = s.bits.take n ++ pad ∧
      s.Advances (.ofBits (s.bits.take n)) s'
  getNextBits_short : ∀ (s : SliceData) n, s.bits.length < n → (TonTypes.getNextBits n).Raises s
  checkedDrainReference : ∀ (s : SliceData) c rs, s.refs = c :: rs →
    ∃ s', TonTypes.checkedDrainReference.exec s = (.ok c, s') ∧ s.Advances (.ofRef c) s'
  checkedDrainReference_empty : ∀ s : SliceData, s.refs = [] →
    TonTypes.checkedDrainReference.Raises s
  toHexString_chars : ∀ c, ∀ ch ∈ (TonTypes.toHexString c true).toList,
    ch.isHexDigit = true ∨ ch = '_'
  fromString_toHexString : ∀ c, ∃ s, TonTypes.fromString (TonTypes.toHexString c true) = .ok s ∧
    s.content = .ofBits c.data
  writeHashmapData : ∀ map : HashmapE,
    BuilderData.Appends (TonTypes.writeHashmapData map) map.fragment

/-- The sum of two machine words, wrapping around. -/
def usizeAdd (m n : ℕ) : ℕ := (m + n) % 2 ^ 64

theorem usizeAdd_of_lt {m n : ℕ} (h : m + n < 2 ^ 64) : usizeAdd m n = m + n := Nat.mod_eq_of_lt h

/-- Two methods of a slice add their argument, a machine word, to the position of the slice
in its cell, and check the sum. -/
class LawfulTonWindows [TonTypes] : Prop where
  moveBy : ∀ (s : SliceData) n, n < 2 ^ 64 → ∀ h : usizeAdd s.bitStart n ≤ s.bitEnd,
    (TonTypes.moveBy n).exec s = (.ok (), s.startAt _ h)
  moveBy_past : ∀ (s : SliceData) n, n < 2 ^ 64 → s.bitEnd < usizeAdd s.bitStart n →
    (TonTypes.moveBy n).Raises s
  reference : ∀ (s : SliceData) i, i < 2 ^ 64 → ∀ h : usizeAdd s.refStart i < s.refEnd,
    TonTypes.reference s i = .ok (s.cell.refs.get ⟨_, h.trans_le s.refEnd_le⟩)
  reference_past : ∀ (s : SliceData) i, i < 2 ^ 64 → s.refEnd ≤ usizeAdd s.refStart i →
    ∃ e, TonTypes.reference s i = .error e

/-- A string of hexadecimal digits stands for four bits a digit. -/
class LawfulHexStrings [TonTypes] : Prop where
  fromString_digits : ∀ ds : List (Fin 16), 4 * ds.length ≤ maxBits →
    ∃ s, TonTypes.fromString (.ofList (ds.map fun d : Fin 16 => Nat.digitChar d)) = .ok s ∧
      s.content = .ofBits (expand 4 ds)

/-- A slice that is made from a cell or from a builder shows the whole of it. Whether an
exotic cell can be made into a slice at all is left open. -/
class LawfulLoad [TonTypes] : Prop where
  loadCell : ∀ c s, TonTypes.loadCell c = .ok s → s = SliceData.ofCell c
  loadBuilder : ∀ b s, TonTypes.loadBuilder b = .ok s → s = SliceData.ofCell (Cell.ordinary b)

end EverPlayground
