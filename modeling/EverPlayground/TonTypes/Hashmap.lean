import Mathlib.Data.Finset.Card
import Mathlib.Data.Nat.Size
import Mathlib.Logic.Function.Basic
import EverPlayground.TonTypes.Interface

/-!
# Dictionaries of the crate

`HashmapE` of `ton_types` is a finite map on keys of a fixed width. It is a tree of cells
whose edges carry labels; the value at a key is what is left of a leaf cell behind its
label, and comes as a window on that cell.

Which cells represent which map is left to the crate. A dictionary is known by how it was
made: from the empty one, by calls that stored values.

## Main definitions

* `TonHashmaps`, `LawfulTonHashmaps` — the functions and their documented behaviour
* `HashmapE.Made` — a dictionary made by calls, with the entries it then has
* `TonHashmapCalls`, `LawfulTonHashmapCalls` — the calls that count the values, store a
  reference, and cut a key off a slice
-/

set_option autoImplicit false

namespace EverPlayground

open Semantics

/-- The functions of `HashmapE` that the package calls. -/
class TonHashmaps where
  withBitLen : ℕ → HashmapE
  get : HashmapE → SliceData → Except Error (Option SliceData)
  set : (key value : SliceData) → Mut Error HashmapE Unit

/-- The length of the longest label in a tree with keys of `n` bits: a constructor of two
bits, the length of the label, and the label. -/
def maxLabelBits (n : ℕ) : ℕ := n + n.size + 2

/-- The key has the width of the dictionary, which is not zero, and the value has room in a
leaf behind any label. -/
def HashmapE.Stores (map : HashmapE) (key value : SliceData) : Prop :=
  0 < map.bitLen ∧ key.bits.length = map.bitLen ∧
    value.bits.length + maxLabelBits map.bitLen ≤ maxBits

/-- The dictionary was made by storing these entries. -/
inductive HashmapE.Made [TonHashmaps] : HashmapE → (List Bool → Option Fragment) → Prop
  | withBitLen (bits : ℕ) : Made (TonHashmaps.withBitLen bits) fun _ => none
  | set {map map' : HashmapE} {entries : List Bool → Option Fragment} {key value : SliceData} :
      Made map entries → map.Stores key value →
        (TonHashmaps.set key value).exec map = (.ok (), map') →
          Made map' (Function.update entries key.bits (some value.content))

/-- The documented behaviour of `HashmapE`. -/
class LawfulTonHashmaps [TonHashmaps] : Prop where
  withBitLen : ∀ bits, (TonHashmaps.withBitLen bits).bitLen = bits
  set : ∀ (map : HashmapE) entries (key value : SliceData), map.Made entries →
    map.Stores key value →
      ∃ map', (TonHashmaps.set key value).exec map = (.ok (), map') ∧ map'.bitLen = map.bitLen
  get : ∀ (map : HashmapE) entries (key : SliceData), map.Made entries → 0 < map.bitLen →
    key.bits.length = map.bitLen →
      ∃ value, TonHashmaps.get map key = .ok value ∧
        value.map SliceData.content = entries key.bits
  /-- The value is all of the leaf behind its label, and no label is empty. -/
  get_window : ∀ (map : HashmapE) (key value : SliceData),
    TonHashmaps.get map key = .ok (some value) → 0 < value.bitStart ∧ value.ToEnd

/-! ### Further calls -/

class TonHashmapCalls where
  count : HashmapE → Except Error ℕ
  setRef : (key : SliceData) → Cell → Mut Error HashmapE Unit
  getNextSlice : ℕ → Mut Error SliceData SliceData

/-- The documented behaviour of the further calls, and of keys of a wrong width. -/
class LawfulTonHashmapCalls [TonHashmaps] [TonHashmapCalls] : Prop where
  set_width : ∀ (map : HashmapE) (key value : SliceData), key.bits.length ≠ map.bitLen →
    (TonHashmaps.set key value).Raises map
  get_width : ∀ (map : HashmapE) (key : SliceData), key.bits.length ≠ map.bitLen →
    ∃ e, TonHashmaps.get map key = .error e
  /-- There is a root as soon as there is a value. -/
  data_eq_none_iff : ∀ (map : HashmapE) entries, map.Made entries →
    (map.data = none ↔ ∀ key, entries key = none)
  count : ∀ (map : HashmapE) entries, map.Made entries →
    ∃ keys : Finset (List Bool), (∀ key, key ∈ keys ↔ entries key ≠ none) ∧
      TonHashmapCalls.count map = .ok keys.card
  /-- A reference is stored like a value that consists of it. -/
  setRef : ∀ (map : HashmapE) entries (key value : SliceData) cell, map.Made entries →
    0 < map.bitLen → value.content = .ofRef cell →
      (TonHashmapCalls.setRef key cell).exec map = (TonHashmaps.set key value).exec map
  getNextSlice : ∀ (s : SliceData) n, n ≤ s.bits.length →
    ∃ key s', (TonHashmapCalls.getNextSlice n).exec s = (.ok key, s') ∧
      key.bits = s.bits.take n ∧ s.Advances (.ofBits (s.bits.take n)) s'
  getNextSlice_short : ∀ (s : SliceData) n, n + maxBits < 2 ^ 64 → s.bits.length < n →
    (TonHashmapCalls.getNextSlice n).Raises s

end EverPlayground
