import EverPlayground.Dictionary
import EverPlayground.Semantics.Store
import EverPlayground.TonTypes.HashmapReference

/-!
# Storing in a dictionary

A dictionary is filled by three calls: with a key and a value, with a key and a cell, or
with one slice that begins with the key. A caller who catches what they raise has a finite
map with the last value stored under each key, before and after the dictionary has been
through a cell.

## Main definitions

* `PyDictionary.Op` — the calls; `Op.parts` is the key and the value that a call stores
* `PyDictionary.Shows` — what the methods say about a dictionary with given entries

## Main results

* `PyDictionary.run_shows` — the dictionary that a run of calls leaves
-/

set_option autoImplicit false

namespace EverPlayground

open Semantics Semantics.Cursor

namespace PyDictionary

/-- A call that stores. -/
inductive Op where
  | add (key value : PySlice)
  | addRef (key : PySlice) (value : Cell)
  | addKvSlice (keyBits : ℕ) (slice : PySlice)

namespace Op

def call [TonHashmaps] [TonHashmapCalls] : Op → Mut PyErr PyDictionary PUnit
  | add key value => PyDictionary.add key value
  | addRef key value => PyDictionary.addRef key value
  | addKvSlice keyBits slice => PyDictionary.addKvSlice keyBits slice

/-- The key and the value of the call; a slice may be too short to have a key. -/
def parts : Op → Option (List Bool × Fragment)
  | add key value => some (key.bits, value.content)
  | addRef key value => some (key.bits, .ofRef value)
  | addKvSlice keyBits slice =>
    if keyBits ≤ slice.bits.length then
      some (slice.bits.take keyBits, ⟨slice.bits.drop keyBits, slice.refs⟩)
    else none

/-- What the call stores in a dictionary with keys of `bits` bits. -/
def entry (bits : ℕ) (op : Op) : Option (List Bool × Fragment) :=
  op.parts.filter fun p => p.1.length = bits

/-- The value has room in a leaf behind any label. -/
def Room (bits : ℕ) (op : Op) : Prop :=
  ∀ p ∈ op.parts, p.2.bits.length + maxLabelBits bits ≤ maxBits

/-- The number of bits to cut off is not among the largest machine words. -/
def InRange : Op → Prop
  | add _ _ => True
  | addRef _ _ => True
  | addKvSlice keyBits _ => keyBits + maxBits < 2 ^ 64

end Op

/-- What the methods say about a dictionary with the given entries. -/
structure Shows [TonHashmaps] [TonHashmapCalls] (map : PyDictionary) (bits : ℕ)
    (entries : List Bool → Option Fragment) : Prop where
  get : ∀ key : PySlice, key.bits.length = bits →
    ∃ found, PyDictionary.get map key = .ok found ∧ found.map SliceData.content = entries key.bits
  get_width : ∀ key : PySlice, key.bits.length ≠ bits → ∃ e, PyDictionary.get map key = .error e
  len : ∃ keys : Finset (List Bool), (∀ key, key ∈ keys ↔ entries key ≠ none) ∧
    PyDictionary.len map = .ok keys.card
  cell : (∃ root, PyDictionary.cell map = .ok root) ↔ ∃ key, entries key ≠ none

theorem cell_returns_iff (self : PyDictionary) :
    (∃ root, cell self = .ok root) ↔ self.data ≠ none := by
  unfold cell
  cases self.data <;> simp

section

variable [TonHashmaps] [TonHashmapCalls] [LawfulTonHashmaps] [LawfulTonHashmapCalls]

/-- A dictionary with keys of `bits` bits that was made with these entries. -/
def Holds (bits : ℕ) (map : PyDictionary) (entries : List Bool → Option Fragment) : Prop :=
  map.bitLen = bits ∧ map.Made entries

/-! ### One call -/

omit [LawfulTonHashmaps] in
/-- A call with a key and a value stores these. -/
theorem Op.call_eq_add {op : Op} {key : List Bool} {f : Fragment} (h : op.parts = some (key, f))
    {map : PyDictionary} {entries : List Bool → Option Fragment} (hmade : map.Made entries)
    (hpos : 0 < map.bitLen) :
    ∃ k v : PySlice, k.bits = key ∧ v.content = f ∧
      op.call.exec map = (PyDictionary.add k v).exec map := by
  cases op with
  | add k v =>
    cases h
    exact ⟨k, v, rfl, rfl, rfl⟩
  | addRef k c =>
    cases h
    have hfits := (Fragment.within_ofRef c).fits (Nat.zero_le maxBits) (by decide)
    have hcontent : (SliceData.ofCell (.ordinary ⟨_, hfits⟩)).content = .ofRef c := by
      ext1 <;> simp
    refine ⟨k, _, rfl, hcontent, ?_⟩
    change ((TonHashmapCalls.setRef k c).mapErr runtimeErr).exec map = _
    rw [Mut.exec_mapErr, LawfulTonHashmapCalls.setRef map entries k _ c hmade hpos hcontent]
    rfl
  | addKvSlice n s =>
    rw [parts, Option.ite_none_right_eq_some] at h
    obtain ⟨hn, h⟩ := h
    cases h
    obtain ⟨k, v, hcut, hk, hcontent, -⟩ := LawfulTonHashmapCalls.getNextSlice s n hn
    have hbits : s.bits = s.bits.take n ++ v.bits := congrArg Fragment.bits hcontent
    have hrefs : s.refs = v.refs := congrArg Fragment.refs hcontent
    refine ⟨k, v, hk, Fragment.ext ?_ hrefs.symm, ?_⟩
    · rw [← List.append_cancel_left (hbits.symm.trans (List.take_append_drop n s.bits).symm)]
      rfl
    · change (PyDictionary.addKvSlice n s).exec map = _
      rw [PyDictionary.addKvSlice, hcut]
      rfl

omit [LawfulTonHashmaps] in
/-- A slice that is too short has no key. -/
theorem Op.call_raises {op : Op} (h : op.parts = none) (hrange : op.InRange)
    (map : PyDictionary) : op.call.Raises map := by
  cases op with
  | add k v => cases h
  | addRef k c => cases h
  | addKvSlice n s =>
    rw [parts, ite_eq_right_iff] at h
    have hshort : s.bits.length < n := by
      by_contra hle
      cases h (not_lt.mp hle)
    obtain ⟨e, hcut⟩ := LawfulTonHashmapCalls.getNextSlice_short s n hrange hshort
    refine ⟨runtimeErr e, ?_⟩
    change (PyDictionary.addKvSlice n s).exec map = _
    rw [PyDictionary.addKvSlice, hcut]
    rfl

/-- One call stores its entry, and is refused where its key has not the right width. -/
theorem Op.keepsEntry {bits : ℕ} (hpos : 0 < bits) {op : Op} (hroom : op.Room bits)
    (hrange : op.InRange) :
    KeepsEntry call (Holds bits) op (op.entry bits) := by
  rintro map entries ⟨rfl, hmade⟩
  rw [entry]
  cases hparts : op.parts with
  | none => exact call_raises hparts hrange map
  | some p =>
    obtain ⟨key, f⟩ := p
    obtain ⟨k, v, rfl, rfl, hcall⟩ := call_eq_add hparts hmade hpos
    by_cases hwidth : k.bits.length = map.bitLen
    · rw [Option.filter_some, if_pos (decide_eq_true hwidth)]
      have hstores : map.Stores k v := ⟨hpos, hwidth, hroom _ hparts⟩
      obtain ⟨map', hset, hlen⟩ := LawfulTonHashmaps.set map entries k v hmade hstores
      refine ⟨map', ?_, hlen, hmade.set hstores hset⟩
      rw [hcall]
      exact Mut.exec_mapErr_eq_ok_iff.mpr hset
    · rw [Option.filter_some, if_neg (by simpa using hwidth)]
      obtain ⟨e, hraise⟩ := (LawfulTonHashmapCalls.set_width map k v hwidth).mapErr runtimeErr
      exact ⟨e, hcall.trans hraise⟩

/-! ### A run -/

theorem Holds.shows {bits : ℕ} {map : PyDictionary} {entries : List Bool → Option Fragment}
    (h : Holds bits map entries) (hpos : 0 < bits) : Shows map bits entries := by
  obtain ⟨rfl, hmade⟩ := h
  constructor
  case get =>
    intro key hkey
    obtain ⟨found, hget, hfound⟩ := LawfulTonHashmaps.get map entries key hmade hpos hkey
    exact ⟨found, mapError_eq_ok_iff.mpr hget, hfound⟩
  case get_width =>
    intro key hkey
    obtain ⟨e, hget⟩ := LawfulTonHashmapCalls.get_width map key hkey
    exact ⟨runtimeErr e, by rw [PyDictionary.get, hget]; rfl⟩
  case len =>
    obtain ⟨keys, hkeys, hcount⟩ := LawfulTonHashmapCalls.count map entries hmade
    exact ⟨keys, hkeys, mapError_eq_ok_iff.mpr hcount⟩
  case cell =>
    rw [cell_returns_iff, ne_eq, LawfulTonHashmapCalls.data_eq_none_iff map entries hmade,
      not_forall]

variable [TonTypes] [LawfulTonTypes]

/-- After any run of calls on a new dictionary whose keys have some width, with every
exception caught, the calls that returned are those whose key has the width of the
dictionary. The methods show the last value stored under each key, and so they do after the
dictionary has been written behind and in front of any other content, and read back with the
same width. -/
theorem run_shows (bits : ℕ) (hpos : 0 < bits) (ops : List Op) (hroom : ∀ op ∈ ops, op.Room bits)
    (hrange : ∀ op ∈ ops, op.InRange) :
    ∃ map, attempts Op.call ops (create bits) = (ops.filter fun op => (op.entry bits).isSome, map) ∧
      Shows map bits (lastWrite (Op.entry bits) ops) ∧
      ∃ b, serialize map = .ok b ∧
        ∀ s rest, s.content = b.toFragment * rest →
          ∃ s' map', (deserialize bits).exec s = (.ok map', s') ∧ s'.content = rest ∧
            Shows map' bits (lastWrite (Op.entry bits) ops) := by
  have hstart : Holds bits (create bits) fun _ => none :=
    ⟨LawfulTonHashmaps.withBitLen bits, .withBitLen bits⟩
  have hkeeps : ∀ op ∈ ops, KeepsEntry Op.call (Holds bits) op (Op.entry bits op) :=
    fun op hop => Op.keepsEntry hpos (hroom op hop) (hrange op hop)
  obtain ⟨hholds, hreturned⟩ := holds_attempts hkeeps hstart
  simp only [Option.or_none] at hholds
  obtain ⟨b, hserialize, hb⟩ := serialize_eq (attempts Op.call ops (create bits)).2
  refine ⟨_, Prod.ext hreturned rfl, hholds.shows hpos, b, hserialize, fun s rest hs => ?_⟩
  have hreads := deserialize_reads (attempts Op.call ops (create bits)).2
  rw [hholds.1, ← hb] at hreads
  obtain ⟨s', hrun, hrest⟩ := hreads s rest hs
  exact ⟨s', _, hrun, hrest, hholds.shows hpos⟩

end

section Reference

open scoped Reference

theorem pair_fits : (Fragment.ofBits [true, false]).Fits := by
  decide

/-- A slice of two bits, the first of which can be a key. -/
def pair : PySlice := .ofCell (.ordinary ⟨.ofBits [true, false], pair_fits⟩)

/-- The first bit alone. -/
def pairKey : PySlice := Reference.cutBits pair 1 (by decide)

/-- A value is stored, a key of two bits is refused, and the value is replaced by a cell. -/
def pairOps : List Op := [.addKvSlice 1 pair, .add pair pair, .addRef pairKey pair.cell]

theorem pairOps_room : ∀ op ∈ pairOps, op.Room 1 := by
  simp only [pairOps, List.forall_mem_cons]
  refine ⟨?_, ?_, ?_, nofun⟩
  · rintro _ ⟨rfl⟩
    decide
  · rintro _ ⟨rfl⟩
    decide
  · rintro _ ⟨rfl⟩
    decide

theorem pairOps_inRange : ∀ op ∈ pairOps, op.InRange := by
  simp [pairOps, Op.InRange, maxBits]

theorem run_shows_pair :
    ∃ map, attempts Op.call pairOps (create 1) =
        (pairOps.filter fun op => (op.entry 1).isSome, map) ∧
      Shows map 1 (lastWrite (Op.entry 1) pairOps) ∧
      ∃ b, serialize map = .ok b ∧
        ∀ s rest, s.content = b.toFragment * rest →
          ∃ s' map', (deserialize 1).exec s = (.ok map', s') ∧ s'.content = rest ∧
            Shows map' 1 (lastWrite (Op.entry 1) pairOps) :=
  run_shows 1 Nat.one_pos pairOps pairOps_room pairOps_inRange

end Reference

end PyDictionary

end EverPlayground
