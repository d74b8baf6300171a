import EverPlayground.Semantics.Cursor
import EverPlayground.TonTypes.TlB
import EverPlayground.Utils

/-!
# The `Slice` class

Reading integers and references off the front of a slice.

A read of bits `Takes` them: on a slice that is long enough it returns the reading of the
next bits and advances past them; on any other slice it raises and does not move. The read of
a reference has the same two facts. The cursor rules for whole deserializers,
`*_reads` and `*_consumes`, follow from these. Skipping and peeking add their argument to a
position in the cell, and for arguments near the largest machine word the sum wraps around.
-/

set_option autoImplicit false

namespace EverPlayground

open Math.Positional Math.TwosComplement Semantics Semantics.Cursor

/-- `struct PySlice { slice: SliceData }`. -/
abbrev PySlice := SliceData

namespace PySlice

section Methods

variable [NumBigint] [TonTypes]

def create (cell : Cell) : Except PyErr PySlice :=
  (TonTypes.loadCell cell).mapError runtimeErr

def i (bits : ℕ) : Mut PyErr PySlice ℤ := do
  let bytes ← (TonTypes.getNextBits bits).mapErr runtimeErr
  Mut.ofExcept (signedIntDeserialize bytes bits)

def u (bits : ℕ) : Mut PyErr PySlice ℕ := do
  let bytes ← (TonTypes.getNextBits bits).mapErr runtimeErr
  Mut.ofExcept (unsignedIntDeserialize bytes bits)

def remainingReferences (self : PySlice) : ℕ := self.refs.length

def r : Mut PyErr PySlice Cell := TonTypes.checkedDrainReference.mapErr runtimeErr

def rPeek (self : PySlice) (i : ℕ) : Except PyErr Cell := do
  let i ← extractUsize i
  (TonTypes.reference self i).mapError runtimeErr

def remainingBits (self : PySlice) : ℕ := self.bits.length

def skip (bits : ℕ) : Mut PyErr PySlice Unit := do
  let bits ← Mut.ofExcept (extractUsize bits)
  (TonTypes.moveBy bits).mapErr runtimeErr

end Methods

/-! ### Reads of bits -/

/-- The call takes the next `n` bits and returns what `g` makes of them. It raises where
there are fewer. -/
structure Takes {α : Type} (x : Mut PyErr PySlice α) (n : ℕ) (g : List Bool → α) : Prop where
  short : ∀ s : PySlice, s.bits.length < n → x.Raises s
  enough : ∀ s : PySlice, n ≤ s.bits.length →
    ∃ s', x.exec s = (.ok (g (s.bits.take n)), s') ∧ s.Advances (.ofBits (s.bits.take n)) s'

/-- The bits at the front of a slice whose content begins with a word. -/
theorem take_bits {s : PySlice} {w : List Bool} {rest : Fragment}
    (h : s.content = .ofBits w * rest) : w.length ≤ s.bits.length ∧ s.bits.take w.length = w := by
  have hbits : s.bits = w ++ rest.bits := congrArg Fragment.bits h
  rw [hbits]
  exact ⟨by simp, List.take_left' rfl⟩

namespace Takes

variable {α β : Type} {x : Mut PyErr PySlice α} {n : ℕ} {g : List Bool → α}

theorem map (h : Takes x n g) (f : α → β) : Takes (f <$> x) n fun w => f (g w) where
  short s hs := by
    obtain ⟨e, he⟩ := h.short s hs
    exact ⟨e, by rw [Mut.exec_map, he]; rfl⟩
  enough s hs := by
    obtain ⟨s', hrun, hadv⟩ := h.enough s hs
    exact ⟨s', by rw [Mut.exec_map, hrun]; rfl, hadv⟩

/-- A read that succeeded was not short. -/
theorem advances (h : Takes x n g) {s s' : PySlice} {a : α} (hrun : x.exec s = (.ok a, s')) :
    n ≤ s.bits.length ∧ a = g (s.bits.take n) ∧ s.Advances (.ofBits (s.bits.take n)) s' := by
  rcases Nat.lt_or_ge s.bits.length n with hlt | hge
  · exact absurd hrun (h.short s hlt).not_ok
  · obtain ⟨s'', hrun', hadv⟩ := h.enough s hge
    rw [hrun] at hrun'
    cases hrun'
    exact ⟨hge, rfl, hadv⟩

theorem reads {w : List Bool} (h : Takes x w.length g) :
    Reads SliceData.content x (.ofBits w) (g w) := by
  intro s rest hs
  obtain ⟨hle, htake⟩ := take_bits hs
  obtain ⟨s', hrun, hadv⟩ := h.enough s hle
  rw [htake] at hrun hadv
  exact ⟨s', hrun, hadv.content_eq hs⟩

theorem consumes (h : Takes x n g) :
    Consumes SliceData.content x fun f a => ∃ w, w.length = n ∧ f = .ofBits w ∧ a = g w := by
  intro s s' a hrun
  obtain ⟨hle, rfl, hadv⟩ := h.advances hrun
  exact ⟨_, hadv.content, _, List.length_take_of_le hle, rfl, rfl⟩

end Takes

/-! ### Calls that add to the position of the slice -/

section Positions

variable [TonTypes] [LawfulTonWindows]

/-- The slice moves to the sum where that is inside of its window, forwards or back. -/
theorem skip_eq {s : PySlice} {n : ℕ} (hn : n < 2 ^ 64) (h : usizeAdd s.bitStart n ≤ s.bitEnd) :
    (skip n).exec s = (.ok (), s.startAt _ h) := by
  rw [skip, extractUsize_of_lt hn, Mut.ofExcept_ok_bind, Mut.exec_mapErr_eq_ok_iff]
  exact LawfulTonWindows.moveBy s n hn h

theorem skip_past {s : PySlice} {n : ℕ} (h : n < 2 ^ 64 → s.bitEnd < usizeAdd s.bitStart n) :
    (skip n).Raises s := by
  rcases Nat.lt_or_ge n (2 ^ 64) with hn | hn
  · rw [skip, extractUsize_of_lt hn, Mut.ofExcept_ok_bind]
    exact (LawfulTonWindows.moveBy_past s n hn (h hn)).mapErr runtimeErr
  · -- what is no machine word is refused before the call
    rw [skip, extractUsize_of_le hn, Mut.ofExcept_error_bind]
    exact ⟨.overflowError, rfl⟩

theorem rPeek_eq {s : PySlice} {i : ℕ} (hi : i < 2 ^ 64) (h : usizeAdd s.refStart i < s.refEnd) :
    rPeek s i = .ok (s.cell.refs.get ⟨_, h.trans_le s.refEnd_le⟩) := by
  rw [rPeek, extractUsize_of_lt hi, ok_bind, LawfulTonWindows.reference s i hi h]
  rfl

theorem rPeek_past {s : PySlice} {i : ℕ} (h : i < 2 ^ 64 → s.refEnd ≤ usizeAdd s.refStart i) :
    ∃ e, rPeek s i = .error e := by
  rcases Nat.lt_or_ge i (2 ^ 64) with hi | hi
  · obtain ⟨e, he⟩ := LawfulTonWindows.reference_past s i hi (h hi)
    exact ⟨runtimeErr e, by rw [rPeek, extractUsize_of_lt hi, ok_bind, he]; rfl⟩
  · exact ⟨.overflowError, by rw [rPeek, extractUsize_of_le hi]; rfl⟩

omit [TonTypes] [LawfulTonWindows] in
/-- The position in a cell is small, so that only large arguments wrap around. -/
theorem usizeAdd_bitStart (s : PySlice) {n : ℕ} (h : n + maxBits < 2 ^ 64) :
    usizeAdd s.bitStart n = s.bitStart + n := by
  have hcell := s.cell.data_length_le
  have hstart := s.bit_le
  have hend := s.bitEnd_le
  exact usizeAdd_of_lt (by omega)

omit [TonTypes] [LawfulTonWindows] in
theorem usizeAdd_refStart (s : PySlice) {i : ℕ} (h : i + maxRefs < 2 ^ 64) :
    usizeAdd s.refStart i = s.refStart + i := by
  have hcell := s.cell.refs_length_le
  have hstart := s.ref_le
  have hend := s.refEnd_le
  exact usizeAdd_of_lt (by omega)

/-- Where nothing wraps around, skipping is reading without looking. -/
theorem skip_takes {n : ℕ} (hn : n + maxBits < 2 ^ 64) : Takes (skip n) n fun _ => () where
  short s h := by
    have hlen := s.length_bits
    refine skip_past fun _ => ?_
    rw [usizeAdd_bitStart s hn]
    omega
  enough s h := by
    have hsum := usizeAdd_bitStart s hn
    have hlen := s.length_bits
    have hle := s.bit_le
    have hend : usizeAdd s.bitStart n ≤ s.bitEnd := by omega
    refine ⟨_, skip_eq (by omega) hend, ⟨Fragment.ext ?_ rfl, rfl, ?_, rfl, rfl, rfl⟩⟩
    · -- behind the new position is what was behind the first `n` bits
      change s.bits = s.bits.take n ++ (s.cell.data.take s.bitEnd).drop (usizeAdd s.bitStart n)
      rw [hsum, ← List.drop_drop]
      exact (List.take_append_drop n s.bits).symm
    · rw [Fragment.ofBits_bits, List.length_take_of_le h]
      exact hsum

/-- So is peeking looking without reading. -/
theorem rPeek_eq_getElem {s : PySlice} {i : ℕ} (hi : i + maxRefs < 2 ^ 64)
    (h : i < s.refs.length) : rPeek s i = .ok s.refs[i] := by
  have hsum := usizeAdd_refStart s hi
  have hlen := s.length_refs
  rw [rPeek_eq (by omega) (by omega)]
  simp only [SliceData.refs, List.getElem_drop, List.getElem_take, List.get_eq_getElem, hsum]

theorem rPeek_short {s : PySlice} {i : ℕ} (hi : i + maxRefs < 2 ^ 64) (h : s.refs.length ≤ i) :
    ∃ e, rPeek s i = .error e := by
  have hlen := s.length_refs
  refine rPeek_past fun _ => ?_
  rw [usizeAdd_refStart s hi]
  omega

end Positions

variable [NumBigint] [TonTypes] [LawfulNumBigint] [LawfulTonTypes]

omit [NumBigint] [LawfulNumBigint] in
/-- Every ordinary cell can be opened. -/
theorem create_eq {c : Cell} (h : c.exotic = false) : create c = .ok (SliceData.ofCell c) := by
  rw [create, LawfulTonTypes.loadCell c h]
  rfl

/-! ### One read -/

/-- The bytes of the next field, and what the integer decoders make of them. -/
theorem getNextBits_eq {s : PySlice} {n : ℕ} (h : n ≤ s.bits.length) :
    ∃ buf s', (TonTypes.getNextBits n).exec s = (.ok buf, s') ∧
      s.Advances (.ofBits (s.bits.take n)) s' ∧
      unsignedIntDeserialize buf n = .ok (value (s.bits.take n)) ∧
      signedIntDeserialize buf n = .ok (signed (s.bits.take n)) := by
  obtain ⟨buf, pad, s', hrun, hlen, hbuf, hadv⟩ := LawfulTonTypes.getNextBits s n h
  have hw : (s.bits.take n).length = n := List.length_take_of_le h
  -- the bytes are just enough, so what is left of the last one is the padding
  have hpad : pad.length = padding (s.bits.take n).length := by
    have hbytes := congrArg List.length hbuf
    rw [length_bytesToBits, List.length_append, hw] at hbytes
    rw [hw, padding, fieldBytes, ← hlen]
    omega
  have hunsigned := unsignedIntDeserialize_eq hbuf hpad
  have hsigned := signedIntDeserialize_eq hbuf hpad
  rw [hw] at hunsigned hsigned
  exact ⟨buf, s', hrun, hadv, hunsigned, hsigned⟩

theorem u_takes (n : ℕ) : Takes (u n) n value where
  short s h := ((LawfulTonTypes.getNextBits_short s n h).mapErr _).bind _
  enough s h := by
    obtain ⟨buf, s', hrun, hadv, hunsigned, -⟩ := getNextBits_eq h
    refine ⟨s', ?_, hadv⟩
    rw [u, Mut.exec_bind_ok (Mut.exec_mapErr_eq_ok_iff.mpr hrun), hunsigned]
    rfl

theorem i_takes (n : ℕ) : Takes (i n) n signed where
  short s h := ((LawfulTonTypes.getNextBits_short s n h).mapErr _).bind _
  enough s h := by
    obtain ⟨buf, s', hrun, hadv, -, hsigned⟩ := getNextBits_eq h
    refine ⟨s', ?_, hadv⟩
    rw [i, Mut.exec_bind_ok (Mut.exec_mapErr_eq_ok_iff.mpr hrun), hsigned]
    rfl

omit [NumBigint] [LawfulNumBigint] in
theorem r_eq {s : PySlice} {c : Cell} {rs : List Cell} (h : s.refs = c :: rs) :
    ∃ s', r.exec s = (.ok c, s') ∧ s.Advances (.ofRef c) s' := by
  obtain ⟨s', hrun, hadv⟩ := LawfulTonTypes.checkedDrainReference s c rs h
  exact ⟨s', Mut.exec_mapErr_eq_ok_iff.mpr hrun, hadv⟩

omit [NumBigint] [LawfulNumBigint] in
theorem r_empty {s : PySlice} (h : s.refs = []) : r.Raises s :=
  (LawfulTonTypes.checkedDrainReference_empty s h).mapErr _

/-! ### Cursor rules -/

theorem u_reads (w : List Bool) : Reads SliceData.content (u w.length) (.ofBits w) (value w) :=
  (u_takes w.length).reads

theorem i_reads (w : List Bool) : Reads SliceData.content (i w.length) (.ofBits w) (signed w) :=
  (i_takes w.length).reads

omit [NumBigint] [LawfulNumBigint] in
theorem r_reads (c : Cell) : Reads SliceData.content r (.ofRef c) c := by
  intro s rest hs
  have hrefs : s.refs = c :: rest.refs := congrArg Fragment.refs hs
  obtain ⟨s', hrun, hadv⟩ := r_eq hrefs
  exact ⟨s', hrun, hadv.content_eq hs⟩

theorem u_consumes (n : ℕ) :
    Consumes SliceData.content (u n) fun f v => ∃ w, w.length = n ∧ f = .ofBits w ∧ v = value w :=
  (u_takes n).consumes

/-- A field of the layout `## n` is read as its value. -/
theorem u_reads_uint {n v : ℕ} (h : v < 2 ^ n) :
    Reads SliceData.content (u n) (TlB.uint n v) v := by
  have hu := u_reads (word n v)
  rwa [length_word, value_word_of_lt h] at hu

theorem u_consumes_uint (n : ℕ) :
    Consumes SliceData.content (u n) fun f v => f = TlB.uint n v ∧ v < 2 ^ n := by
  apply (u_consumes n).mono
  rintro f v ⟨w, rfl, rfl, rfl⟩
  exact ⟨by rw [TlB.uint, word_value], value_lt w⟩

omit [NumBigint] [LawfulNumBigint] in
theorem r_consumes : Consumes SliceData.content r fun f c => f = .ofRef c := by
  intro s s' c hrun
  cases hrefs : s.refs with
  | nil => exact absurd hrun (r_empty hrefs).not_ok
  | cons c' rs =>
    obtain ⟨s'', hrun', hadv⟩ := r_eq hrefs
    rw [hrun] at hrun'
    cases hrun'
    exact ⟨_, hadv.content, rfl⟩

end PySlice

end EverPlayground
