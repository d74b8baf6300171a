import EverPlayground.Builder
import EverPlayground.TonTypes.Reference

/-!
# Sequences of fields

A cell is assembled by a chain of `Builder.i` and `Builder.r` calls and taken apart by
a chain of `Slice.i`, `Slice.u` and `Slice.r` calls. The chain of reads undoes the
chain of writes, provided every integer has a representation in its field.

Outside that range `Builder.i` has no check of its own: an integer that does not fit
its field is stored truncated as long as the builder has room for the field.

## Main definitions

* `Field` — one write; `Field.read` is the read that belongs to it

## Main results

* `PyBuilder.fields_round_trip` — reading a list of fields returns what was written and
  leaves nothing
* `PyBuilder.i_raises_iff` — what `Builder.i` does outside the range of a field
-/

set_option autoImplicit false

namespace EverPlayground

open Math.Positional Math.TwosComplement Semantics Semantics.Cursor

/-- One write operation: `Builder.i(bits, n)` or `Builder.r(cell)`. -/
inductive Field where
  | int (bits : ℕ) (n : ℤ)
  | ref (cell : Cell)

/-- What a read returns. -/
inductive FieldValue where
  | int (n : ℤ)
  | cell (cell : Cell)

namespace Field

section Methods

variable [NumBigint] [TonTypes]

def write : Field → Mut PyErr PyBuilder Unit
  | int bits n => PyBuilder.i bits n
  | ref cell => PyBuilder.r cell

/-- Negative integers are read back by `Slice.i`, the others by `Slice.u`. -/
def read : Field → Mut PyErr PySlice FieldValue
  | int bits n =>
    if n < 0 then FieldValue.int <$> PySlice.i bits
    else (fun m : ℕ => FieldValue.int m) <$> PySlice.u bits
  | ref _ => FieldValue.cell <$> PySlice.r

end Methods

/-- The value that was written. -/
def value : Field → FieldValue
  | int _ n => .int n
  | ref cell => .cell cell

/-- The integer is representable in its field. -/
def WellFormed : Field → Prop
  | int bits n => 1 ≤ bits ∧ Representable bits n
  | ref _ => True

instance : DecidablePred WellFormed
  | int bits n => inferInstanceAs (Decidable (1 ≤ bits ∧ Representable bits n))
  | ref _ => inferInstanceAs (Decidable True)

def bitSize : Field → ℕ
  | int bits _ => bits
  | ref _ => 0

def refSize : Field → ℕ
  | int _ _ => 0
  | ref _ => 1

/-- The fragment a well-formed field occupies. -/
def fragment : Field → Fragment
  | int bits n => .ofBits (twos bits n)
  | ref cell => .ofRef cell

/-- The size of a list of fields is the size of the fragment it writes. -/
theorem length_prod_fragment (fields : List Field) :
    (fields.map fragment).prod.bits.length = (fields.map bitSize).sum ∧
      (fields.map fragment).prod.refs.length = (fields.map refSize).sum := by
  induction fields with
  | nil => exact ⟨rfl, rfl⟩
  | cons field fields ih =>
    simp only [List.map_cons, List.prod_cons, List.sum_cons, Fragment.mul_bits,
      Fragment.mul_refs, List.length_append, ih.1, ih.2]
    cases field with
    | int bits n => exact ⟨congrArg (· + _) (length_twos bits n), rfl⟩
    | ref cell => exact ⟨rfl, rfl⟩

variable [NumBigint] [TonTypes] [LawfulNumBigint] [LawfulTonTypes]

theorem write_writes {field : Field} (h : field.WellFormed) :
    PyBuilder.BuilderWrites field.write field.fragment := by
  cases field with
  | int bits n => exact PyBuilder.i_writes h.1 h.2
  | ref cell => exact PyBuilder.r_writes cell

theorem read_reads {field : Field} (h : field.WellFormed) :
    Reads SliceData.content field.read field.fragment field.value := by
  cases field with
  | int bits n =>
    obtain ⟨hbits, hn⟩ := h
    change Reads _ (if n < 0 then _ else _) _ _
    by_cases hneg : n < 0
    · have hi := PySlice.i_reads (twos bits n)
      rw [length_twos, hn.signed_twos hbits hneg] at hi
      rw [if_pos hneg]
      exact hi.map _
    · have hu := (PySlice.u_reads (twos bits n)).map fun m : ℕ => FieldValue.int m
      rw [length_twos, value_twos_of_nonneg (not_lt.mp hneg) hn.2] at hu
      rw [if_neg hneg]
      exact hu
  | ref cell => exact (PySlice.r_reads cell).map _

/-- Reading the fields of a slice that shows exactly them returns their values and
leaves nothing. -/
theorem mapM_read_eq {fields : List Field} (hwf : ∀ field ∈ fields, field.WellFormed)
    {s : PySlice} (hs : s.content = (fields.map fragment).prod) :
    ∃ s', (fields.mapM read).exec s = (.ok (fields.map value), s') ∧
      s'.remainingBits = 0 ∧ s'.remainingReferences = 0 := by
  have hreads := Reads.mapM fields fun field hfield => read_reads (hwf field hfield)
  obtain ⟨s', hrun, hs'⟩ := hreads s 1 (by rw [hs, mul_one])
  exact ⟨s', hrun, congrArg (fun f => f.bits.length) hs', congrArg (fun f => f.refs.length) hs'⟩

end Field

namespace PyBuilder

section

variable [NumBigint] [TonTypes] [LawfulNumBigint] [LawfulTonTypes]

/-- Fields that fit a cell are all written, and read back in the same order from
`Builder.slice()` or from `Slice(builder.finalize())` they return exactly the values
written, with no bit and no reference left. -/
theorem fields_round_trip (fields : List Field) (hwf : ∀ field ∈ fields, field.WellFormed)
    (hbits : (fields.map Field.bitSize).sum ≤ maxBits)
    (hrefs : (fields.map Field.refSize).sum ≤ maxRefs) :
    ∃ builder, build (forM fields Field.write) = .ok builder ∧
      (∃ s s', slice builder = .ok s ∧
        (fields.mapM Field.read).exec s = (.ok (fields.map Field.value), s') ∧
        s'.remainingBits = 0 ∧ s'.remainingReferences = 0) ∧
      ∃ cell s s', finalize builder = .ok cell ∧ PySlice.create cell = .ok s ∧
        (fields.mapM Field.read).exec s = (.ok (fields.map Field.value), s') ∧
        s'.remainingBits = 0 ∧ s'.remainingReferences = 0 := by
  obtain ⟨hlen, hcount⟩ := Field.length_prod_fragment fields
  have hfits : (fields.map Field.fragment).prod.Fits := ⟨hlen.trans_le hbits, hcount.trans_le hrefs⟩
  have hwrites := Writes.forM Fragment.Fits.left fields fun field hfield =>
    Field.write_writes (hwf field hfield)
  refine ⟨_, build_eq hwrites hfits, ?_, ?_⟩
  -- both slices show the whole content, so one read lemma serves them
  · obtain ⟨s, hslice, hs⟩ := slice_eq ⟨_, hfits⟩
    obtain ⟨s', hrun, hempty⟩ := Field.mapM_read_eq hwf hs
    exact ⟨s, s', hslice, hrun, hempty⟩
  · obtain ⟨cell, s, hfinalize, hcreate, hs⟩ := create_finalize_eq ⟨_, hfits⟩
    obtain ⟨s', hrun, hempty⟩ := Field.mapM_read_eq hwf hs
    exact ⟨cell, s, s', hfinalize, hcreate, hrun, hempty⟩

end

section Reference

open scoped Reference

/-- The round trip on fields of both signs, at an offset that is no multiple of eight. -/
theorem fields_round_trip_mixed :
    let fields :=
      [Field.int 3 (-4), .ref (.ordinary .new), .int 32 (-123), .int 64 0xdeadbeefcafebabe]
    ∃ builder, build (forM fields Field.write) = .ok builder ∧
      (∃ s s', slice builder = .ok s ∧
        (fields.mapM Field.read).exec s = (.ok (fields.map Field.value), s') ∧
        s'.remainingBits = 0 ∧ s'.remainingReferences = 0) ∧
      ∃ cell s s', finalize builder = .ok cell ∧ PySlice.create cell = .ok s ∧
        (fields.mapM Field.read).exec s = (.ok (fields.map Field.value), s') ∧
        s'.remainingBits = 0 ∧ s'.remainingReferences = 0 :=
  fields_round_trip _ (by decide) (by decide) (by decide)

end Reference

/-! ### Integers that do not fit -/

section

variable [NumBigint] [TonTypes] [LawfulTonTypes]

/-- An integer outside the range of its field is refused exactly when the builder has
no room for the field; with room for it the builder grows by bits that read back as a
different integer. -/
theorem i_raises_iff (builder : PyBuilder) {bits : ℕ} {n : ℤ} (hbits : 1 ≤ bits)
    (hn : ¬ Representable bits n) :
    ((i bits n).Raises builder ↔ maxBits < builder.bits.length + bits) ∧
      (¬ (i bits n).Raises builder → ∃ w builder', w.length = bits ∧
        (i bits n).exec builder = (.ok (), builder') ∧
        builder'.toFragment = builder.toFragment * .ofBits w ∧
        (value w : ℤ) ≠ n ∧ signed w ≠ n) := by
  obtain ⟨x, w, hw, happ, hi⟩ := i_appends hbits n
  -- no reference is appended, so only the bits count
  have hfits := BuilderData.fits_mul_ofBits_iff builder w
  rw [hw] at hfits
  rw [hi]
  by_cases hroom : (builder.toFragment * .ofBits w).Fits
  · have hrun := Mut.exec_mapErr_eq_ok_iff (f := runtimeErr).mpr (happ.fits builder hroom)
    have hnot : ¬ (x.mapErr runtimeErr).Raises builder := fun h => h.not_ok hrun
    refine ⟨iff_of_false hnot (not_lt.mpr (hfits.mp hroom)), fun _ => ?_⟩
    -- every reading of a word is representable in its width, and `n` is not
    refine ⟨w, _, hw, hrun, rfl, fun h => hn ?_, fun h => hn ?_⟩
    · exact h ▸ hw ▸ value_representable w
    · exact h ▸ hw ▸ signed_representable (by rw [hw]; exact hbits)
  · have hraises := (happ.overflow builder hroom).mapErr runtimeErr
    exact ⟨iff_of_true hraises (not_le.mp (mt hfits.mpr hroom)), fun h => absurd hraises h⟩

end

section Reference

open scoped Reference

theorem i_raises_iff_256 :
    ((i 8 256).Raises BuilderData.new ↔ maxBits < BuilderData.new.bits.length + 8) ∧
      (¬ (i 8 256).Raises BuilderData.new → ∃ w builder', w.length = 8 ∧
        (i 8 256).exec BuilderData.new = (.ok (), builder') ∧
        builder'.toFragment = BuilderData.new.toFragment * .ofBits w ∧
        (value w : ℤ) ≠ 256 ∧ signed w ≠ 256) :=
  i_raises_iff _ (by decide) (by decide)

/-- Into eight bits of a fresh builder, 256 goes as 1. -/
theorem i_truncates_256 :
    ¬ Representable 8 256 ∧ ¬ (i 8 256).Raises BuilderData.new ∧
      ∃ builder, (i 8 256).exec BuilderData.new = (.ok (), builder) ∧
        builder.bits = [false, false, false, false, false, false, false, true] := by
  have hrun : (i 8 256).exec BuilderData.new =
      (.ok (), ⟨.ofBits [false, false, false, false, false, false, false, true], by decide⟩) := by
    rfl
  exact ⟨by decide, fun h => h.not_ok hrun, _, hrun, rfl⟩

end Reference

end PyBuilder

end EverPlayground
