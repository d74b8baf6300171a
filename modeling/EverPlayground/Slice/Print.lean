import EverPlayground.Dictionary
import EverPlayground.PyCell
import EverPlayground.TonTypes.HashmapReference

/-!
# Printing and comparing slices

A slice is printed as the cell it is a view of, and compared by what is left to read. The
two agree as long as nothing has been read from a slice that began as a whole cell. A value
that comes from a dictionary is a view of its leaf, and does not begin as a whole cell. A
skip by a number near the largest machine word goes back, and can lead to the front again.

## Main definitions

* `Cell.unmark` — the tree of ordinary cells with the same data
* `PySlice.str`, `PySlice.richcmp` — the printed text, and the comparison method
* `PySlice.Obtained` — a slice made from a cell, a builder or a dictionary, and then read
* `PySlice.AtFront` — the reads have ended at the front of the cell

## Main results

* `PyCell.dumpCell_eq_iff` — a text shows everything of a tree but the exotic marks
* `PySlice.str_exact_iff` — which slices are printed as what is left to read
-/

set_option autoImplicit false

namespace EverPlayground

open Semantics

/-! ### What a text shows -/

namespace Cell

/-- The tree with the same data and without exotic cells. -/
def unmark : Cell → Cell
  | mk _ data data_le count child => mk false data data_le count fun i => (child i).unmark

@[simp] theorem unmark_exotic (c : Cell) : c.unmark.exotic = false := by
  cases c
  rfl

@[simp] theorem unmark_data (c : Cell) : c.unmark.data = c.data := by
  cases c
  rfl

@[simp] theorem unmark_refs (c : Cell) : c.unmark.refs = c.refs.map unmark := by
  obtain ⟨_, _, _, count, child⟩ := c
  rw [unmark, refs, refs, List.map_ofFn]
  rfl

theorem unmark_ordinaryTree (c : Cell) : c.unmark.OrdinaryTree := by
  induction c with
  | mk _ _ _ _ child ih => exact ⟨rfl, ih⟩

end Cell

/-- The comparison of slices. -/
class TonSlices where
  eq : SliceData → SliceData → Bool
  ne : SliceData → SliceData → Bool

/-- Slices are compared by what is left to read, and cells are spelled by their data. -/
class LawfulTonSlices [TonTypes] [TonSlices] : Prop where
  eq_iff : ∀ s s', TonSlices.eq s s' = true ↔ s.content = s'.content
  ne_eq : ∀ s s', TonSlices.ne s s' = !TonSlices.eq s s'
  toHexString : ∀ c c' : Cell, c.data = c'.data →
    TonTypes.toHexString c true = TonTypes.toHexString c' true

namespace Reference

noncomputable scoped instance tonSlices : TonSlices where
  eq s s' := @decide (s.content = s'.content) (Classical.propDecidable _)
  ne s s' := !@decide (s.content = s'.content) (Classical.propDecidable _)

scoped instance lawfulTonSlices : LawfulTonSlices where
  eq_iff _ _ := @decide_eq_true_iff _ (Classical.propDecidable _)
  ne_eq _ _ := rfl
  toHexString c c' h := by
    change String.ofList (toHex c.data) = String.ofList (toHex c'.data)
    rw [h]

end Reference

namespace PyCell

variable [TonTypes] [LawfulTonTypes] [TonSlices] [LawfulTonSlices]

omit [LawfulTonTypes] in
theorem render_unmark (ctorName tab : String) (c : Cell) (indent : ℕ) :
    render ctorName tab c.unmark indent = render ctorName tab c indent := by
  induction c using Cell.induction generalizing indent with
  | h c ih =>
    have hheading : heading ctorName tab c.unmark indent = heading ctorName tab c indent := by
      rw [heading, heading, LawfulTonSlices.toHexString c.unmark c c.unmark_data]
    have hchildren : (c.refs.map Cell.unmark).map (render ctorName tab · (indent + 1)) =
        c.refs.map (render ctorName tab · (indent + 1)) := by
      rw [List.map_map]
      exact List.map_congr_left fun r hr => ih r hr (indent + 1)
    rw [render_eq, render_eq, hheading, Cell.unmark_refs, hchildren]
    simp only [List.map_eq_nil_iff]

omit [LawfulTonTypes] in
theorem dumpCell_unmark (c : Cell) : dumpCell c.unmark = dumpCell c := by
  rw [dumpCell, dumpCell, dumpCellGeneric, dumpCellGeneric, dumpLoop_single, dumpLoop_single,
    render_unmark]

/-- A text shows everything of a tree but which of its cells are exotic. -/
theorem dumpCell_eq_iff {c c' : Cell} : dumpCell c = dumpCell c' ↔ c.unmark = c'.unmark := by
  rw [← dumpCell_unmark c, ← dumpCell_unmark c']
  constructor
  · exact eq_of_dumpCell_eq c'.unmark_ordinaryTree c.unmark_ordinaryTree
  · exact congrArg dumpCell

end PyCell

/-! ### Slices -/

namespace PySlice

/-- A read that moves the slice. -/
inductive Read where
  | i (bits : ℕ)
  | u (bits : ℕ)
  | r
  | skip (bits : ℕ)

namespace Read

/-- The number of bits that are taken. -/
def bits : Read → ℕ
  | i bits => bits
  | u bits => bits
  | r => 0
  | skip bits => bits

/-- The number of references that are taken. -/
def refs : Read → ℕ
  | i _ => 0
  | u _ => 0
  | r => 1
  | skip _ => 0

theorem sum_refs_eq_zero_iff {reads : List Read} : (reads.map refs).sum = 0 ↔ r ∉ reads := by
  rw [List.sum_eq_zero_iff_forall_eq_nat, List.forall_mem_map]
  constructor
  · intro h hr
    exact absurd (h r hr) Nat.one_ne_zero
  · intro h read hread
    cases read with
    | r => exact absurd hread h
    | _ => rfl

variable [NumBigint] [TonTypes]

def call : Read → Mut PyErr PySlice PUnit
  | i bits => do let _ ← PySlice.i bits
  | u bits => do let _ ← PySlice.u bits
  | r => do let _ ← PySlice.r
  | skip bits => PySlice.skip bits

end Read

/-- The window has moved by these numbers of bits and references. The position of its first
bit is a machine word. -/
structure Moves (s : PySlice) (bits refs : ℕ) (s' : PySlice) : Prop where
  cell : s'.cell = s.cell
  bitStart : s'.bitStart = usizeAdd s.bitStart bits
  bitEnd : s'.bitEnd = s.bitEnd
  refStart : s'.refStart = s.refStart + refs
  refEnd : s'.refEnd = s.refEnd

theorem Moves.refl (s : PySlice) : s.Moves 0 0 s := by
  have hsmall : 0 + maxBits < 2 ^ 64 := by decide
  exact ⟨rfl, (usizeAdd_bitStart s hsmall).symm, rfl, rfl, rfl⟩

theorem Moves.trans {s s' s'' : PySlice} {b r b' r' : ℕ} (h : s.Moves b r s')
    (h' : s'.Moves b' r' s'') : s.Moves (b + b') (r + r') s'' where
  cell := h'.cell.trans h.cell
  bitStart := by
    rw [h'.bitStart, h.bitStart, usizeAdd, usizeAdd, usizeAdd, Nat.mod_add_mod, Nat.add_assoc]
  bitEnd := h'.bitEnd.trans h.bitEnd
  refStart := by rw [h'.refStart, h.refStart, Nat.add_assoc]
  refEnd := h'.refEnd.trans h.refEnd

/-- Nothing wraps around when something is read. -/
theorem moves_of_advances {s s' : PySlice} {f : Fragment} (h : s.Advances f s') :
    s.Moves f.bits.length f.refs.length s' := by
  have hcell := s'.cell.data_length_le
  have hstart := s'.bit_le
  have hend := s'.bitEnd_le
  have hsum := h.bitStart
  have hmax : maxBits < 2 ^ 64 := by decide
  exact ⟨h.cell, by rw [hsum, usizeAdd_of_lt (by omega)], h.bitEnd, h.refStart, h.refEnd⟩

theorem Takes.moves {α : Type} {x : Mut PyErr PySlice α} {n : ℕ} {g : List Bool → α}
    (hx : Takes x n g) {s s' : PySlice} {a : α} (h : x.exec s = (.ok a, s')) : s.Moves n 0 s' := by
  obtain ⟨hle, -, hadv⟩ := hx.advances h
  have hmoves := moves_of_advances hadv
  rwa [Fragment.ofBits_bits, List.length_take_of_le hle] at hmoves

namespace Read

variable [NumBigint] [TonTypes] [LawfulNumBigint] [LawfulTonTypes] [LawfulTonWindows]

/-- A read that succeeds moves the slice by what it took. -/
theorem call_moves {read : Read} {s s' : PySlice} (h : read.call.exec s = (.ok ⟨⟩, s')) :
    s.Moves read.bits read.refs s' := by
  cases read with
  | i n =>
    obtain ⟨v, s₁, hi, hpure⟩ := Mut.exec_bind_eq_ok_iff.mp h
    cases hpure
    exact (i_takes n).moves hi
  | u n =>
    obtain ⟨v, s₁, hu, hpure⟩ := Mut.exec_bind_eq_ok_iff.mp h
    cases hpure
    exact (u_takes n).moves hu
  | r =>
    obtain ⟨c, s₁, hr, hpure⟩ := Mut.exec_bind_eq_ok_iff.mp h
    cases hpure
    cases hrefs : s.refs with
    | nil => exact absurd hr (r_empty hrefs).not_ok
    | cons c' rs =>
      obtain ⟨s₂, hrun, hadv⟩ := r_eq hrefs
      rw [hr] at hrun
      cases hrun
      exact moves_of_advances hadv
  | skip n =>
    -- the one read that may have moved the slice back
    by_cases hn : n < 2 ^ 64 ∧ usizeAdd s.bitStart n ≤ s.bitEnd
    · have hrun := skip_eq hn.1 hn.2
      rw [show (skip n).call.exec s = (PySlice.skip n).exec s from rfl, hrun] at h
      cases h
      exact ⟨rfl, rfl, rfl, rfl, rfl⟩
    · exact absurd h (skip_past fun hlt => not_le.mp fun hle => hn ⟨hlt, hle⟩).not_ok

/-- So does a run of reads. -/
theorem forM_call_moves {reads : List Read} {s s' : PySlice}
    (h : (forM reads call).exec s = (.ok ⟨⟩, s')) :
    s.Moves (reads.map bits).sum (reads.map refs).sum s' := by
  induction reads generalizing s with
  | nil =>
    cases h
    exact .refl _
  | cons read reads ih =>
    rw [List.forM_cons] at h
    obtain ⟨_, s₁, hread, hreads⟩ := Mut.exec_bind_eq_ok_iff.mp h
    rw [List.map_cons, List.map_cons, List.sum_cons, List.sum_cons]
    exact (call_moves hread).trans (ih hreads)

end Read

/-! ### Where a slice comes from -/

/-- What a slice is obtained from. -/
inductive Origin where
  | cell (cell : Cell)
  | builder (builder : PyBuilder)
  | lookup (map : PyDictionary) (key : PySlice)

/-- The slice is made as a view of a whole cell. -/
def Origin.Whole : Origin → Prop
  | .cell _ => True
  | .builder _ => True
  | .lookup _ _ => False

/-- All of the underlying cell is left to read. -/
def ShowsAll (s : PySlice) : Prop := s.bits = s.cell.data ∧ s.refs = s.cell.refs

/-- A view is of the whole cell when it is no smaller. -/
theorem showsAll_of_length_le {s : PySlice} (hbits : s.cell.data.length ≤ s.bits.length)
    (hrefs : s.cell.refs.length ≤ s.refs.length) : s.ShowsAll :=
  ⟨((List.drop_sublist _ _).trans (List.take_sublist _ _)).eq_of_length_le hbits,
    ((List.drop_sublist _ _).trans (List.take_sublist _ _)).eq_of_length_le hrefs⟩

theorem showsAll_iff {s : PySlice} : s.ShowsAll ↔ s.bitStart = 0 ∧ s.ToEnd := by
  have hbits := s.length_bits
  have hrefs := s.length_refs
  have hbit := s.bit_le
  have href := s.ref_le
  have hbitEnd := s.bitEnd_le
  have hrefEnd := s.refEnd_le
  constructor
  · rintro ⟨hdata, hcells⟩
    rw [hdata] at hbits
    rw [hcells] at hrefs
    exact ⟨by omega, by omega, by omega, by omega⟩
  · rintro ⟨hstart, hend, hstart', hend'⟩
    exact showsAll_of_length_le (by omega) (by omega)

section

variable [TonTypes] [TonHashmaps]

def Origin.Yields : Origin → PySlice → Prop
  | .cell c, s => create c = .ok s
  | .builder b, s => PyBuilder.slice b = .ok s
  | .lookup map key, s => PyDictionary.get map key = .ok (some s)

/-- A slice reaches to the end of its cell at first. It begins with the cell unless it comes
from a leaf of a dictionary, whose label it does not show. -/
theorem Origin.Yields.toEnd [LawfulLoad] [LawfulTonHashmaps] {o : Origin} {s : PySlice}
    (h : o.Yields s) : s.ToEnd ∧ (s.bitStart = 0 ↔ o.Whole) := by
  cases o with
  | cell c =>
    have hload : create c = .ok s := h
    obtain rfl := LawfulLoad.loadCell c s (mapError_eq_ok_iff.mp hload)
    exact ⟨SliceData.ofCell_toEnd c, iff_of_true rfl trivial⟩
  | builder b =>
    have hload : PyBuilder.slice b = .ok s := h
    obtain rfl := LawfulLoad.loadBuilder b s (mapError_eq_ok_iff.mp hload)
    exact ⟨SliceData.ofCell_toEnd _, iff_of_true rfl trivial⟩
  | lookup map key =>
    have hget : PyDictionary.get map key = .ok (some s) := h
    obtain ⟨hpos, hend⟩ := LawfulTonHashmaps.get_window map key s (mapError_eq_ok_iff.mp hget)
    exact ⟨hend, iff_of_false hpos.ne' not_false⟩

end

section

variable [NumBigint] [TonTypes] [TonHashmaps]

/-- The slice was obtained from somewhere, was `s₀` at first, and then went through successful
reads. -/
def Obtained (o : Origin) (s₀ : PySlice) (reads : List Read) (s : PySlice) : Prop :=
  o.Yields s₀ ∧ (forM reads Read.call).exec s₀ = (.ok ⟨⟩, s)

/-- No reference was read, and the bits that were taken lead from the first position of the
slice to the front of the cell. -/
def AtFront (s₀ : PySlice) (reads : List Read) : Prop :=
  Read.r ∉ reads ∧ usizeAdd s₀.bitStart (reads.map Read.bits).sum = 0

omit [NumBigint] in
/-- As long as nothing wraps around, the slice began as a whole cell, and no read took
anything. -/
theorem atFront_iff [LawfulLoad] [LawfulTonHashmaps] {o : Origin} {s₀ : PySlice}
    {reads : List Read} (ho : o.Yields s₀) (hsmall : (reads.map Read.bits).sum + maxBits < 2 ^ 64) :
    AtFront s₀ reads ↔ o.Whole ∧ ∀ read ∈ reads, read.bits = 0 ∧ read.refs = 0 := by
  have hbits : (reads.map Read.bits).sum = 0 ↔ ∀ read ∈ reads, read.bits = 0 := by
    rw [List.sum_eq_zero_iff_forall_eq_nat, List.forall_mem_map]
  have hrefs : (reads.map Read.refs).sum = 0 ↔ ∀ read ∈ reads, read.refs = 0 := by
    rw [List.sum_eq_zero_iff_forall_eq_nat, List.forall_mem_map]
  rw [AtFront, usizeAdd_bitStart s₀ hsmall, Nat.add_eq_zero_iff, ho.toEnd.2, hbits,
    ← Read.sum_refs_eq_zero_iff, hrefs]
  constructor
  · rintro ⟨hr, hwhole, hb⟩
    exact ⟨hwhole, fun read hread => ⟨hb read hread, hr read hread⟩⟩
  · rintro ⟨hwhole, h⟩
    exact ⟨fun read hread => (h read hread).2, hwhole, fun read hread => (h read hread).1⟩

variable [LawfulNumBigint] [LawfulTonTypes] [LawfulTonWindows] [LawfulLoad] [LawfulTonHashmaps]

theorem Obtained.showsAll_iff {o : Origin} {s₀ : PySlice} {reads : List Read} {s : PySlice}
    (h : Obtained o s₀ reads s) : s.ShowsAll ↔ AtFront s₀ reads := by
  obtain ⟨ho, hrun⟩ := h
  obtain ⟨hcell, hstart, hend, hrefStart, hrefEnd⟩ := Read.forM_call_moves hrun
  obtain ⟨hbits, hfirst, hrefs⟩ := ho.toEnd.1
  rw [hfirst, Nat.zero_add] at hrefStart
  rw [PySlice.showsAll_iff, AtFront, ← Read.sum_refs_eq_zero_iff, ← hstart, ← hrefStart, and_comm]
  -- the ends of the windows have not moved
  refine and_congr_left' ⟨fun hall => hall.refStart, fun href => ⟨?_, href, ?_⟩⟩
  · rw [hend, hbits, hcell]
  · rw [hrefEnd, hrefs, hcell]

end

/-! ### Printing and comparing -/

section

variable [TonTypes]

/-- `PySlice::__str__`. -/
def str (self : PySlice) : String := dumpCell self.cell

/-- The dump of the ordinary cell that holds what is left to read. -/
def strContent (self : PySlice) : String :=
  dumpCell (.ordinary ⟨self.content, self.content_fits⟩)

end

/-- `PySlice::__richcmp__`; `none` is `NotImplemented`. -/
def richcmp [TonSlices] (self other : PySlice) (op : CompareOp) : Option Bool :=
  match op with
  | .eq => some (TonSlices.eq self other)
  | .ne => some (TonSlices.ne self other)
  | _ => none

section

variable [TonTypes] [LawfulTonTypes] [TonSlices] [LawfulTonSlices]

theorem str_eq_strContent_iff (s : PySlice) : s.str = s.strContent ↔ s.ShowsAll := by
  rw [str, strContent, PyCell.dumpCell_eq_iff]
  constructor
  · intro h
    have hdata := congrArg (fun c => c.data.length) h
    have hrefs := congrArg (fun c => c.refs.length) h
    simp only [Cell.unmark_data, Cell.unmark_refs, Cell.ordinary_data, Cell.ordinary_refs,
      List.length_map] at hdata hrefs
    exact showsAll_of_length_le hdata.le hrefs.le
  · rintro ⟨hdata, hrefs⟩
    ext1
    · rw [Cell.unmark_exotic, Cell.unmark_exotic]
    · rw [Cell.unmark_data, Cell.unmark_data, Cell.ordinary_data]
      exact hdata.symm
    · rw [Cell.unmark_refs, Cell.unmark_refs, Cell.ordinary_refs]
      exact congrArg _ hrefs.symm

omit [LawfulTonTypes] in
theorem content_eq_of_richcmp {s s' : PySlice} (h : richcmp s s' .eq = some true) :
    s.content = s'.content :=
  (LawfulTonSlices.eq_iff s s').mp (Option.some.inj h)

omit [LawfulTonTypes] in
theorem strContent_eq_of_richcmp {s s' : PySlice} (h : richcmp s s' .eq = some true) :
    s.strContent = s'.strContent := by
  have hcontent := content_eq_of_richcmp h
  simp only [strContent, hcontent]

end

section

variable [NumBigint] [TonTypes] [TonHashmaps] [TonSlices] [LawfulNumBigint] [LawfulTonTypes]
variable [LawfulTonWindows] [LawfulLoad] [LawfulTonHashmaps] [LawfulTonSlices]

/-- A slice is printed as what is left to read exactly when no reference was read and the
bits that were taken lead to the front of its cell, which they do without a move when it
began there. Two equal slices are printed alike exactly when their cells are, and beside a
slice with that property exactly when the other one has it, too. -/
theorem str_exact_iff {o o' : Origin} {s₀ s₀' : PySlice} {reads reads' : List Read}
    {s s' : PySlice} (h : Obtained o s₀ reads s) (h' : Obtained o' s₀' reads' s') :
    (s.str = s.strContent ↔ AtFront s₀ reads) ∧
      (richcmp s s' .eq = some true →
        (s.str = s'.str ↔ s.cell.unmark = s'.cell.unmark) ∧
        (AtFront s₀ reads → (s.str = s'.str ↔ AtFront s₀' reads'))) := by
  have hstr := (str_eq_strContent_iff s).trans h.showsAll_iff
  have hstr' := (str_eq_strContent_iff s').trans h'.showsAll_iff
  refine ⟨hstr, fun heq => ⟨PyCell.dumpCell_eq_iff, fun hfront => ?_⟩⟩
  have hsame := strContent_eq_of_richcmp heq
  rw [hstr.mpr hfront, hsame, eq_comm]
  exact hstr'

end

section Reference

open scoped Reference

theorem oneBit_fits : (Fragment.ofBits [true]).Fits := by
  decide

def oneBit : Cell := .ordinary ⟨.ofBits [true], oneBit_fits⟩

/-- The view of the cell behind its only bit. -/
def behindBit : PySlice where
  cell := oneBit
  bitStart := 1
  bitEnd := 1
  refStart := 0
  refEnd := 0
  bit_le := le_rfl
  bitEnd_le := le_rfl
  ref_le := le_rfl
  refEnd_le := le_rfl

theorem obtained_empty : Obtained (.cell .empty) (.ofCell .empty) [] (.ofCell .empty) :=
  ⟨rfl, rfl⟩

theorem obtained_behindBit : Obtained (.cell oneBit) (.ofCell oneBit) [.u 1] behindBit :=
  ⟨rfl, rfl⟩

/-- A skip by the largest machine word is a step back. -/
theorem obtained_oneBit :
    Obtained (.cell oneBit) (.ofCell oneBit) [.u 1, .skip (2 ^ 64 - 1)] (.ofCell oneBit) :=
  ⟨rfl, rfl⟩

theorem richcmp_behindBit : richcmp behindBit (SliceData.ofCell .empty) .eq = some true :=
  congrArg some ((LawfulTonSlices.eq_iff _ _).mpr rfl)

theorem str_exact_iff_behindBit :
    (behindBit.str = behindBit.strContent ↔ AtFront (.ofCell oneBit) [.u 1]) ∧
      (richcmp behindBit (SliceData.ofCell oneBit) .eq = some true →
        (behindBit.str = PySlice.str (SliceData.ofCell oneBit) ↔ oneBit.unmark = oneBit.unmark) ∧
        (AtFront (.ofCell oneBit) [.u 1] →
          (behindBit.str = PySlice.str (SliceData.ofCell oneBit) ↔
            AtFront (.ofCell oneBit) [.u 1, .skip (2 ^ 64 - 1)]))) :=
  str_exact_iff obtained_behindBit obtained_oneBit

/-- Behind its only bit the cell is still printed with it, and an equal slice of an empty
cell without. -/
theorem str_behindBit :
    Obtained (.cell oneBit) (.ofCell oneBit) [.u 1] behindBit ∧
      Obtained (.cell .empty) (.ofCell .empty) [] (.ofCell .empty) ∧
      richcmp behindBit (SliceData.ofCell .empty) .eq = some true ∧
      behindBit.str = "C(\"c_\")" ∧ behindBit.str ≠ behindBit.strContent ∧
      behindBit.str ≠ PySlice.str (SliceData.ofCell .empty) := by
  have hstr : behindBit.str = "C(\"c_\")" := by
    rw [str, dumpCell, dumpCellGeneric, dumpLoop_single]
    decide
  have hcontent : behindBit.strContent = "C(\"\")" := by
    rw [strContent, dumpCell, dumpCellGeneric, dumpLoop_single]
    decide
  have hempty : PySlice.str (SliceData.ofCell .empty) = "C(\"\")" := by
    rw [str, dumpCell, dumpCellGeneric, dumpLoop_single]
    decide
  refine ⟨obtained_behindBit, obtained_empty, richcmp_behindBit, hstr, ?_, ?_⟩
  · rw [hstr, hcontent]
    decide
  · rw [hstr, hempty]
    decide

end Reference

end PySlice

end EverPlayground
