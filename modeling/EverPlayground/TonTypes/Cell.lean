import Mathlib.Algebra.Group.Defs
import Mathlib.Data.List.OfFn
import Mathlib.Tactic.Ring

/-!
# Cells, builders, slices and dictionaries

The data of the `ton_types` crate as the package documents it: a cell holds at
most 1023 data bits and at most four references to other cells; a builder is an
incomplete cell; a slice is a read-only view of a contiguous part of a cell; a
dictionary is a key width and an optional root cell.

The capacity of a cell is part of its type, so an overfull cell or builder cannot
be written down.

## Main definitions

* `Cell` — a finite tree of cells
* `Fragment` — a run of bits together with a run of references; concatenation is
  the product of a cancellative monoid
* `BuilderData` — a fragment that fits a cell
* `SliceData` — a window on a cell; `SliceData.content` is the fragment it shows
* `HashmapE` — a dictionary
-/

set_option autoImplicit false

namespace EverPlayground

/-- The number of data bits a cell can hold. -/
def maxBits : ℕ := 1023

/-- The number of references a cell can hold. -/
def maxRefs : ℕ := 4

/-- A cell: data bits and references to other cells. An exotic cell is a library,
pruned-branch or Merkle cell; every other cell is ordinary. -/
inductive Cell where
  | mk (exotic : Bool) (data : List Bool) (data_le : data.length ≤ maxBits)
      (count : Fin (maxRefs + 1)) (child : Fin count → Cell)

namespace Cell

def exotic : Cell → Bool
  | mk exotic _ _ _ _ => exotic

def data : Cell → List Bool
  | mk _ data _ _ _ => data

/-- The children, in reference order. -/
def refs : Cell → List Cell
  | mk _ _ _ _ child => List.ofFn child

def referencesCount (c : Cell) : ℕ := c.refs.length

theorem data_length_le (c : Cell) : c.data.length ≤ maxBits := by
  obtain ⟨_, _, h, _, _⟩ := c
  exact h

theorem refs_length_le (c : Cell) : c.refs.length ≤ maxRefs := by
  obtain ⟨_, _, _, count, child⟩ := c
  rw [refs, List.length_ofFn]
  exact Nat.lt_succ_iff.mp count.isLt

@[ext] theorem ext {c d : Cell} (hexotic : c.exotic = d.exotic) (hdata : c.data = d.data)
    (hrefs : c.refs = d.refs) : c = d := by
  obtain ⟨e, w, hw, n, f⟩ := c
  obtain ⟨e', w', hw', n', f'⟩ := d
  simp only [exotic, data] at hexotic hdata
  subst hexotic hdata
  -- a list of references determines their number and the function of the index
  have hsigma := List.ofFn_inj'.mp hrefs
  have hn : n = n' := Fin.ext (congrArg Sigma.fst hsigma)
  subst hn
  rw [eq_of_heq (Sigma.mk.inj hsigma).2]

/-- Induction over the tree of references. -/
theorem induction {P : Cell → Prop} (h : ∀ c : Cell, (∀ r ∈ c.refs, P r) → P c) (c : Cell) :
    P c := by
  induction c with
  | mk exotic data data_le count child ih =>
    refine h _ fun r hr => ?_
    obtain ⟨i, rfl⟩ := (List.mem_ofFn' child r).mp hr
    exact ih i

end Cell

/-! ### Fragments -/

/-- A run of bits together with a run of references. -/
@[ext] structure Fragment where
  bits : List Bool
  refs : List Cell

namespace Fragment

instance : Monoid Fragment where
  one := ⟨[], []⟩
  mul f g := ⟨f.bits ++ g.bits, f.refs ++ g.refs⟩
  one_mul _ := rfl
  mul_one f := by
    change Fragment.mk (f.bits ++ []) (f.refs ++ []) = f
    rw [List.append_nil, List.append_nil]
  mul_assoc f g h := by
    change Fragment.mk (f.bits ++ g.bits ++ h.bits) (f.refs ++ g.refs ++ h.refs) =
      Fragment.mk (f.bits ++ (g.bits ++ h.bits)) (f.refs ++ (g.refs ++ h.refs))
    rw [List.append_assoc, List.append_assoc]

@[simp] theorem one_bits : (1 : Fragment).bits = [] := rfl

@[simp] theorem one_refs : (1 : Fragment).refs = [] := rfl

@[simp] theorem mul_bits (f g : Fragment) : (f * g).bits = f.bits ++ g.bits := rfl

@[simp] theorem mul_refs (f g : Fragment) : (f * g).refs = f.refs ++ g.refs := rfl

instance : IsCancelMul Fragment where
  mul_left_cancel f g h heq := by
    have hbits := congrArg Fragment.bits heq
    have hrefs := congrArg Fragment.refs heq
    exact Fragment.ext (List.append_cancel_left hbits) (List.append_cancel_left hrefs)
  mul_right_cancel f g h heq := by
    have hbits := congrArg Fragment.bits heq
    have hrefs := congrArg Fragment.refs heq
    exact Fragment.ext (List.append_cancel_right hbits) (List.append_cancel_right hrefs)

/-- The fragment holds at most what a cell can. -/
def Fits (f : Fragment) : Prop := f.bits.length ≤ maxBits ∧ f.refs.length ≤ maxRefs

instance (f : Fragment) : Decidable f.Fits := inferInstanceAs (Decidable (_ ∧ _))

theorem fits_one : (1 : Fragment).Fits := ⟨Nat.zero_le _, Nat.zero_le _⟩

theorem Fits.left (f g : Fragment) (h : (f * g).Fits) : f.Fits := by
  obtain ⟨hbits, hrefs⟩ := h
  rw [mul_bits, List.length_append] at hbits
  rw [mul_refs, List.length_append] at hrefs
  exact ⟨by omega, by omega⟩

/-- The fragment holds at most the given numbers of bits and references. -/
def Within (bits refs : ℕ) (f : Fragment) : Prop := f.bits.length ≤ bits ∧ f.refs.length ≤ refs

theorem Within.mul {b r b' r' : ℕ} {f g : Fragment} (hf : f.Within b r) (hg : g.Within b' r') :
    (f * g).Within (b + b') (r + r') := by
  constructor
  · rw [mul_bits, List.length_append]
    exact Nat.add_le_add hf.1 hg.1
  · rw [mul_refs, List.length_append]
    exact Nat.add_le_add hf.2 hg.2

theorem Within.fits {b r : ℕ} {f : Fragment} (h : f.Within b r) (hb : b ≤ maxBits)
    (hr : r ≤ maxRefs) : f.Fits :=
  ⟨h.1.trans hb, h.2.trans hr⟩

/-- A fragment of bits only. -/
def ofBits (w : List Bool) : Fragment := ⟨w, []⟩

/-- A fragment of one reference. -/
def ofRef (c : Cell) : Fragment := ⟨[], [c]⟩

@[simp] theorem ofBits_bits (w : List Bool) : (ofBits w).bits = w := rfl

@[simp] theorem ofBits_refs (w : List Bool) : (ofBits w).refs = [] := rfl

@[simp] theorem ofRef_bits (c : Cell) : (ofRef c).bits = [] := rfl

@[simp] theorem ofRef_refs (c : Cell) : (ofRef c).refs = [c] := rfl

/-- Words of one length in front can be told apart. -/
theorem ofBits_mul_inj {u v : List Bool} {f g : Fragment} (h : u.length = v.length) :
    ofBits u * f = ofBits v * g ↔ u = v ∧ f = g := by
  constructor
  · intro heq
    have hbits := congrArg Fragment.bits heq
    have hrefs := congrArg Fragment.refs heq
    obtain ⟨huv, hfg⟩ := List.append_inj hbits h
    exact ⟨huv, Fragment.ext hfg hrefs⟩
  · rintro ⟨rfl, rfl⟩
    rfl

theorem within_ofBits (w : List Bool) : (ofBits w).Within w.length 0 := ⟨le_rfl, le_rfl⟩

theorem within_ofRef (c : Cell) : (ofRef c).Within 0 1 := ⟨le_rfl, le_rfl⟩

/-- The number of bits and references. -/
def size (f : Fragment) : ℕ := f.bits.length + f.refs.length

@[simp] theorem size_mul (f g : Fragment) : (f * g).size = f.size + g.size := by
  simp only [size, mul_bits, mul_refs, List.length_append]
  omega

end Fragment

/-! ### Builders, slices and dictionaries -/

/-- An incomplete cell. -/
@[ext] structure BuilderData extends Fragment where
  fits : toFragment.Fits

namespace BuilderData

/-- The empty builder. -/
def new : BuilderData := ⟨1, Fragment.fits_one⟩

@[simp] theorem new_toFragment : new.toFragment = 1 := rfl

/-- Only the bits count when no reference is appended. -/
theorem fits_mul_ofBits_iff (b : BuilderData) (w : List Bool) :
    (b.toFragment * .ofBits w).Fits ↔ b.bits.length + w.length ≤ maxBits := by
  have hrefs := b.fits.2
  rw [Fragment.Fits, Fragment.mul_bits, Fragment.mul_refs, Fragment.ofBits_bits,
    Fragment.ofBits_refs, List.append_nil, List.length_append]
  exact and_iff_left hrefs

theorem eq_of_toFragment_eq {b b' : BuilderData} (h : b.toFragment = b'.toFragment) : b = b' := by
  cases b
  cases b'
  cases h
  rfl

end BuilderData

/-- The ordinary cell with the contents of a builder. -/
def Cell.ordinary (b : BuilderData) : Cell :=
  .mk false b.bits b.fits.1 ⟨b.refs.length, Nat.lt_succ_of_le b.fits.2⟩ fun i => b.refs[i]

@[simp] theorem Cell.ordinary_exotic (b : BuilderData) : (ordinary b).exotic = false := rfl

@[simp] theorem Cell.ordinary_data (b : BuilderData) : (ordinary b).data = b.bits := rfl

@[simp] theorem Cell.ordinary_refs (b : BuilderData) : (ordinary b).refs = b.refs :=
  List.ofFn_getElem

/-- The cell without data and references. -/
def Cell.empty : Cell := ordinary .new

/-- A view of a contiguous part of the bits and of the references of a cell. -/
@[ext] structure SliceData where
  cell : Cell
  bitStart : ℕ
  bitEnd : ℕ
  refStart : ℕ
  refEnd : ℕ
  bit_le : bitStart ≤ bitEnd
  bitEnd_le : bitEnd ≤ cell.data.length
  ref_le : refStart ≤ refEnd
  refEnd_le : refEnd ≤ cell.refs.length

namespace SliceData

/-- The remaining bits. -/
def bits (s : SliceData) : List Bool := (s.cell.data.take s.bitEnd).drop s.bitStart

/-- The remaining references. -/
def refs (s : SliceData) : List Cell := (s.cell.refs.take s.refEnd).drop s.refStart

/-- What is left to read. -/
def content (s : SliceData) : Fragment := ⟨s.bits, s.refs⟩

@[simp] theorem content_bits (s : SliceData) : s.content.bits = s.bits := rfl

@[simp] theorem content_refs (s : SliceData) : s.content.refs = s.refs := rfl

theorem length_bits (s : SliceData) : s.bits.length = s.bitEnd - s.bitStart := by
  rw [bits, List.length_drop, List.length_take_of_le s.bitEnd_le]

theorem length_refs (s : SliceData) : s.refs.length = s.refEnd - s.refStart := by
  rw [refs, List.length_drop, List.length_take_of_le s.refEnd_le]

theorem content_fits (s : SliceData) : s.content.Fits := by
  have hbits := s.bitEnd_le.trans s.cell.data_length_le
  have hrefs := s.refEnd_le.trans s.cell.refs_length_le
  constructor
  · rw [content_bits, length_bits]
    omega
  · rw [content_refs, length_refs]
    omega

/-- The view of a whole cell. -/
def ofCell (c : Cell) : SliceData where
  cell := c
  bitStart := 0
  bitEnd := c.data.length
  refStart := 0
  refEnd := c.refs.length
  bit_le := Nat.zero_le _
  bitEnd_le := le_rfl
  ref_le := Nat.zero_le _
  refEnd_le := le_rfl

@[simp] theorem ofCell_bits (c : Cell) : (ofCell c).bits = c.data := by
  simp [bits, ofCell]

@[simp] theorem ofCell_refs (c : Cell) : (ofCell c).refs = c.refs := by
  simp [refs, ofCell]

/-- The view of the same cell that begins at another bit. -/
def startAt (s : SliceData) (k : ℕ) (h : k ≤ s.bitEnd) : SliceData :=
  { s with bitStart := k, bit_le := h }

/-- The view is of all references of the cell, and of its bits from some bit to the end. -/
structure ToEnd (s : SliceData) : Prop where
  bitEnd : s.bitEnd = s.cell.data.length
  refStart : s.refStart = 0
  refEnd : s.refEnd = s.cell.refs.length

theorem ofCell_toEnd (c : Cell) : (ofCell c).ToEnd := ⟨rfl, rfl, rfl⟩

/-- Reading `f` off the front of `s` leaves `s'`, a view of the same cell that begins where
`f` ends. -/
structure Advances (s : SliceData) (f : Fragment) (s' : SliceData) : Prop where
  content : s.content = f * s'.content
  cell : s'.cell = s.cell
  bitStart : s'.bitStart = s.bitStart + f.bits.length
  bitEnd : s'.bitEnd = s.bitEnd
  refStart : s'.refStart = s.refStart + f.refs.length
  refEnd : s'.refEnd = s.refEnd

theorem Advances.content_eq {s s' : SliceData} {f rest : Fragment} (h : s.Advances f s')
    (hs : s.content = f * rest) : s'.content = rest :=
  mul_left_cancel (h.content.symm.trans hs)

end SliceData

/-- A dictionary: the width of its keys and the root of its tree, absent when empty. -/
@[ext] structure HashmapE where
  bitLen : ℕ
  data : Option Cell

end EverPlayground
