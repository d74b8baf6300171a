import EverPlayground.Builder
import EverPlayground.Slice
import EverPlayground.TonTypes.Reference

/-!
# Cutting bits into fields

Bits that were not written by the package are read as fields of any widths, each of them
with or without sign. The fields recombine to the reading of the whole, and written back
at their widths they restore the bits.

A cut decides for every field its width and how it is read; the pieces of a word are what
the cut makes of it.

## Main definitions

* `Cut` — the width of a field, and whether it is read with sign
* `recombine` — the fields as the digits of one number
* `Piece` — a field together with its bits

## Main results

* `cuts_recombine` — the readings of the fields, of the whole, and the way back
-/

set_option autoImplicit false

namespace EverPlayground

open Math.Positional Math.TwosComplement Semantics Semantics.Cursor

/-- One field: `Slice.i(width)` or `Slice.u(width)`. -/
structure Cut where
  isSigned : Bool
  width : ℕ

def Cut.read [NumBigint] [TonTypes] (cut : Cut) : Mut PyErr PySlice ℤ :=
  if cut.isSigned then PySlice.i cut.width
  else (fun m : ℕ => (m : ℤ)) <$> PySlice.u cut.width

/-- `v := v * 2 ** b + u` for every field, from zero. -/
def recombine (fields : List (ℕ × ℤ)) : ℤ :=
  fields.foldl (fun v field => v * 2 ^ field.1 + field.2) 0

/-! ### Pieces -/

/-- A field and the bits it covers. -/
structure Piece where
  isSigned : Bool
  bits : List Bool

namespace Piece

def cut (p : Piece) : Cut := { isSigned := p.isSigned, width := p.bits.length }

/-- What the read of the field returns. -/
def value (p : Piece) : ℤ :=
  if p.isSigned then signed p.bits else Math.Positional.value p.bits

/-- The field as it is written back. -/
def field (p : Piece) : ℕ × ℤ := (p.bits.length, p.value)

/-- The word that the pieces were cut from. -/
def word (pieces : List Piece) : List Bool := pieces.flatMap Piece.bits

@[simp] theorem word_nil : word [] = [] := rfl

@[simp] theorem word_cons (p : Piece) (pieces : List Piece) :
    word (p :: pieces) = p.bits ++ word pieces := rfl

/-- Every cut of a word has its pieces. -/
theorem exists_pieces (cuts : List Cut) (w : List Bool)
    (hsum : (cuts.map Cut.width).sum = w.length) :
    ∃ pieces : List Piece, pieces.map cut = cuts ∧ word pieces = w := by
  induction cuts generalizing w with
  | nil => exact ⟨[], rfl, (List.length_eq_zero_iff.mp hsum.symm).symm⟩
  | cons c cuts ih =>
    rw [List.map_cons, List.sum_cons] at hsum
    obtain ⟨pieces, hcuts, hword⟩ := ih (w.drop c.width) (by rw [List.length_drop]; omega)
    refine ⟨⟨c.isSigned, w.take c.width⟩ :: pieces, ?_, ?_⟩
    · have hlen : (w.take c.width).length = c.width := List.length_take_of_le (by omega)
      rw [List.map_cons, hcuts, cut, hlen]
    · rw [word_cons, hword, List.take_append_drop]

/-- The fields of a cut with the values that were read. -/
theorem zip_values (pieces : List Piece) :
    ((pieces.map cut).map Cut.width).zip (pieces.map value) = pieces.map field := by
  rw [List.map_map, List.zip_map']
  rfl

theorem prod_ofBits (pieces : List Piece) :
    (pieces.map fun p => Fragment.ofBits p.bits).prod = .ofBits (word pieces) := by
  induction pieces with
  | nil => rfl
  | cons p pieces ih =>
    rw [List.map_cons, List.prod_cons, ih]
    rfl

/-! ### Recombination -/

theorem foldl_field {pieces : List Piece} (h : ∀ p ∈ pieces, p.isSigned = false) (v : ℤ) :
    (pieces.map field).foldl (fun v field => v * 2 ^ field.1 + field.2) v =
      v * 2 ^ (word pieces).length + Math.Positional.value (word pieces) := by
  induction pieces generalizing v with
  | nil => simp
  | cons p pieces ih =>
    have hvalue : p.value = Math.Positional.value p.bits := by
      rw [value, h p List.mem_cons_self]
      rfl
    rw [List.map_cons, List.foldl_cons, ih fun q hq => h q (List.mem_cons_of_mem _ hq), word_cons,
      List.length_append, value_append_int, field, hvalue, pow_add]
    ring

theorem recombine_unsigned {pieces : List Piece} (h : ∀ p ∈ pieces, p.isSigned = false) :
    recombine (pieces.map field) = Math.Positional.value (word pieces) := by
  rw [recombine, foldl_field h, zero_mul, zero_add]

/-- The sign of the first field is the sign of the whole. -/
theorem recombine_signed {p : Piece} {pieces : List Piece} (hp : p.isSigned = true)
    (hne : p.bits ≠ []) (h : ∀ q ∈ pieces, q.isSigned = false) :
    recombine ((p :: pieces).map field) = signed (word (p :: pieces)) := by
  have hvalue : p.value = signed p.bits := by rw [value, if_pos hp]
  rw [recombine, List.map_cons, List.foldl_cons, foldl_field h, zero_mul, zero_add, word_cons,
    signed_append hne, field, hvalue]

/-! ### Reading and writing back -/

variable [NumBigint] [TonTypes] [LawfulNumBigint] [LawfulTonTypes]

theorem read_reads (p : Piece) :
    Reads SliceData.content p.cut.read (.ofBits p.bits) p.value := by
  unfold Cut.read cut value
  by_cases hsigned : p.isSigned = true
  · rw [if_pos hsigned, if_pos hsigned]
    exact PySlice.i_reads p.bits
  · rw [if_neg hsigned, if_neg hsigned]
    exact (PySlice.u_reads p.bits).map _

theorem mapM_read_reads (pieces : List Piece) :
    Reads SliceData.content ((pieces.map cut).mapM Cut.read) (.ofBits (word pieces))
      (pieces.map value) := by
  rw [List.mapM_map, ← prod_ofBits]
  exact Reads.mapM pieces fun p _ => p.read_reads

/-- Either reading of a word is written as that word. -/
theorem write_writes {p : Piece} (hne : p.bits ≠ []) :
    PyBuilder.BuilderWrites (PyBuilder.i p.field.1 p.field.2) (.ofBits p.bits) := by
  have hlen : 1 ≤ p.bits.length := List.length_pos_iff.mpr hne
  unfold field value
  by_cases hsigned : p.isSigned = true
  · have hi := PyBuilder.i_writes hlen (signed_representable hlen)
    rw [twos_signed] at hi
    rwa [if_pos hsigned]
  · have hi := PyBuilder.i_writes hlen (value_representable p.bits)
    rw [twos_value] at hi
    rwa [if_neg hsigned]

end Piece

section

variable [NumBigint] [TonTypes] [LawfulNumBigint] [LawfulTonTypes]

/-- The two readings of the same bits agree modulo the width. -/
theorem i_modEq_u {s : PySlice} {bits : ℕ} (hbits : 1 ≤ bits) (h : bits ≤ s.remainingBits) :
    ∃ n u s₁ s₂, (PySlice.i bits).exec s = (.ok n, s₁) ∧ (PySlice.u bits).exec s = (.ok u, s₂) ∧
      n ≡ u [ZMOD 2 ^ bits] ∧ -(2 ^ (bits - 1)) ≤ n ∧ n < 2 ^ (bits - 1) := by
  obtain ⟨s₁, hi, -⟩ := (PySlice.i_takes _).enough _ h
  obtain ⟨s₂, hu, -⟩ := (PySlice.u_takes _).enough _ h
  have hlen : (s.bits.take bits).length = bits := List.length_take_of_le h
  have hmod := signed_emod (s.bits.take bits)
  have hrange := signed_range (s.bits.take bits)
  rw [hlen] at hmod hrange
  -- half of the range lies below zero
  have hpow : (2 : ℤ) ^ bits = 2 * 2 ^ (bits - 1) := by
    rw [← pow_succ', Nat.sub_add_cancel hbits]
  refine ⟨_, _, s₁, s₂, hi, hu, ?_, by linarith [hrange.1], by linarith [hrange.2]⟩
  rw [Int.ModEq, ← hmod, Int.emod_emod]

/-- The fields of every cut of every word: read without sign they recombine to the word
read without sign, read with the sign of the first they recombine to the word read with
sign, and however they were read they are written back as the word. -/
theorem cuts_recombine :
    (∀ (s : PySlice) (bits : ℕ), 1 ≤ bits → bits ≤ s.remainingBits →
      ∃ n u s₁ s₂, (PySlice.i bits).exec s = (.ok n, s₁) ∧
        (PySlice.u bits).exec s = (.ok u, s₂) ∧
        n ≡ u [ZMOD 2 ^ bits] ∧ -(2 ^ (bits - 1)) ≤ n ∧ n < 2 ^ (bits - 1)) ∧
    (∀ (w : List Bool) (cuts : List Cut), (∀ cut ∈ cuts, 1 ≤ cut.width) →
      (cuts.map Cut.width).sum = w.length →
      ∀ (s : PySlice) (rest : Fragment), s.content = .ofBits w * rest →
        ∃ values s', (cuts.mapM Cut.read).exec s = (.ok values, s') ∧ s'.content = rest ∧
          ((∀ cut ∈ cuts, cut.isSigned = false) →
            ∃ u s', (PySlice.u w.length).exec s = (.ok u, s') ∧
              recombine ((cuts.map Cut.width).zip values) = u) ∧
          (∀ first others, cuts = first :: others → first.isSigned = true →
            (∀ cut ∈ others, cut.isSigned = false) →
              ∃ n s', (PySlice.i w.length).exec s = (.ok n, s') ∧
                recombine ((cuts.map Cut.width).zip values) = n) ∧
          ∃ builder, PyBuilder.build (forM ((cuts.map Cut.width).zip values) fun field =>
              PyBuilder.i field.1 field.2) = .ok builder ∧
            builder.toFragment = .ofBits w) := by
  refine ⟨fun s bits hbits h => i_modEq_u hbits h, fun w cuts hpos hsum s rest hs => ?_⟩
  obtain ⟨pieces, rfl, rfl⟩ := Piece.exists_pieces cuts w hsum
  have hne : ∀ p ∈ pieces, p.bits ≠ [] := fun p hp =>
    List.length_pos_iff.mp (hpos p.cut (List.mem_map_of_mem hp))
  obtain ⟨s', hrun, hs'⟩ := Piece.mapM_read_reads pieces s rest hs
  obtain ⟨s₁, hu, -⟩ := PySlice.u_reads (Piece.word pieces) s rest hs
  obtain ⟨s₂, hi, -⟩ := PySlice.i_reads (Piece.word pieces) s rest hs
  refine ⟨_, s', hrun, hs', fun h => ?_, fun first others hcuts hfirst hothers => ?_, ?_⟩
  · rw [Piece.zip_values]
    refine ⟨_, s₁, hu, Piece.recombine_unsigned fun p hp => ?_⟩
    exact h p.cut (List.mem_map_of_mem hp)
  · rw [Piece.zip_values]
    refine ⟨_, s₂, hi, ?_⟩
    obtain ⟨p, ps, rfl, rfl, rfl⟩ := List.map_eq_cons_iff.mp hcuts
    refine Piece.recombine_signed hfirst (hne p List.mem_cons_self) fun q hq => ?_
    exact hothers q.cut (List.mem_map_of_mem hq)
  · -- the word fits a builder, since it comes from a slice
    have hfits : (Fragment.ofBits (Piece.word pieces)).Fits :=
      Fragment.Fits.left _ rest (hs ▸ s.content_fits)
    have hwrites := Writes.forM Fragment.Fits.left pieces fun p hp => Piece.write_writes (hne p hp)
    rw [Piece.prod_ofBits] at hwrites
    rw [Piece.zip_values, List.forM_map]
    exact ⟨_, PyBuilder.build_eq hwrites hfits, rfl⟩

end

section Reference

open scoped Reference

/-- The slice that shows a byte, `10011010`. -/
def byteSlice : PySlice :=
  .ofCell (.ordinary ⟨.ofBits [true, false, false, true, true, false, true, false], by decide⟩)

/-- A byte cut into three bits with sign and five without. -/
theorem cuts_recombine_byte :
    (∃ n u s₁ s₂, (PySlice.i 3).exec byteSlice = (.ok n, s₁) ∧
      (PySlice.u 3).exec byteSlice = (.ok u, s₂) ∧
      n ≡ u [ZMOD 2 ^ 3] ∧ -(2 ^ (3 - 1)) ≤ n ∧ n < 2 ^ (3 - 1)) ∧
    ∃ values s', ([⟨true, 3⟩, ⟨false, 5⟩].mapM Cut.read).exec byteSlice = (.ok values, s') ∧
      (∃ n s', (PySlice.i 8).exec byteSlice = (.ok n, s') ∧
        recombine ([3, 5].zip values) = n) ∧
      ∃ builder, PyBuilder.build (forM ([3, 5].zip values) fun field =>
          PyBuilder.i field.1 field.2) = .ok builder ∧
        builder.toFragment = .ofBits byteSlice.bits := by
  obtain ⟨values, s', hrun, -, -, hsigned, hwrite⟩ :=
    cuts_recombine.2 byteSlice.bits [⟨true, 3⟩, ⟨false, 5⟩] (by simp) rfl byteSlice 1 rfl
  exact ⟨cuts_recombine.1 byteSlice 3 (by decide) (by decide), values, s', hrun,
    hsigned ⟨true, 3⟩ [⟨false, 5⟩] rfl rfl (by simp), hwrite⟩

end Reference

end EverPlayground
