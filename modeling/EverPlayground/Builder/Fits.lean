import EverPlayground.Builder.Run

/-!
# Room in a builder

`Builder.fits` tells whether a slice and some extra bits and references can still be
appended. It adds the sizes as machine words before it compares them with the free space,
so a sum just above `2 ^ 64` is taken for a small one.

## Main definitions

* `PyBuilder.Op.WellFormed` — a call that only the capacity of the builder can stop
* `PyBuilder.Overruns` — a sum that is recognised as too large

## Main results

* `PyBuilder.fits_predicts_iff` — when the answer of `fits` is right, and that the right
  answer is whether the appends succeed, in whichever order they are made
-/

set_option autoImplicit false

namespace EverPlayground

open Math.Positional Semantics Semantics.Cursor

namespace PyBuilder

namespace Op

/-- The arguments are in order, so that the call returns wherever there is room. -/
def WellFormed [TonTypes] : Op → Prop
  | i bits _ => 1 ≤ bits
  | ib bin => ∀ c ∈ bin.toList, isBit c = true
  | x bitstring => ∃ slice, TonTypes.fromString bitstring = .ok slice
  | rejected _ => False
  | s _ | b _ | y _ | r _ => True

section

variable [NumBigint] [TonTypes]

def bitSize : Op → ℕ
  | i bits _ => bits
  | op => op.fragment.bits.length

def refSize (op : Op) : ℕ := op.fragment.refs.length

variable [LawfulTonTypes]

/-- A well-formed call appends a fragment of its size, or raises where that does not fit. -/
theorem WellFormed.writesExactly {op : Op} (h : op.WellFormed) :
    ∃ f : Fragment, f.bits.length = op.bitSize ∧ f.refs.length = op.refSize ∧
      BuilderWritesExactly op.call f := by
  cases op with
  | s slice => exact ⟨_, rfl, rfl, s_writesExactly slice⟩
  | b builder => exact ⟨_, rfl, rfl, b_writesExactly builder⟩
  | i bits integer =>
    obtain ⟨a, w, hw, happ, hi⟩ := i_appends h integer
    have hrefs : (Op.i bits integer).refSize = 0 := by
      obtain ⟨buf, hbuf, -⟩ := le_length_intSerialize integer bits
      rw [refSize, fragment, intFragment, hbuf]
      rfl
    refine ⟨.ofBits w, hw, hrefs.symm, ?_⟩
    rw [call, hi]
    exact writesExactly_of_appends happ
  | ib bin => exact ⟨_, rfl, rfl, ib_writesExactly h⟩
  | x bitstring =>
    obtain ⟨slice, hslice⟩ := h
    have hfragment : (Op.x bitstring).fragment = slice.content := by
      rw [fragment, stringFragment, hslice]
    refine ⟨(Op.x bitstring).fragment, rfl, rfl, ?_⟩
    rw [call, x_eq_s hslice, hfragment]
    exact s_writesExactly slice
  | y bytes => exact ⟨_, rfl, rfl, y_writesExactly bytes⟩
  | r cell => exact ⟨_, rfl, rfl, r_writesExactly cell⟩
  | rejected err => exact absurd h id

/-- Whether all calls of a list return depends on the sums of their sizes only. -/
theorem forM_call_returns_iff {ops : List Op} (h : ∀ op ∈ ops, op.WellFormed)
    (builder : PyBuilder) :
    (∃ builder', (forM ops call).exec builder = (.ok (), builder')) ↔
      builder.bits.length + (ops.map bitSize).sum ≤ maxBits ∧
        builder.refs.length + (ops.map refSize).sum ≤ maxRefs := by
  -- one fragment for every call, whatever it is where the call is not well formed
  have hchoice : ∀ op : Op, ∃ f : Fragment, op.WellFormed → f.bits.length = op.bitSize ∧
      f.refs.length = op.refSize ∧ BuilderWritesExactly op.call f := by
    intro op
    by_cases hop : op.WellFormed
    · obtain ⟨f, hf⟩ := hop.writesExactly
      exact ⟨f, fun _ => hf⟩
    · exact ⟨1, fun h => absurd h hop⟩
  choose enc henc using hchoice
  have hwrites : BuilderWritesExactly (forM ops call) (ops.map enc).prod :=
    WritesExactly.forM BuilderData.fits Fragment.Fits.left ops fun op hop =>
      (henc op (h op hop)).2.2
  have hsizes : (ops.map enc).prod.bits.length = (ops.map bitSize).sum ∧
      (ops.map enc).prod.refs.length = (ops.map refSize).sum := by
    clear hwrites
    induction ops with
    | nil => exact ⟨rfl, rfl⟩
    | cons op ops ih =>
      obtain ⟨hbits, hrefs⟩ := ih fun op' hop' => h op' (List.mem_cons_of_mem _ hop')
      obtain ⟨hbit, href, -⟩ := henc op (h op List.mem_cons_self)
      simp only [List.map_cons, List.prod_cons, List.sum_cons, Fragment.mul_bits,
        Fragment.mul_refs, List.length_append, hbit, href, hbits, hrefs, and_self]
  rw [hwrites.returns_iff, Fragment.Fits, Fragment.mul_bits, Fragment.mul_refs,
    List.length_append, List.length_append, hsizes.1, hsizes.2]

end

end Op

/-! ### The answer of `fits` -/

/-- A sum of two machine words that is still larger than the free space after it has
wrapped around. -/
def Overruns (free sum : ℕ) : Prop := free < sum ∧ ¬ (2 ^ 64 ≤ sum ∧ sum ≤ 2 ^ 64 + free)

/-- One budget: the wrapped sum is in it unless the sum overruns it. -/
theorem add_usizeAdd_le_iff {used cap m n : ℕ} (hused : used ≤ cap) (hcap : cap < 2 ^ 64)
    (hm : m ≤ cap) (hn : n < 2 ^ 64) :
    used + usizeAdd m n ≤ cap ↔ ¬ Overruns (cap - used) (m + n) := by
  unfold usizeAdd Overruns
  omega

section

variable [NumBigint] [TonTypes] [LawfulTonTypes]

omit [NumBigint] in
theorem fits_eq_true_iff (builder : PyBuilder) (slice : PySlice) {extraBits extraRefs : ℕ}
    (hbits : extraBits < 2 ^ 64) (hrefs : extraRefs < 2 ^ 64) :
    fits builder slice extraBits extraRefs = true ↔
      ¬ Overruns (maxBits - builder.bits.length) (slice.remainingBits + extraBits) ∧
        ¬ Overruns (maxRefs - builder.refs.length) (slice.remainingReferences + extraRefs) := by
  have hused := BuilderData.fits builder
  have hslice : slice.remainingBits ≤ maxBits ∧ slice.remainingReferences ≤ maxRefs :=
    slice.content_fits
  rw [fits, Bool.and_eq_true, LawfulTonTypes.checkEnoughSpace, LawfulTonTypes.checkEnoughRefs,
    add_usizeAdd_le_iff hused.1 (by decide) hslice.1 hbits,
    add_usizeAdd_le_iff hused.2 (by decide) hslice.2 hrefs]

omit [NumBigint] in
/-- For something extra that is itself no larger than a cell, a positive answer is right. -/
theorem fits_mul_of_fits {builder : PyBuilder} {slice : PySlice} (extra : Fragment)
    (hextra : extra.Fits)
    (h : fits builder slice extra.bits.length extra.refs.length = true) :
    (builder.toFragment * (extra * slice.content)).Fits := by
  obtain ⟨hbits, hrefs⟩ := hextra
  obtain ⟨hused, hcount⟩ := BuilderData.fits builder
  have hmaxBits : maxBits = 1023 := rfl
  have hmaxRefs : maxRefs = 4 := rfl
  have hslice : slice.remainingBits ≤ maxBits ∧ slice.remainingReferences ≤ maxRefs :=
    slice.content_fits
  obtain ⟨hroom, hplaces⟩ := (fits_eq_true_iff builder slice (by omega) (by omega)).mp h
  unfold Overruns PySlice.remainingBits at hroom
  unfold Overruns PySlice.remainingReferences at hplaces
  unfold PySlice.remainingBits PySlice.remainingReferences at hslice
  constructor
  · rw [Fragment.mul_bits, Fragment.mul_bits, List.length_append, List.length_append,
      SliceData.content_bits]
    omega
  · rw [Fragment.mul_refs, Fragment.mul_refs, List.length_append, List.length_append,
      SliceData.content_refs]
    omega

/-- The answer of `fits` is right unless one of the sums wraps around and neither is
recognised as too large. The right answer is whether all appends return, of the slice and
of whatever makes up the extra bits and references, in any order. -/
theorem fits_predicts_iff (builder : PyBuilder) (slice : PySlice) {extraBits extraRefs : ℕ}
    (hbits : extraBits < 2 ^ 64) (hrefs : extraRefs < 2 ^ 64) :
    ((fits builder slice extraBits extraRefs = true ↔
        builder.bits.length + slice.remainingBits + extraBits ≤ maxBits ∧
          builder.refs.length + slice.remainingReferences + extraRefs ≤ maxRefs) ↔
      slice.remainingBits + extraBits < 2 ^ 64 ∧
          slice.remainingReferences + extraRefs < 2 ^ 64 ∨
        Overruns (maxBits - builder.bits.length) (slice.remainingBits + extraBits) ∨
        Overruns (maxRefs - builder.refs.length) (slice.remainingReferences + extraRefs)) ∧
    (∀ extra ops : List Op, (∀ op ∈ extra, op.WellFormed) →
      (extra.map Op.bitSize).sum = extraBits → (extra.map Op.refSize).sum = extraRefs →
      ops.Perm (.s slice :: extra) →
        ((∃ builder', (forM ops Op.call).exec builder = (.ok (), builder')) ↔
          builder.bits.length + slice.remainingBits + extraBits ≤ maxBits ∧
            builder.refs.length + slice.remainingReferences + extraRefs ≤ maxRefs)) := by
  constructor
  · have hused := BuilderData.fits builder
    have hmaxBits : maxBits = 1023 := rfl
    have hmaxRefs : maxRefs = 4 := rfl
    have hfits := fits_eq_true_iff builder slice hbits hrefs
    rw [hfits]
    unfold Overruns
    unfold Fragment.Fits at hused
    omega
  · rintro extra ops hwf rfl rfl hperm
    have hwf' : ∀ op ∈ ops, op.WellFormed := by
      intro op hop
      rcases List.mem_cons.mp (hperm.mem_iff.mp hop) with rfl | hop
      · trivial
      · exact hwf op hop
    -- the sums do not depend on the order
    have hbitSum := (hperm.map Op.bitSize).sum_eq
    have hrefSum := (hperm.map Op.refSize).sum_eq
    rw [List.map_cons, List.sum_cons] at hbitSum hrefSum
    rw [Op.forM_call_returns_iff hwf', hbitSum, hrefSum, Nat.add_assoc, Nat.add_assoc]
    rfl

end

section Reference

open scoped Reference

/-- A slice of one bit. -/
def oneBit : PySlice := .ofCell (.ordinary ⟨.ofBits [true], by decide⟩)

/-- A slice, a byte and a reference, asked for in this order and appended in another. -/
theorem fits_predicts_iff_byte :
    ((fits .new oneBit 8 1 = true ↔
        BuilderData.new.bits.length + oneBit.remainingBits + 8 ≤ maxBits ∧
          BuilderData.new.refs.length + oneBit.remainingReferences + 1 ≤ maxRefs) ↔
      oneBit.remainingBits + 8 < 2 ^ 64 ∧ oneBit.remainingReferences + 1 < 2 ^ 64 ∨
        Overruns (maxBits - BuilderData.new.bits.length) (oneBit.remainingBits + 8) ∨
        Overruns (maxRefs - BuilderData.new.refs.length) (oneBit.remainingReferences + 1)) ∧
    ((∃ builder', (forM [Op.r (.ordinary .new), .s oneBit, .i 8 5] Op.call).exec .new =
        (.ok (), builder')) ↔
      BuilderData.new.bits.length + oneBit.remainingBits + 8 ≤ maxBits ∧
        BuilderData.new.refs.length + oneBit.remainingReferences + 1 ≤ maxRefs) := by
  have h := fits_predicts_iff .new oneBit (by decide : 8 < 2 ^ 64) (by decide : 1 < 2 ^ 64)
  refine ⟨h.1, h.2 [.i 8 5, .r (.ordinary .new)] _ ?_ rfl rfl ?_⟩
  · intro op hop
    rcases List.mem_pair.mp hop with rfl | rfl
    · exact Nat.one_le_ofNat
    · trivial
  · exact @List.perm_append_comm Op [.r (.ordinary .new)] [.s oneBit, .i 8 5]

/-- With `2 ^ 64 - 1` extra bits the sum wraps around to zero. -/
theorem fits_wraps_around :
    fits .new oneBit (2 ^ 64 - 1) 0 = true ∧
      ¬ (BuilderData.new.bits.length + oneBit.remainingBits + (2 ^ 64 - 1) ≤ maxBits ∧
        BuilderData.new.refs.length + oneBit.remainingReferences + 0 ≤ maxRefs) := by
  decide

end Reference

end PyBuilder

end EverPlayground
