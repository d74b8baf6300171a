import EverPlayground.Builder.Fits
import EverPlayground.Semantics.Trace

/-!
# What a run of calls makes of a builder

A caller who catches every exception goes on with a builder whose calls have returned or
raised in any mixture. What the calls answer, and what they leave, is a function of the
content alone: a call puts its whole part behind the content, or nothing, except that `ib`
puts as many digits as there are and have room. How full the builder was decides what is
added, and what was in it does not.

## Main definitions

* `Op.argsOk` — the arguments are not what makes the call raise
* `Op.absorb` — the answer to a call and the content behind it

## Main results

* `Op.trace_absorb` — a run of calls on a builder, as a run on its content
* `Op.trace_frame` — builders that are equally full are extended alike
-/

set_option autoImplicit false

namespace EverPlayground

open Semantics Semantics.Cursor

namespace PyBuilder

namespace Op

section

variable [NumBigint] [TonTypes]

/-- Whether the call returns on some builder; a binary string is looked at by its digits. -/
def argsOk : Op → Bool
  | i bits _ => 1 ≤ bits ∧ bits ≤ maxBits
  | x bitstring => (TonTypes.fromString bitstring).isOk
  | rejected _ => false
  | _ => true

/-- The answer to a call, or none where it raises, and the content that it leaves. -/
def absorb : Op → Fragment → Option Unit × Fragment
  | ib bin, f =>
    let digits := (bin.toList.takeWhile isBit).take (maxBits - f.bits.length)
    (if digits.length = bin.toList.length then some () else none, f * .ofBits (digitBits digits))
  | op, f =>
    if op.argsOk = true ∧ (f * op.fragment).Fits then (some (), f * op.fragment) else (none, f)

theorem absorb_of_not_ib {op : Op} (hib : ∀ bin, op ≠ ib bin) (f : Fragment) :
    absorb op f =
      if op.argsOk = true ∧ (f * op.fragment).Fits then (some (), f * op.fragment)
      else (none, f) := by
  cases op with
  | ib bin => exact absurd rfl (hib bin)
  | _ => rfl

variable [LawfulTonTypes]

/-! ### One call -/

/-- With arguments that are in order the call is stopped by the capacity only. -/
theorem writesExactly_of_argsOk {op : Op} (hib : ∀ bin, op ≠ ib bin) (h : op.argsOk = true) :
    BuilderWritesExactly op.call op.fragment := by
  cases op with
  | s slice => exact s_writesExactly slice
  | b builder => exact b_writesExactly builder
  | i bits integer =>
    obtain ⟨hpos, hle⟩ := of_decide_eq_true h
    obtain ⟨buf, hbuf, hlen⟩ := le_length_intSerialize integer bits
    have hbits : bits + 7 < 2 ^ 64 := by
      rw [maxBits] at hle
      omega
    rw [call, i_eq_appendRaw hpos hbuf, fragment, intFragment, hbuf]
    exact writesExactly_of_appends (LawfulTonTypes.appendRaw buf bits (hlen hbits))
  | ib bin => exact absurd rfl (hib bin)
  | x bitstring =>
    cases hstring : TonTypes.fromString bitstring with
    | error e =>
      rw [argsOk, hstring] at h
      cases h
    | ok slice =>
      rw [call, x_eq_s hstring, fragment, stringFragment, hstring]
      exact s_writesExactly slice
  | y bytes => exact y_writesExactly bytes
  | r cell => exact r_writesExactly cell
  | rejected err => cases h

/-- With other arguments no builder lets it return. -/
theorem raises_of_not_argsOk {op : Op} (h : op.argsOk = false) (builder : PyBuilder) :
    ∃ e builder', op.call.exec builder = (.error e, builder') := by
  cases op with
  | i bits integer =>
    have hout : ¬ (1 ≤ bits ∧ bits ≤ maxBits) := of_decide_eq_false h
    rcases Nat.eq_zero_or_pos bits with rfl | hpos
    · exact ⟨_, builder, rfl⟩
    · -- the word is as long as the width, whatever the encoder makes of the integer
      obtain ⟨a, w, hw, happ, hi⟩ := i_appends hpos integer
      have hover : ¬ (builder.toFragment * .ofBits w).Fits := by
        rw [BuilderData.fits_mul_ofBits_iff, hw]
        omega
      rw [call, hi]
      exact (writesExactly_of_appends happ).raises builder hover
  | x bitstring =>
    cases hstring : TonTypes.fromString bitstring with
    | error e =>
      refine ⟨runtimeErr e, builder, ?_⟩
      rw [call, PyBuilder.x, hstring]
      rfl
    | ok slice =>
      rw [argsOk, hstring] at h
      cases h
  | rejected err => exact ⟨err, builder, rfl⟩
  | _ => cases h

/-- A call that is a single append answers, and leaves the content, as described. -/
theorem answer_of_not_ib {op : Op} (hib : ∀ bin, op ≠ ib bin) (builder : PyBuilder) :
    (answer call op builder).1 = (absorb op builder.toFragment).1 ∧
      (answer call op builder).2.toFragment = (absorb op builder.toFragment).2 := by
  rw [absorb_of_not_ib hib]
  by_cases h : op.argsOk = true ∧ (builder.toFragment * op.fragment).Fits
  · obtain ⟨builder', hrun, hcontent⟩ := (writesExactly_of_argsOk hib h.1).writes builder h.2
    rw [if_pos h, answer_of_ok hrun]
    exact ⟨rfl, hcontent⟩
  · -- whatever stops it, a single append has then appended nothing
    have hraises : ∃ e builder', op.call.exec builder = (.error e, builder') := by
      cases hargs : op.argsOk with
      | true =>
        exact (writesExactly_of_argsOk hib hargs).raises builder fun hfits => h ⟨hargs, hfits⟩
      | false => exact raises_of_not_argsOk hargs builder
    obtain ⟨e, builder', hrun⟩ := hraises
    obtain rfl := (isAppend hib).atomicAt builder e builder' hrun
    rw [if_neg h, answer_of_raises ⟨e, hrun⟩]
    exact ⟨rfl, rfl⟩

omit [NumBigint] [TonTypes] [LawfulTonTypes] in
/-- The digits that are appended are those in front of the first other character, as far as
there is room. -/
theorem take_ibCount (cs : List Char) (builder : PyBuilder) :
    cs.take (ibCount cs builder) =
      (cs.takeWhile isBit).take (maxBits - builder.bits.length) := by
  have hfront := List.prefix_iff_eq_take.mp (List.takeWhile_prefix isBit (l := cs))
  conv_rhs => rw [hfront]
  rw [List.take_take, ibCount, Nat.min_comm]

/-- A binary string goes in digit by digit, as far as it does. -/
theorem answer_ib (bin : String) (builder : PyBuilder) :
    (answer call (ib bin) builder).1 = (absorb (ib bin) builder.toFragment).1 ∧
      (answer call (ib bin) builder).2.toFragment = (absorb (ib bin) builder.toFragment).2 := by
  obtain ⟨r, builder', hrun, hcontent, hok, herror⟩ := ibAppends_ibCount bin bin.toList builder
  rw [← PyBuilder.ib] at hrun
  rw [take_ibCount] at hcontent
  have hlen : ((bin.toList.takeWhile isBit).take (maxBits - builder.bits.length)).length =
      ibCount bin.toList builder := by
    rw [List.length_take, ibCount, Nat.min_comm]
  have hanswer : answer call (ib bin) builder = (r.toOption, builder') := by
    rw [answer, call, hrun]
  rw [hanswer, absorb, hlen]
  refine ⟨?_, hcontent⟩
  by_cases hwhole : ibCount bin.toList builder = bin.toList.length
  · rw [if_pos hwhole, hok hwhole]
    rfl
  · obtain ⟨e, rfl⟩ := herror hwhole
    rw [if_neg hwhole]
    rfl

theorem answer_eq_absorb (op : Op) (builder : PyBuilder) :
    (answer call op builder).1 = (absorb op builder.toFragment).1 ∧
      (answer call op builder).2.toFragment = (absorb op builder.toFragment).2 := by
  by_cases h : ∃ bin, op = ib bin
  · obtain ⟨bin, rfl⟩ := h
    exact answer_ib bin builder
  · exact answer_of_not_ib (not_exists.mp h) builder

/-! ### A run -/

/-- In every run of calls with every exception caught, each call answers as it is described by
the content that the calls before have left, whether they returned or not, and so is the
content at the end. -/
theorem trace_absorb (ops : List Op) (builder : PyBuilder) :
    (trace (answer call) ops builder).1 = (trace absorb ops builder.toFragment).1 ∧
      (trace (answer call) ops builder).2.toFragment =
        (trace absorb ops builder.toFragment).2 := by
  have hstep : ∀ (op : Op) (b : PyBuilder) (f : Fragment), b.toFragment = f →
      (answer call op b).1 = (absorb op f).1 ∧
        (answer call op b).2.toFragment = (absorb op f).2 := by
    rintro op b _ rfl
    exact answer_eq_absorb op b
  exact trace_congr (R := fun (b : PyBuilder) f => b.toFragment = f) (fun op _ => hstep op) rfl

omit [LawfulTonTypes] in
/-- What a call adds depends on how full the builder is. -/
theorem absorb_congr (op : Op) {f f' : Fragment} (hbits : f.bits.length = f'.bits.length)
    (hrefs : f.refs.length = f'.refs.length) :
    (absorb op f).1 = (absorb op f').1 ∧
      ∃ g, (absorb op f).2 = f * g ∧ (absorb op f').2 = f' * g := by
  by_cases h : ∃ bin, op = ib bin
  · obtain ⟨bin, rfl⟩ := h
    rw [absorb, absorb, hbits]
    exact ⟨rfl, _, rfl, rfl⟩
  · have hfits : (f * op.fragment).Fits ↔ (f' * op.fragment).Fits := by
      simp only [Fragment.Fits, Fragment.mul_bits, Fragment.mul_refs, List.length_append, hbits,
        hrefs]
    rw [absorb_of_not_ib (not_exists.mp h), absorb_of_not_ib (not_exists.mp h)]
    by_cases hroom : op.argsOk = true ∧ (f * op.fragment).Fits
    · rw [if_pos hroom, if_pos (hroom.imp_right hfits.mp)]
      exact ⟨rfl, op.fragment, rfl, rfl⟩
    · rw [if_neg hroom, if_neg fun h' => hroom (h'.imp_right hfits.mpr)]
      exact ⟨rfl, 1, (mul_one f).symm, (mul_one f').symm⟩

/-- On two builders with as many bits and as many references the same calls of a run return,
and the same is added to both. -/
theorem trace_frame (ops : List Op) {builder builder' : PyBuilder}
    (hbits : builder.bits.length = builder'.bits.length)
    (hrefs : builder.refs.length = builder'.refs.length) :
    (trace (answer call) ops builder).1 = (trace (answer call) ops builder').1 ∧
      ∃ g, (trace (answer call) ops builder).2.toFragment = builder.toFragment * g ∧
        (trace (answer call) ops builder').2.toFragment = builder'.toFragment * g := by
  obtain ⟨hanswers, hcontent⟩ := trace_absorb ops builder
  obtain ⟨hanswers', hcontent'⟩ := trace_absorb ops builder'
  rw [hanswers, hanswers', hcontent, hcontent']
  have hstep : ∀ (op : Op) (f f' : Fragment),
      (∃ g, f = builder.toFragment * g ∧ f' = builder'.toFragment * g) →
        (absorb op f).1 = (absorb op f').1 ∧
          ∃ g, (absorb op f).2 = builder.toFragment * g ∧
            (absorb op f').2 = builder'.toFragment * g := by
    rintro op _ _ ⟨g, rfl, rfl⟩
    have hlen : (builder.toFragment * g).bits.length = (builder'.toFragment * g).bits.length := by
      rw [Fragment.mul_bits, Fragment.mul_bits, List.length_append, List.length_append, hbits]
    have hcount : (builder.toFragment * g).refs.length =
        (builder'.toFragment * g).refs.length := by
      rw [Fragment.mul_refs, Fragment.mul_refs, List.length_append, List.length_append, hrefs]
    obtain ⟨hanswer, g', hg, hg'⟩ := absorb_congr op hlen hcount
    exact ⟨hanswer, g * g', by rw [hg, mul_assoc], by rw [hg', mul_assoc]⟩
  exact trace_congr
    (R := fun f f' => ∃ g, f = builder.toFragment * g ∧ f' = builder'.toFragment * g)
    (fun op _ => hstep op) ⟨1, (mul_one _).symm, (mul_one _).symm⟩

end

section Reference

open scoped Reference

/-- A string that is cut off at its second character, and a reference behind its first. -/
theorem trace_absorb_refused :
    (trace (answer call) [ib "12", r (.ordinary .new)] .new).1 =
        (trace absorb [ib "12", r (.ordinary .new)] BuilderData.new.toFragment).1 ∧
      (trace (answer call) [ib "12", r (.ordinary .new)] .new).2.toFragment =
        (trace absorb [ib "12", r (.ordinary .new)] BuilderData.new.toFragment).2 :=
  trace_absorb [ib "12", r (.ordinary .new)] .new

theorem bit_fits (bit : Bool) : (Fragment.ofBits [bit]).Fits := by
  cases bit <;> decide

/-- A builder of one bit. -/
def bitBuilder (bit : Bool) : PyBuilder := ⟨.ofBits [bit], bit_fits bit⟩

theorem trace_frame_bitBuilder :
    (trace (answer call) [ib "12", r (.ordinary .new)] (bitBuilder true)).1 =
        (trace (answer call) [ib "12", r (.ordinary .new)] (bitBuilder false)).1 ∧
      ∃ g, (trace (answer call) [ib "12", r (.ordinary .new)] (bitBuilder true)).2.toFragment =
          (bitBuilder true).toFragment * g ∧
        (trace (answer call) [ib "12", r (.ordinary .new)] (bitBuilder false)).2.toFragment =
          (bitBuilder false).toFragment * g :=
  trace_frame [ib "12", r (.ordinary .new)] rfl rfl

end Reference

end Op

end PyBuilder

end EverPlayground
