import EverPlayground.Builder.Append
import EverPlayground.Semantics.Attempts

/-!
# Runs of builder calls

Builders are mutated in place and their calls are chained. All calls but one are a single
append, so when such a call raises the builder is as it was. The exception is `ib`, which
appends digit by digit: when it raises half way, the digits before stay.

## Main definitions

* `PyBuilder.Op` — one call with its arguments
* `PyBuilder.Op.WholeOrNothing` — the call does not stop half way

## Main results

* `PyBuilder.Op.atomicAt_iff` — a call that does not stop half way, and no other, leaves
  the builder alone when it raises; a run of such calls leaves what its successful calls
  appended
-/

set_option autoImplicit false

namespace EverPlayground

open Math.Positional Semantics Semantics.Cursor

namespace PyBuilder

/-- A call on a builder. -/
inductive Op where
  | s (slice : PySlice)
  | b (builder : PyBuilder)
  | i (bits : ℕ) (integer : ℤ)
  | ib (bin : String)
  | x (bitstring : String)
  | y (bytes : List UInt8)
  | r (cell : Cell)
  /-- A call of any method with an argument that cannot be converted to the type of the
  parameter; the exception comes before the method. -/
  | rejected (err : PyErr)

namespace Op

section

variable [NumBigint] [TonTypes]

def call : Op → Mut PyErr PyBuilder Unit
  | s slice => PyBuilder.s slice
  | b builder => PyBuilder.b builder
  | i bits integer => PyBuilder.i bits integer
  | ib bin => PyBuilder.ib bin
  | x bitstring => PyBuilder.x bitstring
  | y bytes => PyBuilder.y bytes
  | r cell => PyBuilder.r cell
  | rejected err => throw err

/-- The front of the buffer that the encoder makes. -/
def intFragment (bits : ℕ) (integer : ℤ) : Fragment :=
  match intSerialize integer bits with
  | .ok bytes => .ofBits ((bytesToBits bytes).take bits)
  | .error _ => 1

def stringFragment (bitstring : String) : Fragment :=
  match TonTypes.fromString bitstring with
  | .ok slice => slice.content
  | .error _ => 1

/-- What the call appends if it returns. -/
def fragment : Op → Fragment
  | s slice => slice.content
  | b builder => builder.toFragment
  | i bits integer => intFragment bits integer
  | ib bin => .ofBits (digitBits bin.toList)
  | x bitstring => stringFragment bitstring
  | y bytes => .ofBits (bytesToBits bytes)
  | r cell => .ofRef cell
  | rejected _ => 1

end

/-- Unless all its digits go in, not one of them does. -/
def WholeOrNothing : Op → PyBuilder → Prop
  | ib bin, builder =>
    (∀ c ∈ bin.toList, isBit c = true) ∧ builder.bits.length + bin.toList.length ≤ maxBits ∨
      (∀ c ∈ bin.toList.head?, isBit c = false) ∨ builder.bits.length = maxBits
  | _, _ => True

end Op

/-! ### Calls that are a single append -/

/-- The call is one append, or it raises without any. -/
def IsAppend (x : Mut PyErr PyBuilder Unit) (f : Fragment) : Prop :=
  (∃ a, x = a.mapErr runtimeErr ∧ BuilderData.Appends a f) ∨ ∀ builder, x.Raises builder

theorem IsAppend.atomicAt {x : Mut PyErr PyBuilder Unit} {f : Fragment} (h : IsAppend x f)
    (builder : PyBuilder) : AtomicAt x builder := by
  intro e builder' hrun
  -- whatever raises, raises on the builder as it is
  have hraises : x.Raises builder := by
    rcases h with ⟨a, rfl, happ⟩ | hraises
    · refine (happ.overflow builder fun hfits => ?_).mapErr runtimeErr
      rw [Mut.exec_mapErr, happ.fits builder hfits] at hrun
      cases hrun
    · exact hraises builder
  obtain ⟨e', hrun'⟩ := hraises
  rw [hrun] at hrun'
  exact congrArg Prod.snd hrun'

theorem IsAppend.extends {x : Mut PyErr PyBuilder Unit} {f : Fragment} (h : IsAppend x f) :
    Extends BuilderData.toFragment x f := by
  intro builder builder' _ hrun
  rcases h with ⟨a, rfl, happ⟩ | hraises
  · exact (writesExactly_of_appends happ).content_eq hrun
  · exact absurd hrun (hraises builder).not_ok

section

variable [TonTypes] [LawfulTonTypes]

theorem x_isAppend (bitstring : String) :
    IsAppend (x bitstring) (Op.stringFragment bitstring) := by
  unfold x Op.stringFragment
  cases TonTypes.fromString bitstring with
  | error e => exact Or.inr fun builder => ⟨_, rfl⟩
  | ok slice =>
    refine Or.inl ⟨_, ?_, LawfulTonTypes.checkedAppendReferencesAndData slice⟩
    exact Mut.ext fun _ => Mut.exec_bind_ok rfl

theorem y_isAppend (bytes : List UInt8) :
    IsAppend (y bytes) (.ofBits (bytesToBits bytes)) := by
  rcases y_cases bytes with ⟨-, hraises⟩ | ⟨raw, hraw, hy⟩
  · exact Or.inr hraises
  · exact Or.inl ⟨_, hy, hraw ▸ LawfulTonTypes.appendBuilder raw⟩

variable [NumBigint]

theorem i_isAppend (bits : ℕ) (integer : ℤ) :
    IsAppend (i bits integer) (Op.intFragment bits integer) := by
  rcases Nat.eq_zero_or_pos bits with rfl | hbits
  · exact Or.inr fun builder => ⟨_, rfl⟩
  · obtain ⟨buf, hbuf, -⟩ := le_length_intSerialize integer bits
    rw [i_eq_appendRaw hbits hbuf, Op.intFragment, hbuf]
    rcases Nat.lt_or_ge (8 * buf.length) bits with hshort | hle
    · refine Or.inr fun builder => Mut.Raises.mapErr ?_ runtimeErr
      exact LawfulTonTypes.appendRaw_short buf bits builder hshort
    · exact Or.inl ⟨_, rfl, LawfulTonTypes.appendRaw buf bits hle⟩

/-! ### Binary strings -/

/-- How many digits `ib` appends: up to the first character that is none, as far as there
is room. -/
def ibCount (cs : List Char) (builder : PyBuilder) : ℕ :=
  min (cs.takeWhile isBit).length (maxBits - builder.bits.length)

/-- The loop of `ib` over these characters appends the first `count` of them, and returns
when these are all. -/
def IbAppends (bin : String) (cs : List Char) (builder : PyBuilder) (count : ℕ) : Prop :=
  ∃ r builder', (forM cs (ibDigit bin)).exec builder = (r, builder') ∧
    builder'.toFragment = builder.toFragment * .ofBits (digitBits (cs.take count)) ∧
    (count = cs.length → r = .ok ()) ∧ (count ≠ cs.length → ∃ e, r = .error e)

omit [NumBigint] [LawfulTonTypes] in
/-- A character that is refused ends the loop. -/
theorem IbAppends.stop {bin : String} {c : Char} {builder : PyBuilder}
    (h : (ibDigit bin c).Raises builder) (cs : List Char) :
    IbAppends bin (c :: cs) builder 0 := by
  obtain ⟨e, he⟩ := h
  unfold IbAppends
  rw [List.forM_cons]
  exact ⟨_, builder, Mut.exec_bind_error he, (mul_one _).symm,
    fun h => absurd h (Nat.succ_ne_zero _).symm, fun _ => ⟨e, rfl⟩⟩

omit [NumBigint] [LawfulTonTypes] in
/-- A digit that is appended comes before what the rest of the loop appends. -/
theorem IbAppends.cons {bin : String} {c : Char} {cs : List Char} {builder : PyBuilder}
    {hfits : (builder.toFragment * .ofBits [c == '1']).Fits} {count : ℕ}
    (hrun : (ibDigit bin c).exec builder = (.ok (), ⟨_, hfits⟩))
    (h : IbAppends bin cs ⟨_, hfits⟩ count) : IbAppends bin (c :: cs) builder (count + 1) := by
  obtain ⟨r, builder', hrun', hcontent, hok, herror⟩ := h
  unfold IbAppends
  rw [List.forM_cons, List.length_cons, ne_eq, Nat.add_right_cancel_iff]
  refine ⟨r, builder', by rw [Mut.exec_bind_ok hrun, hrun'], ?_, hok, herror⟩
  rw [hcontent, List.take_succ_cons, digitBits_cons, mul_assoc]

omit [NumBigint] in
theorem ibAppends_ibCount (bin : String) (cs : List Char) (builder : PyBuilder) :
    IbAppends bin cs builder (ibCount cs builder) := by
  induction cs generalizing builder with
  | nil => exact ⟨.ok (), builder, rfl, (mul_one _).symm, fun _ => rfl, fun h => absurd rfl h⟩
  | cons c cs ih =>
    by_cases hbit : isBit c = true
    · obtain ⟨x, hx, happ⟩ := ibDigit_appends bin hbit
      by_cases hfits : (builder.toFragment * .ofBits [c == '1']).Fits
      · have hrun := Mut.exec_mapErr_eq_ok_iff (f := runtimeErr).mpr (happ.fits builder hfits)
        rw [← hx] at hrun
        have hcount : ibCount (c :: cs) builder = ibCount cs ⟨_, hfits⟩ + 1 := by
          have hlen := (BuilderData.fits_mul_ofBits_iff builder _).mp hfits
          rw [List.length_singleton] at hlen
          simp only [ibCount, List.takeWhile_cons, hbit, if_true, List.length_cons,
            Fragment.mul_bits, Fragment.ofBits_bits, List.length_append, List.length_nil]
          omega
        rw [hcount]
        exact IbAppends.cons hrun (ih ⟨_, hfits⟩)
      · -- the builder is full
        have hfull := mt (BuilderData.fits_mul_ofBits_iff builder [c == '1']).mpr hfits
        have hcount : ibCount (c :: cs) builder = 0 := by
          rw [List.length_singleton] at hfull
          rw [ibCount]
          omega
        rw [hcount]
        exact IbAppends.stop (hx ▸ (happ.overflow builder hfits).mapErr runtimeErr) cs
    · have hbit' : isBit c = false := by simpa using hbit
      have hcount : ibCount (c :: cs) builder = 0 := by simp [ibCount, hbit']
      rw [hcount]
      exact IbAppends.stop (ibDigit_raises bin hbit' builder) cs

omit [NumBigint] [TonTypes] [LawfulTonTypes] in
theorem ibCount_eq_length_iff (cs : List Char) (builder : PyBuilder) :
    ibCount cs builder = cs.length ↔
      (∀ c ∈ cs, isBit c = true) ∧ builder.bits.length + cs.length ≤ maxBits := by
  have hle := (List.takeWhile_prefix isBit (l := cs)).length_le
  have hall : (cs.takeWhile isBit).length = cs.length ↔ ∀ c ∈ cs, isBit c = true := by
    rw [← List.takeWhile_eq_self_iff]
    exact ⟨(List.takeWhile_prefix isBit).eq_of_length, congrArg List.length⟩
  have hused := (BuilderData.fits builder).1
  rw [ibCount, ← hall]
  omega

omit [NumBigint] [TonTypes] [LawfulTonTypes] in
theorem ibCount_eq_zero_iff (cs : List Char) (builder : PyBuilder) :
    ibCount cs builder = 0 ↔
      (∀ c ∈ cs.head?, isBit c = false) ∨ builder.bits.length = maxBits := by
  have hused := (BuilderData.fits builder).1
  have hnone : (cs.takeWhile isBit).length = 0 ↔ ∀ c ∈ cs.head?, isBit c = false := by
    cases cs with
    | nil => simp
    | cons c cs => cases hbit : isBit c <;> simp [hbit]
  rw [ibCount, ← hnone]
  omega

omit [NumBigint] in
/-- `ib` is undone by its exception when it has appended nothing. -/
theorem ib_atomicAt_iff (bin : String) (builder : PyBuilder) :
    AtomicAt (ib bin) builder ↔ (Op.ib bin).WholeOrNothing builder := by
  rw [Op.WholeOrNothing, ← ibCount_eq_length_iff, ← ibCount_eq_zero_iff]
  obtain ⟨r, builder', hrun, hcontent, hok, herror⟩ := ibAppends_ibCount bin bin.toList builder
  rw [← PyBuilder.ib] at hrun
  by_cases hwhole : ibCount bin.toList builder = bin.toList.length
  · -- the call returns
    refine iff_of_true (fun e b hrun' => ?_) (Or.inl hwhole)
    rw [hrun, hok hwhole] at hrun'
    cases hrun'
  · obtain ⟨e, rfl⟩ := herror hwhole
    constructor
    · intro hatomic
      -- the builder is the same, so no digit was appended
      have hsame := hatomic e builder' hrun
      rw [hsame] at hcontent
      have hnil := congrArg Fragment.bits (mul_left_cancel ((mul_one _).trans hcontent))
      have hlen := congrArg List.length hnil
      simp only [Fragment.one_bits, Fragment.ofBits_bits, digitBits, List.length_map,
        List.length_take, List.length_nil] at hlen
      have hle : ibCount bin.toList builder ≤ bin.toList.length :=
        (min_le_left _ _).trans (List.takeWhile_prefix isBit).length_le
      exact Or.inr (by omega)
    · intro hcount e' b hrun'
      rcases hcount with hall | hzero
      · exact absurd hall hwhole
      · rw [hrun] at hrun'
        rw [hzero] at hcontent
        cases hrun'
        exact BuilderData.eq_of_toFragment_eq (hcontent.trans (mul_one _))

namespace Op

/-! ### All calls -/

/-- Every call but `ib` is a single append. -/
theorem isAppend {op : Op} (h : ∀ bin, op ≠ ib bin) : IsAppend op.call op.fragment := by
  cases op with
  | s slice => exact Or.inl ⟨_, rfl, LawfulTonTypes.checkedAppendReferencesAndData slice⟩
  | b builder => exact Or.inl ⟨_, rfl, LawfulTonTypes.appendBuilder builder⟩
  | i bits integer => exact i_isAppend bits integer
  | ib bin => exact absurd rfl (h bin)
  | x bitstring => exact x_isAppend bitstring
  | y bytes => exact y_isAppend bytes
  | r cell => exact Or.inl ⟨_, rfl, LawfulTonTypes.checkedAppendReference cell⟩
  | rejected err => exact Or.inr fun builder => ⟨err, rfl⟩

theorem atomicAt_iff_wholeOrNothing (op : Op) (builder : PyBuilder) :
    AtomicAt op.call builder ↔ op.WholeOrNothing builder := by
  by_cases h : ∃ bin, op = ib bin
  · obtain ⟨bin, rfl⟩ := h
    exact ib_atomicAt_iff bin builder
  · have hatomic := (isAppend (not_exists.mp h)).atomicAt builder
    -- the condition is about `ib` only
    cases op with
    | ib bin => exact absurd ⟨bin, rfl⟩ h
    | _ => exact iff_of_true hatomic trivial

theorem extends_fragment (op : Op) : Extends BuilderData.toFragment op.call op.fragment := by
  by_cases h : ∃ bin, op = ib bin
  · obtain ⟨bin, rfl⟩ := h
    intro builder builder' _ hrun
    obtain ⟨r, builder'', hrun', hcontent, -, herror⟩ := ibAppends_ibCount bin bin.toList builder
    rw [← PyBuilder.ib] at hrun'
    obtain ⟨rfl, rfl⟩ := Prod.mk.inj (hrun'.symm.trans hrun)
    -- it returned, so it has appended all digits
    have hwhole : ibCount bin.toList builder = bin.toList.length := by
      by_contra hpart
      obtain ⟨e, he⟩ := herror hpart
      cases he
    rwa [hwhole, List.take_length] at hcontent
  · exact (isAppend (not_exists.mp h)).extends

/-- A call leaves the builder alone when it raises exactly if it does not stop half way;
and in every state that a run of such calls reaches, the content is what the calls that
returned have appended, in order. -/
theorem atomicAt_iff :
    (∀ (op : Op) (builder : PyBuilder),
      (∀ e builder', op.call.exec builder = (.error e, builder') → builder' = builder) ↔
        op.WholeOrNothing builder) ∧
    (∀ (ops : List Op) (start : PyBuilder), Along call WholeOrNothing ops start → ∀ k,
      (attempts call (ops.take k) start).2.toFragment =
        start.toFragment * ((attempts call (ops.take k) start).1.map fragment).prod) := by
  refine ⟨atomicAt_iff_wholeOrNothing, fun ops start h k => ?_⟩
  exact content_attempts extends_fragment
    ((h.take k).mono fun op builder => (atomicAt_iff_wholeOrNothing op builder).mpr)

end Op

end

namespace Op

section Reference

open scoped Reference

/-- A string that is refused at once, between two calls that return. -/
theorem atomicAt_iff_refused :
    ((∀ e builder', (ib "x").call.exec .new = (.error e, builder') → builder' = .new) ↔
      (ib "x").WholeOrNothing .new) ∧
    ∀ k, (attempts call ([ib "01", ib "x", r (.ordinary .new)].take k) .new).2.toFragment =
      BuilderData.new.toFragment *
        ((attempts call ([ib "01", ib "x", r (.ordinary .new)].take k) .new).1.map
          fragment).prod := by
  refine ⟨atomicAt_iff.1 (ib "x") .new,
    atomicAt_iff.2 [ib "01", ib "x", r (.ordinary .new)] .new ⟨Or.inl ?_, Or.inr (Or.inl ?_),
      trivial, trivial⟩⟩
  · exact ⟨List.all_eq_true.mp rfl, by decide⟩
  · rintro c ⟨⟩
    rfl

/-- `Builder().ib("12")` raises at the second digit and keeps the first. -/
theorem ib_stops_half_way :
    ∃ e builder', (ib "12").call.exec .new = (.error e, builder') ∧ builder'.bits = [true] ∧
      builder' ≠ .new := by
  have hrun : (ib "12").call.exec .new =
      (.error (.runtimeError "Failed to parse binary string 12"), ⟨.ofBits [true], by decide⟩) := by
    rfl
  refine ⟨_, _, hrun, rfl, fun h => ?_⟩
  have hbits := congrArg (fun b : PyBuilder => b.bits) h
  exact absurd hbits (by decide)

end Reference

end Op

end PyBuilder

end EverPlayground
