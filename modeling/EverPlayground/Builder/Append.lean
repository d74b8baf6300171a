import EverPlayground.Builder
import EverPlayground.Python.Int
import EverPlayground.TonTypes.Reference

/-!
# What the calls of a builder append

Bits reach a builder as an integer, as a binary string, as a bit string or as bytes, and
references come with slices and builders. Each of these calls returns exactly when what
it appends fits, so two calls that append the same fragment return together and leave the
same builder.

## Main definitions

* `PyBuilder.Agree` — two calls that are interchangeable on a builder

## Main results

* `PyBuilder.routes_agree` — a binary string, and a string of bytes, go in like the
  integers they spell
-/

set_option autoImplicit false

namespace EverPlayground

open Math.Positional Math.TwosComplement Semantics Semantics.Cursor

namespace PyBuilder

/-- A call that returns exactly when `f` fits, which it then appends. -/
abbrev BuilderWritesExactly (x : Mut PyErr PyBuilder Unit) (f : Fragment) : Prop :=
  WritesExactly BuilderData.toFragment Fragment.Fits x f

theorem writesExactly_of_appends {x : Mut Error BuilderData Unit} {f : Fragment}
    (h : BuilderData.Appends x f) : BuilderWritesExactly (x.mapErr runtimeErr) f where
  writes := writes_of_appends h
  raises b hnot := by
    obtain ⟨e, he⟩ := (h.overflow b hnot).mapErr runtimeErr
    exact ⟨e, b, he⟩

/-! ### Binary strings -/

/-- A character that `ib` accepts. -/
def isBit (c : Char) : Bool := c == '0' || c == '1'

/-- The bits that a string of such characters spells. -/
def digitBits (cs : List Char) : List Bool := cs.map (· == '1')

theorem digitBits_cons (c : Char) (cs : List Char) :
    Fragment.ofBits (digitBits (c :: cs)) =
      .ofBits [c == '1'] * .ofBits (digitBits cs) := rfl

theorem prod_ofBits (cs : List Char) :
    (cs.map fun c => Fragment.ofBits [c == '1']).prod = .ofBits (digitBits cs) := by
  induction cs with
  | nil => rfl
  | cons c cs ih => rw [List.map_cons, List.prod_cons, ih, digitBits_cons]

section

variable [TonTypes]

theorem ibDigit_raises (bin : String) {c : Char} (hc : isBit c = false) (b : PyBuilder) :
    (ibDigit bin c).Raises b := by
  unfold ibDigit
  split
  · exact absurd hc (by decide)
  · exact absurd hc (by decide)
  · exact ⟨_, rfl⟩

variable [LawfulTonTypes]

theorem ibDigit_appends (bin : String) {c : Char} (hc : isBit c = true) :
    ∃ x, ibDigit bin c = x.mapErr runtimeErr ∧ BuilderData.Appends x (.ofBits [c == '1']) := by
  rw [isBit, Bool.or_eq_true, beq_iff_eq, beq_iff_eq] at hc
  rcases hc with rfl | rfl
  · exact ⟨_, rfl, LawfulTonTypes.appendBitZero⟩
  · exact ⟨_, rfl, LawfulTonTypes.appendBitOne⟩

theorem ib_writesExactly {bin : String} (h : ∀ c ∈ bin.toList, isBit c = true) :
    BuilderWritesExactly (ib bin) (.ofBits (digitBits bin.toList)) := by
  rw [ib, ← prod_ofBits]
  apply WritesExactly.forM BuilderData.fits Fragment.Fits.left
  intro c hc
  obtain ⟨x, hx, happ⟩ := ibDigit_appends bin (h c hc)
  rw [hx]
  exact writesExactly_of_appends happ

/-! ### The other calls -/

theorem s_writesExactly (slice : PySlice) : BuilderWritesExactly (s slice) slice.content :=
  writesExactly_of_appends (LawfulTonTypes.checkedAppendReferencesAndData slice)

omit [LawfulTonTypes] in
/-- A bit string goes in like the slice that it is read as. -/
theorem x_eq_s {bitstring : String} {slice : PySlice}
    (h : TonTypes.fromString bitstring = .ok slice) : x bitstring = s slice := by
  rw [x, h]
  rfl

theorem b_writesExactly (builder : PyBuilder) :
    BuilderWritesExactly (b builder) builder.toFragment :=
  writesExactly_of_appends (LawfulTonTypes.appendBuilder builder)

theorem r_writesExactly (cell : Cell) : BuilderWritesExactly (r cell) (.ofRef cell) :=
  writesExactly_of_appends (LawfulTonTypes.checkedAppendReference cell)

/-- The bytes are copied through a builder of their own, which they may be too long for. -/
theorem y_cases (bytes : List UInt8) :
    (maxBits < (bytesToBits bytes).length ∧ ∀ builder, (y bytes).Raises builder) ∨
      ∃ raw : PyBuilder, raw.toFragment = .ofBits (bytesToBits bytes) ∧
        y bytes = (TonTypes.appendBuilder raw).mapErr runtimeErr := by
  have hlen : (bytesToBits bytes).length = bytes.length * 8 := by
    rw [length_bytesToBits, Nat.mul_comm]
  rw [hlen]
  rcases Nat.lt_or_ge maxBits (bytes.length * 8) with hover | hle
  · obtain ⟨e, he⟩ := LawfulTonTypes.withRaw_overflow bytes _ hover
    refine Or.inl ⟨hover, fun builder => Mut.Raises.bind ⟨runtimeErr e, ?_⟩ _⟩
    rw [he]
    rfl
  · obtain ⟨raw, hraw, hcontent⟩ :=
      LawfulTonTypes.withRaw bytes (bytes.length * 8) (by omega) hle
    rw [List.take_of_length_le hlen.le] at hcontent
    refine Or.inr ⟨raw, hcontent, ?_⟩
    rw [y, hraw]
    exact Mut.ext fun _ => Mut.exec_bind_ok rfl

theorem y_writesExactly (bytes : List UInt8) :
    BuilderWritesExactly (y bytes) (.ofBits (bytesToBits bytes)) := by
  rcases y_cases bytes with ⟨hover, hraises⟩ | ⟨raw, hraw, hy⟩
  · -- what is too long for a builder does not fit any builder
    refine ⟨fun builder hfits => ?_, fun builder _ => ?_⟩
    · have hbits := (BuilderData.fits_mul_ofBits_iff builder _).mp hfits
      omega
    · obtain ⟨e, he⟩ := hraises builder
      exact ⟨e, builder, he⟩
  · rw [hy, ← hraw]
    exact b_writesExactly raw

variable [NumBigint] [LawfulNumBigint]

theorem i_writesExactly {bits : ℕ} {n : ℤ} (hbits : 1 ≤ bits) (h : Representable bits n) :
    BuilderWritesExactly (i bits n) (.ofBits (twos bits n)) := by
  refine ⟨i_writes hbits h, fun b hnot => ?_⟩
  obtain ⟨x, w, hw, happ, hi⟩ := i_appends hbits n
  -- some word of that length is appended, and no such word fits
  rw [BuilderData.fits_mul_ofBits_iff, length_twos, ← hw, ← BuilderData.fits_mul_ofBits_iff]
    at hnot
  rw [hi]
  exact (writesExactly_of_appends happ).raises b hnot

/-- The number that a nonempty word denotes goes in as that word, leading zeros included. -/
theorem i_value_writesExactly {w : List Bool} (hne : w ≠ []) :
    BuilderWritesExactly (i w.length (value w)) (.ofBits w) := by
  have hlen : 1 ≤ w.length := List.length_pos_iff.mpr hne
  have hi := i_writesExactly hlen (value_representable w)
  rwa [twos_value] at hi

/-! ### Routes to the same bits -/

/-- From this builder the two calls return with the same builder, which has grown by `f`,
or they both raise. -/
def Agree (x y : Mut PyErr PyBuilder Unit) (builder : PyBuilder) (f : Fragment) : Prop :=
  (∃ builder', x.exec builder = (.ok (), builder') ∧ y.exec builder = (.ok (), builder') ∧
      builder'.toFragment = builder.toFragment * f) ∨
    (∃ e builder', x.exec builder = (.error e, builder')) ∧
      ∃ e builder', y.exec builder = (.error e, builder')

omit [TonTypes] [LawfulTonTypes] [NumBigint] [LawfulNumBigint] in
/-- Calls that append the same fragment are interchangeable. -/
theorem agree_of_writesExactly {x y : Mut PyErr PyBuilder Unit} {f : Fragment}
    (hx : BuilderWritesExactly x f) (hy : BuilderWritesExactly y f) (builder : PyBuilder) :
    Agree x y builder f := by
  by_cases hfits : (builder.toFragment * f).Fits
  · obtain ⟨b₁, hrun₁, h₁⟩ := hx.writes builder hfits
    obtain ⟨b₂, hrun₂, h₂⟩ := hy.writes builder hfits
    obtain rfl := BuilderData.eq_of_toFragment_eq (h₁.trans h₂.symm)
    exact Or.inl ⟨b₁, hrun₁, hrun₂, h₁⟩
  · exact Or.inr ⟨hx.raises builder hfits, hy.raises builder hfits⟩

omit [TonTypes] [LawfulTonTypes] [NumBigint] [LawfulNumBigint] in
/-- `int(bin, 2)` of a string that `ib` accepts. -/
theorem int_two [Python.Unicode] [Python.LawfulUnicode] {cs : List Char} (hne : cs ≠ [])
    (h : ∀ c ∈ cs, isBit c = true) :
    Python.int 2 cs = some (value (digitBits cs) : ℤ) := by
  apply Python.int_word (by decide) hne
  rw [digitBits, List.map_map]
  refine List.map_congr_left fun c hc => ?_
  have hbit := h c hc
  rw [isBit, Bool.or_eq_true, beq_iff_eq, beq_iff_eq] at hbit
  rcases hbit with rfl | rfl
  · rfl
  · rfl

/-- On every builder a binary string goes in like the integer that `int(bin, 2)` makes of
it, and bytes like the integer of `int.from_bytes`, at the width of what was spelled. -/
theorem routes_agree [Python.Unicode] [Python.LawfulUnicode] (builder : PyBuilder) :
    (∀ bin : String, bin ≠ "" → (∀ c ∈ bin.toList, isBit c = true) →
      ∃ n, Python.int 2 bin.toList = some n ∧
        Agree (ib bin) (i bin.length n) builder (.ofBits (digitBits bin.toList))) ∧
    (∀ bytes : List UInt8, bytes ≠ [] →
      Agree (y bytes) (i (8 * bytes.length) (Python.fromBytes bytes)) builder
        (.ofBits (bytesToBits bytes))) := by
  constructor
  · intro bin hne hbits
    have hne' : bin.toList ≠ [] := mt String.toList_eq_nil_iff.mp hne
    refine ⟨_, int_two hne' hbits, agree_of_writesExactly (ib_writesExactly hbits) ?_ builder⟩
    have hlen : bin.length = (digitBits bin.toList).length := by
      rw [digitBits, List.length_map, String.length_toList]
    rw [hlen]
    exact i_value_writesExactly (mt List.map_eq_nil_iff.mp hne')
  · intro bytes hne
    refine agree_of_writesExactly (y_writesExactly bytes) ?_ builder
    have hpos : 0 < (bytesToBits bytes).length := by
      rw [length_bytesToBits]
      exact Nat.mul_pos (by decide) (List.length_pos_iff.mpr hne)
    rw [Python.fromBytes_eq_value, ← value_bytesToBits, ← length_bytesToBits]
    exact i_value_writesExactly (List.length_pos_iff.mp hpos)

end

section Reference

open scoped Reference Python.Ascii

/-- Leading zeros are kept on either route. -/
theorem routes_agree_leading_zeros :
    (∃ n, Python.int 2 "0010".toList = some n ∧
      Agree (ib "0010") (i "0010".length n) .new (.ofBits (digitBits "0010".toList))) ∧
    Agree (y [0, 1]) (i (8 * 2) (Python.fromBytes [0, 1])) .new
      (.ofBits (bytesToBits [0, 1])) :=
  ⟨(routes_agree .new).1 "0010" (by decide) (List.all_eq_true.mp rfl),
    (routes_agree .new).2 [0, 1] (by decide)⟩

end Reference

end PyBuilder

end EverPlayground
