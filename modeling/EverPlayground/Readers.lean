import EverPlayground.Currency
import EverPlayground.Semantics.Forward
import EverPlayground.StateInit

/-!
# Reading a slice to pieces

A caller reads a slice with the methods of the slice and with the deserializers of the
package, and catches what they raise. A method that raises has not moved the slice. A
deserializer that raises has, unless it raised at its very first field: the slice then stands
in the middle of an encoding.

## Main definitions

* `Read` — a call that reads from a slice
* `Read.Encodes` — the part of the slice that stands for what a call returns
* `Read.Stopped` — the slice is too short for the first field

## Main results

* `Read.trace_accounts` — a run of reads accounts for the whole slice
-/

set_option autoImplicit false

namespace EverPlayground

open Math.Positional Math.TwosComplement Semantics Semantics.Cursor

/-- A call that reads; the deserializers of objects are called on a given one. -/
inductive Read where
  | i (bits : ℕ)
  | u (bits : ℕ)
  | r
  | skip (bits : ℕ)
  | dictionary (bits : ℕ)
  | currency (self : Currency)
  | stateInit (self : StateInit)

namespace Read

/-- What a call returns. -/
inductive Value where
  | int (n : ℤ)
  | cell (c : Cell)
  | done
  | dictionary (map : PyDictionary)
  | currency (self : Currency)
  | stateInit (self : StateInit)

def call [NumBigint] [TonTypes] : Read → Mut PyErr PySlice Value
  | i bits => Value.int <$> PySlice.i bits
  | u bits => (fun n : ℕ => Value.int n) <$> PySlice.u bits
  | r => Value.cell <$> PySlice.r
  | skip bits => (fun _ => Value.done) <$> PySlice.skip bits
  | dictionary bits => Value.dictionary <$> PyDictionary.deserialize bits
  | currency self => Value.currency <$> Mut.withNew self Currency.deserialize
  | stateInit self => Value.stateInit <$> Mut.withNew self StateInit.deserialize

/-- The part stands for what was returned. -/
def Encodes : Read → Value → Fragment → Prop
  | i bits, v, f => ∃ w, w.length = bits ∧ f = .ofBits w ∧ v = .int (signed w)
  | u bits, v, f => ∃ w, w.length = bits ∧ f = .ofBits w ∧ v = .int (value w : ℕ)
  | r, v, f => ∃ c, f = .ofRef c ∧ v = .cell c
  | skip bits, v, f => ∃ w, w.length = bits ∧ f = .ofBits w ∧ v = .done
  | dictionary bits, v, f => ∃ map : PyDictionary, f = map.fragment ∧ map.bitLen = bits ∧
      v = .dictionary map
  | currency _, v, f => ∃ len m, len < 16 ∧ m < 2 ^ (len * 8) ∧ f = Currency.encoding len m ∧
      v = .currency (.amount m)
  | stateInit self, v, f => ∃ special init, f = StateInit.encoding special init ∧
      init.WellFormed ∧ v = .stateInit (.overwrite special init self)

/-- There is no room for the first field; for a method there is no other. -/
def Stopped : Read → Fragment → Prop
  | dictionary _, f => f.bits.length < 1
  | currency _, f => f.bits.length < 4
  | stateInit _, f => f.bits.length < 1
  | _, _ => True

/-- A skip is not by one of the largest machine words, which would go back. -/
def InRange : Read → Prop
  | skip bits => bits + maxBits < 2 ^ 64
  | _ => True

section

variable [NumBigint] [TonTypes] [LawfulNumBigint] [LawfulTonTypes]

/-! ### Calls that return -/

theorem call_consumes [LawfulTonWindows] {read : Read} (hread : read.InRange) :
    Consumes SliceData.content read.call fun f v => read.Encodes v f := by
  cases read with
  | i n => exact ((PySlice.i_takes n).map Value.int).consumes
  | u n => exact ((PySlice.u_takes n).map fun n : ℕ => Value.int n).consumes
  | r =>
    refine (PySlice.r_consumes.map Value.cell).mono ?_
    rintro _ _ ⟨c, rfl, rfl⟩
    exact ⟨c, rfl, rfl⟩
  | skip n => exact ((PySlice.skip_takes hread).map fun _ => Value.done).consumes
  | dictionary n =>
    refine ((PyDictionary.deserialize_consumes n).map Value.dictionary).mono ?_
    rintro _ _ ⟨map, ⟨rfl, hlen⟩, rfl⟩
    exact ⟨map, rfl, hlen, rfl⟩
  | currency self =>
    refine ((Currency.deserialize_parses self).withNew.map Value.currency).mono ?_
    rintro _ _ ⟨_, ⟨len, m, hlen, hm, rfl, rfl⟩, rfl⟩
    exact ⟨len, m, hlen, hm, rfl, rfl⟩
  | stateInit self =>
    refine ((StateInit.deserialize_parses self).withNew.map Value.stateInit).mono ?_
    rintro _ _ ⟨_, ⟨special, init, rfl, hwf, rfl⟩, rfl⟩
    exact ⟨special, init, rfl, hwf, rfl⟩

/-! ### Calls that raise -/

omit [LawfulNumBigint] [LawfulTonTypes] [NumBigint] [TonTypes] in
theorem takes_atomicAt {α : Type} {x : Mut PyErr PySlice α} {n : ℕ} {g : List Bool → α}
    (hx : PySlice.Takes x n g) (s : PySlice) : AtomicAt x s := by
  refine atomicAt_of_raises_or_returns ?_
  rcases Nat.lt_or_ge s.bits.length n with hlt | hge
  · exact Or.inl (hx.short s hlt)
  · obtain ⟨s', hrun, -⟩ := hx.enough s hge
    exact Or.inr ⟨_, s', hrun⟩

omit [NumBigint] [LawfulNumBigint] in
theorem r_atomicAt (s : PySlice) : AtomicAt PySlice.r s := by
  refine atomicAt_of_raises_or_returns ?_
  cases hrefs : s.refs with
  | nil => exact Or.inl (PySlice.r_empty hrefs)
  | cons c rs =>
    obtain ⟨s', hrun, -⟩ := PySlice.r_eq hrefs
    exact Or.inr ⟨c, s', hrun⟩

theorem u_forward (n : ℕ) : Forward SliceData.content (PySlice.u n) :=
  (PySlice.u_consumes n).forward (takes_atomicAt (PySlice.u_takes n))

omit [NumBigint] [LawfulNumBigint] in
theorem r_forward : Forward SliceData.content PySlice.r := PySlice.r_consumes.forward r_atomicAt

omit [NumBigint] [LawfulNumBigint] in
theorem getNextBit_raises_or_returns (s : PySlice) :
    s.bits.length < 1 ∧ (TonTypes.getNextBit.mapErr runtimeErr).Raises s ∨
      ¬ s.bits.length < 1 ∧
        ∃ bit s', (TonTypes.getNextBit.mapErr runtimeErr).exec s = (.ok bit, s') := by
  cases hbits : s.bits with
  | nil => exact Or.inl ⟨Nat.one_pos, (LawfulTonTypes.getNextBit_empty s hbits).mapErr runtimeErr⟩
  | cons bit w =>
    obtain ⟨s', hrun, -⟩ := LawfulTonTypes.getNextBit s bit w hbits
    exact Or.inr ⟨by simp, bit, s', Mut.exec_mapErr_eq_ok_iff.mpr hrun⟩

omit [NumBigint] [LawfulNumBigint] in
/-- The bit that tells whether there is a root is all that a dictionary always has. -/
theorem exists_of_dictionary_raises {n : ℕ} {s s' : PySlice} {e : PyErr}
    (hrun : (PyDictionary.deserialize n).exec s = (.error e, s')) :
    ∃ f, s.content = f * s'.content ∧ (f = 1 ↔ s.content.bits.length < 1) := by
  refine exists_of_first_raises (fun f => f.bits.length < 1) ?_ ?_
    (PyDictionary.getNextBit_consumes.mono ?_) ?_ hrun
  · intro s hs
    exact ((getNextBit_raises_or_returns s).resolve_right fun h => h.1 hs).2
  · intro s hs
    exact ((getNextBit_raises_or_returns s).resolve_left fun h => hs h.1).2
  · rintro _ bit rfl g hg
    have hbits : bit :: g.bits = [] := congrArg Fragment.bits hg
    cases hbits
  · intro bit
    cases bit with
    | false => exact Forward.pure _
    | true => exact r_forward.bind fun c => Forward.pure _

/-- The deserializer of an object begins with the read of a field. -/
theorem exists_of_u_first {τ α : Type} {n : ℕ} (hn : 0 < n)
    {k : ℕ → Mut PyErr (τ × PySlice) α}
    (hk : ∀ v, Forward (fun p : τ × PySlice => p.2.content) (k v)) {t t' : τ} {s s' : PySlice}
    {e : PyErr} (hrun : (Mut.onSnd (PySlice.u n) >>= k).exec (t, s) = (.error e, (t', s'))) :
    ∃ f, s.content = f * s'.content ∧ (f = 1 ↔ s.content.bits.length < n) := by
  refine exists_of_first_raises (x := Mut.onSnd (PySlice.u n)) (fun f => f.bits.length < n)
    ?_ ?_ ?_ hk hrun
  · -- too short for the first field
    rintro ⟨t, s⟩ hs
    obtain ⟨e, he⟩ := (PySlice.u_takes n).short s hs
    exact ⟨e, by rw [Mut.exec_onSnd, he]⟩
  · rintro ⟨t, s⟩ hs
    obtain ⟨s', hread, -⟩ := (PySlice.u_takes n).enough s (not_lt.mp hs)
    exact ⟨_, (t, s'), by rw [Mut.exec_onSnd, hread]⟩
  · intro p p' v hread
    obtain ⟨hread', -⟩ := Mut.exec_onSnd_eq_ok_iff.mp hread
    obtain ⟨f, hf, w, hw, rfl, -⟩ := PySlice.u_consumes n _ _ _ hread'
    -- a field of at least one bit is not nothing
    refine ⟨_, hf, fun g hg => ?_⟩
    have hbits : w ++ g.bits = [] := congrArg Fragment.bits hg
    rw [(List.append_eq_nil_iff.mp hbits).1, List.length_nil] at hw
    omega

theorem exists_of_currency_raises {t t' : Currency} {s s' : PySlice} {e : PyErr}
    (hrun : Currency.deserialize.exec (t, s) = (.error e, (t', s'))) :
    ∃ f, s.content = f * s'.content ∧ (f = 1 ↔ s.content.bits.length < 4) := by
  refine exists_of_u_first (by decide) (fun len => ?_) hrun
  split_ifs
  · exact Forward.onFst _
  · exact (u_forward (len * 8)).assign Currency.setValue

/-! ### State inits -/

/-- What follows a bit may depend on it. -/
theorem ifBit_forward {present absent : Mut PyErr (StateInit × PySlice) Unit}
    (hpresent : Forward (fun p : StateInit × PySlice => p.2.content) present)
    (habsent : Forward (fun p : StateInit × PySlice => p.2.content) absent) :
    Forward (fun p : StateInit × PySlice => p.2.content) (StateInit.ifBit present absent) := by
  refine (u_forward 1).onSnd.bind fun bit => ?_
  split_ifs
  · exact hpresent
  · exact habsent

theorem deserializeMaybe_forward {α : Type} {read : Mut PyErr PySlice α}
    (hread : Forward SliceData.content read) (set : α → StateInit → StateInit) :
    Forward (fun p : StateInit × PySlice => p.2.content)
      (StateInit.deserializeMaybe read set) :=
  ifBit_forward (hread.assign set) (Forward.pure ())

theorem deserializeSpecial_forward :
    Forward (fun p : StateInit × PySlice => p.2.content) StateInit.deserializeSpecial :=
  ifBit_forward
    (((u_forward 1).assign StateInit.setTick).bind fun _ => (u_forward 1).assign StateInit.setTock)
    (Forward.onFst _)

omit [NumBigint] [LawfulNumBigint] in
theorem dictionary_forward (n : ℕ) : Forward SliceData.content (PyDictionary.deserialize n) := by
  intro s
  rcases hrun : (PyDictionary.deserialize n).exec s with ⟨e | map, s'⟩
  · obtain ⟨f, hf, -⟩ := exists_of_dictionary_raises hrun
    exact ⟨f, hf⟩
  · obtain ⟨f, hf, -⟩ := PyDictionary.deserialize_consumes n s s' map hrun
    exact ⟨f, hf⟩

theorem exists_of_stateInit_raises {t t' : StateInit} {s s' : PySlice} {e : PyErr}
    (hrun : StateInit.deserialize.exec (t, s) = (.error e, (t', s'))) :
    ∃ f, s.content = f * s'.content ∧ (f = 1 ↔ s.content.bits.length < 1) := by
  -- the first field is the bit that tells whether there is a split depth
  rw [StateInit.deserialize, StateInit.deserializeMaybe, StateInit.ifBit, bind_assoc] at hrun
  refine exists_of_u_first (by decide) (fun bit => Forward.bind ?_ fun _ => ?_) hrun
  · split_ifs
    · exact (u_forward 5).assign StateInit.setSplitDepth
    · exact Forward.pure ()
  · exact deserializeSpecial_forward.bind fun _ =>
      (deserializeMaybe_forward r_forward StateInit.setCode).bind fun _ =>
        (deserializeMaybe_forward r_forward StateInit.setData).bind fun _ =>
          deserializeMaybe_forward (dictionary_forward 256) StateInit.setLibrary

/-! ### Runs -/

theorem exists_of_call_raises [LawfulTonWindows] {read : Read} (hread : read.InRange)
    {s s' : PySlice} {e : PyErr} (hrun : read.call.exec s = (.error e, s')) :
    ∃ f, s.content = f * s'.content ∧ (f = 1 ↔ read.Stopped s.content) := by
  -- a method is one read, and does not move the slice when it raises
  have hatomic : ∀ {α : Type} {x : Mut PyErr PySlice α}, AtomicAt x s →
      x.exec s = (.error e, s') → ∃ f, s.content = f * s'.content ∧ (f = 1 ↔ True) := by
    intro α x hx hraise
    rw [hx e s' hraise]
    exact ⟨1, (one_mul s.content).symm, iff_of_true rfl trivial⟩
  cases read with
  | i n => exact hatomic (takes_atomicAt (PySlice.i_takes n) s) (exec_map_eq_error_iff.mp hrun)
  | u n => exact hatomic (takes_atomicAt (PySlice.u_takes n) s) (exec_map_eq_error_iff.mp hrun)
  | r => exact hatomic (r_atomicAt s) (exec_map_eq_error_iff.mp hrun)
  | skip n =>
    exact hatomic (takes_atomicAt (PySlice.skip_takes hread) s) (exec_map_eq_error_iff.mp hrun)
  | dictionary n => exact exists_of_dictionary_raises (exec_map_eq_error_iff.mp hrun)
  | currency self =>
    obtain ⟨t', hraise⟩ := exists_of_withNew_error (exec_map_eq_error_iff.mp hrun)
    exact exists_of_currency_raises hraise
  | stateInit self =>
    obtain ⟨t', hraise⟩ := exists_of_withNew_error (exec_map_eq_error_iff.mp hrun)
    exact exists_of_stateInit_raises hraise

/-- In every run of reads with every exception caught, and without a skip that goes back,
whatever was in front of the slice that is left belongs to one of the calls, in order: to a
call that returned, exactly the encoding of what it returned; to a method that raised,
nothing; to a deserializer that raised, nothing just when the slice was too short for its
first field. -/
theorem trace_accounts [LawfulTonWindows] {reads : List Read} (h : ∀ read ∈ reads, read.InRange)
    (s : PySlice) :
    Accounts Encodes Stopped (trace (answer call) reads s).1 s.content
      (trace (answer call) reads s).2.content :=
  accounts_trace (fun read hread => call_consumes (h read hread))
    (fun read hread _ _ _ hrun => exists_of_call_raises (h read hread) hrun) s

end

section Reference

open scoped Reference

/-- An amount whose length is cut off by the end of the slice, behind two bits. -/
def cutReads : List Read := [.u 1, .skip 1, .currency ⟨0⟩, .stateInit {}]

theorem cutReads_inRange : ∀ read ∈ cutReads, read.InRange := by
  simp [cutReads, InRange, maxBits]

theorem trace_accounts_clearFlags :
    Accounts Encodes Stopped (trace (answer call) cutReads StateInit.clearFlags).1
      StateInit.clearFlags.content
      (trace (answer call) cutReads StateInit.clearFlags).2.content :=
  trace_accounts cutReads_inRange StateInit.clearFlags

end Reference

end Read

end EverPlayground
