import EverPlayground.Semantics.Trace
import EverPlayground.Slice.Print

/-!
# What can be seen of a slice

Integers and references are read from a slice in any order, and looked at in advance. What a
caller sees depends on what is left to read and on nothing else, unless the position of the
slice in its cell wraps around as a machine word. References and bits are two streams: reads of
one do not disturb the other.

## Main definitions

* `Query`, `Answer` — a call of a method, and what it returns
* `Query.step` — the answer as a function of what is left to read
* `observe` — a run of calls with their answers
* `SameBits`, `SameRefs` — two slices that agree on one of the streams

## Main results

* `richcmp_eq_iff_observe` — slices are equal when no run of calls tells them apart
* `observe_interleaved` — any interleaving of the two streams gives the same answers
* `rPeek_eq_r` — what is peeked at is what is read later
-/

set_option autoImplicit false

namespace EverPlayground

open Math.Positional Math.TwosComplement Semantics

namespace PySlice

inductive Query where
  | i (bits : ℕ)
  | u (bits : ℕ)
  | refs
  | r
  | rPeek (j : ℕ)
  | remainingBits
  | skip (bits : ℕ)
deriving DecidableEq

inductive Answer where
  | int (n : ℤ)
  | cell (c : Cell)
  | count (n : ℕ)
  | done

namespace Query

/-- The method is about the bits of the slice. -/
def onBits : Query → Bool
  | i _ => true
  | u _ => true
  | remainingBits => true
  | skip _ => true
  | refs => false
  | r => false
  | rPeek _ => false

def call [NumBigint] [TonTypes] : Query → Mut PyErr PySlice Answer
  | i bits => Answer.int <$> PySlice.i bits
  | u bits => (fun n : ℕ => Answer.int n) <$> PySlice.u bits
  | refs => (fun s : PySlice => Answer.count s.remainingReferences) <$> get
  | r => Answer.cell <$> PySlice.r
  | rPeek j => do
    let s ← get
    let c ← Mut.ofExcept (PySlice.rPeek s j)
    pure (.cell c)
  | remainingBits => (fun s : PySlice => Answer.count s.remainingBits) <$> get
  | skip bits => (fun _ => Answer.done) <$> PySlice.skip bits

/-- The first bits, if there are that many, as what `answer` makes of them. -/
def takeBits (bits : ℕ) (answer : List Bool → Answer) (f : Fragment) : Option Answer × Fragment :=
  if bits ≤ f.bits.length then (some (answer (f.bits.take bits)), ⟨f.bits.drop bits, f.refs⟩)
  else (none, f)

/-- The answer to a call in range, or none where it raises, and what is left to read. -/
def step : Query → Fragment → Option Answer × Fragment
  | i bits, f => takeBits bits (fun w => .int (signed w)) f
  | u bits, f => takeBits bits (fun w => .int (value w : ℕ)) f
  | refs, f => (some (.count f.refs.length), f)
  | r, f => (f.refs.head?.map .cell, ⟨f.bits, f.refs.tail⟩)
  | rPeek j, f => (f.refs[j]?.map .cell, f)
  | remainingBits, f => (some (.count f.bits.length), f)
  | skip bits, f => takeBits bits (fun _ => .done) f

/-- The argument is not among the largest machine words, for which the position of the slice
wraps around. -/
def InRange : Query → Prop
  | rPeek j => j + maxRefs < 2 ^ 64
  | skip bits => bits + maxBits < 2 ^ 64
  | _ => True

end Query

/-! ### The same bits, or the same references -/

/-- The slices are views of the same bits of the same cell. -/
structure SameBits (s s' : PySlice) : Prop where
  cell : s.cell = s'.cell
  bitStart : s.bitStart = s'.bitStart
  bitEnd : s.bitEnd = s'.bitEnd

/-- The slices are views of the same references of the same cell. -/
structure SameRefs (s s' : PySlice) : Prop where
  cell : s.cell = s'.cell
  refStart : s.refStart = s'.refStart
  refEnd : s.refEnd = s'.refEnd

theorem SameBits.bits {s s' : PySlice} (h : SameBits s s') : s.bits = s'.bits := by
  rw [SliceData.bits, SliceData.bits, h.cell, h.bitStart, h.bitEnd]

theorem SameRefs.refs {s s' : PySlice} (h : SameRefs s s') : s.refs = s'.refs := by
  rw [SliceData.refs, SliceData.refs, h.cell, h.refStart, h.refEnd]

/-- Moving both windows by the same number of bits keeps them the same, whatever happens to
the references. -/
theorem SameBits.moves {s s' t t' : PySlice} {b r r' : ℕ} (h : SameBits s s')
    (hs : s.Moves b r t) (hs' : s'.Moves b r' t') : SameBits t t' where
  cell := by rw [hs.cell, hs'.cell, h.cell]
  bitStart := by rw [hs.bitStart, hs'.bitStart, h.bitStart]
  bitEnd := by rw [hs.bitEnd, hs'.bitEnd, h.bitEnd]

theorem SameRefs.moves {s s' t t' : PySlice} {b b' r : ℕ} (h : SameRefs s s')
    (hs : s.Moves b r t) (hs' : s'.Moves b' r t') : SameRefs t t' where
  cell := by rw [hs.cell, hs'.cell, h.cell]
  refStart := by rw [hs.refStart, hs'.refStart, h.refStart]
  refEnd := by rw [hs.refEnd, hs'.refEnd, h.refEnd]

section

variable [NumBigint] [TonTypes]

/-- The calls of a run with their answers, and the slice that is left. -/
def observe (queries : List Query) (s : PySlice) : List (Query × Option Answer) × PySlice :=
  trace (answer Query.call) queries s

/-! ### One call -/

/-- A read of bits returns what is ahead, and raises at the end. -/
theorem answer_short {q : Query} {n : ℕ} {g : List Bool → Answer} (h : Takes q.call n g)
    {s : PySlice} (hs : s.bits.length < n) : answer Query.call q s = (none, s) :=
  answer_of_raises (h.short s hs)

theorem answer_enough {q : Query} {n : ℕ} {g : List Bool → Answer} (h : Takes q.call n g)
    {s : PySlice} (hs : n ≤ s.bits.length) :
    ∃ s', answer Query.call q s = (some (g (s.bits.take n)), s') ∧
      s.Advances (.ofBits (s.bits.take n)) s' := by
  obtain ⟨s', hrun, hadv⟩ := h.enough s hs
  exact ⟨s', answer_of_ok hrun, hadv⟩

theorem answer_takeBits {q : Query} {n : ℕ} {g : List Bool → Answer} (h : Takes q.call n g)
    (s : PySlice) :
    (answer Query.call q s).1 = (Query.takeBits n g s.content).1 ∧
      (answer Query.call q s).2.content = (Query.takeBits n g s.content).2 := by
  rcases Nat.lt_or_ge s.bits.length n with hlt | hge
  · rw [answer_short h hlt, Query.takeBits, SliceData.content_bits, if_neg (not_le.mpr hlt)]
    exact ⟨rfl, rfl⟩
  · obtain ⟨s', hanswer, hadv⟩ := answer_enough h hge
    rw [hanswer, Query.takeBits, SliceData.content_bits, if_pos hge]
    refine ⟨rfl, hadv.content_eq ?_⟩
    ext1 <;> simp

/-- Peeking does not move the slice. -/
theorem answer_rPeek (j : ℕ) (s : PySlice) :
    answer Query.call (.rPeek j) s = ((rPeek s j).toOption.map .cell, s) := by
  cases hpeek : PySlice.rPeek s j with
  | ok c =>
    apply answer_of_ok
    rw [Query.call, Mut.exec_bind_ok (Mut.exec_get s), hpeek]
    rfl
  | error e =>
    refine answer_of_raises ⟨e, ?_⟩
    rw [Query.call, Mut.exec_bind_ok (Mut.exec_get s), hpeek]
    rfl

omit [NumBigint] in
/-- Where a peek looks, as a machine word. -/
theorem toOption_rPeek [LawfulTonWindows] (s : PySlice) (j : ℕ) :
    (PySlice.rPeek s j).toOption = if j < 2 ^ 64 ∧ usizeAdd s.refStart j < s.refEnd then
      s.cell.refs[usizeAdd s.refStart j]? else none := by
  split_ifs with h
  · rw [rPeek_eq h.1 h.2]
    exact (List.getElem?_eq_getElem _).symm
  · obtain ⟨e, he⟩ := rPeek_past (s := s) (i := j) fun hlt => not_lt.mp fun hle => h ⟨hlt, hle⟩
    rw [he]
    rfl

variable [LawfulTonTypes]

theorem answer_r_empty {s : PySlice} (h : s.refs = []) :
    answer Query.call .r s = (none, s) := by
  obtain ⟨e, he⟩ := r_empty h
  exact answer_of_raises ⟨e, by rw [Query.call, Mut.exec_map, he]; rfl⟩

theorem answer_r_cons {s : PySlice} {c : Cell} {rs : List Cell} (h : s.refs = c :: rs) :
    ∃ s', answer Query.call .r s = (some (.cell c), s') ∧ s.Advances (.ofRef c) s' := by
  obtain ⟨s', hrun, hadv⟩ := r_eq h
  exact ⟨s', answer_of_ok (by rw [Query.call, Mut.exec_map, hrun]; rfl), hadv⟩

variable [LawfulNumBigint] [LawfulTonWindows]

omit [LawfulTonWindows] in
theorem i_call_takes (n : ℕ) : Takes (Query.call (.i n)) n fun w => .int (signed w) :=
  (i_takes n).map Answer.int

omit [LawfulTonWindows] in
theorem u_call_takes (n : ℕ) : Takes (Query.call (.u n)) n fun w => .int (value w : ℕ) :=
  (u_takes n).map fun n : ℕ => Answer.int n

omit [LawfulNumBigint] [LawfulTonTypes] in
theorem skip_call_takes {n : ℕ} (h : n + maxBits < 2 ^ 64) :
    Takes (Query.call (.skip n)) n fun _ => .done :=
  (skip_takes h).map fun _ => Answer.done

/-- Every call in range answers by what is left to read. -/
theorem answer_eq_step {q : Query} (hq : q.InRange) (s : PySlice) :
    (answer Query.call q s).1 = (q.step s.content).1 ∧
      (answer Query.call q s).2.content = (q.step s.content).2 := by
  cases q with
  | i n => exact answer_takeBits (i_call_takes n) s
  | u n => exact answer_takeBits (u_call_takes n) s
  | refs => exact ⟨rfl, rfl⟩
  | r =>
    cases hrefs : s.refs with
    | nil =>
      rw [answer_r_empty hrefs, Query.step, SliceData.content_refs, hrefs]
      exact ⟨rfl, by ext1 <;> simp [hrefs]⟩
    | cons c rs =>
      obtain ⟨s', hanswer, hadv⟩ := answer_r_cons hrefs
      rw [hanswer, Query.step, SliceData.content_refs, hrefs]
      refine ⟨rfl, hadv.content_eq ?_⟩
      ext1 <;> simp [hrefs]
  | rPeek j =>
    rw [answer_rPeek, Query.step, SliceData.content_refs]
    refine ⟨?_, rfl⟩
    rcases Nat.lt_or_ge j s.refs.length with hlt | hge
    · rw [rPeek_eq_getElem hq hlt, List.getElem?_eq_getElem hlt]
      rfl
    · obtain ⟨e, he⟩ := rPeek_short hq hge
      rw [he, List.getElem?_eq_none hge]
      rfl
  | remainingBits => exact ⟨rfl, rfl⟩
  | skip n => exact answer_takeBits (skip_call_takes hq) s

/-! ### Equal slices -/

/-- So does a run. -/
theorem observe_eq_step {queries : List Query} (h : ∀ q ∈ queries, q.InRange) (s : PySlice) :
    (observe queries s).1 = (trace Query.step queries s.content).1 ∧
      (observe queries s).2.content = (trace Query.step queries s.content).2 := by
  apply trace_congr (R := fun s f => SliceData.content s = f)
  · rintro q hq s f rfl
    exact answer_eq_step (h q hq) s
  · rfl

theorem observe_single {q : Query} (hq : q.InRange) (s : PySlice) :
    (observe [q] s).1 = [(q, (q.step s.content).1)] := by
  rw [(observe_eq_step (by simpa using hq) s).1]
  rfl

omit [NumBigint] [TonTypes] [LawfulNumBigint] [LawfulTonTypes] [LawfulTonWindows] in
/-- The answers to single calls tell everything. -/
theorem content_eq_of_step {f g : Fragment} (hf : f.Fits) (hg : g.Fits)
    (h : ∀ q : Query, q.InRange → (q.step f).1 = (q.step g).1) : f = g := by
  have hlen : f.bits.length = g.bits.length := by
    have hcount := h .remainingBits trivial
    simpa [Query.step] using hcount
  ext1
  · have hvalue := h (.u f.bits.length) trivial
    rw [Query.step, Query.step, Query.takeBits, Query.takeBits, if_pos le_rfl, if_pos hlen.le,
      List.take_length, List.take_of_length_le hlen.ge] at hvalue
    have hanswer : Answer.int (value f.bits : ℕ) = Answer.int (value g.bits : ℕ) :=
      Option.some.inj hvalue
    exact value_inj hlen (Int.ofNat_inj.mp (Answer.int.inj hanswer))
  · refine List.ext_getElem? fun j => ?_
    rcases Nat.lt_or_ge j maxRefs with hlt | hge
    · have hrange : j + maxRefs < 2 ^ 64 := (Nat.add_lt_add_right hlt maxRefs).trans (by decide)
      have hpeek : f.refs[j]?.map Answer.cell = g.refs[j]?.map Answer.cell := h (.rPeek j) hrange
      exact Option.map_injective (fun _ _ => Answer.cell.inj) hpeek
    · rw [List.getElem?_eq_none (hf.2.trans hge), List.getElem?_eq_none (hg.2.trans hge)]

/-- Two slices are equal exactly when no run of calls tells them apart, with every exception
caught and no argument so large that a position wraps around. It does not matter which cells
they are views of, and what was read before. -/
theorem richcmp_eq_iff_observe [TonSlices] [LawfulTonSlices] (s s' : PySlice) :
    richcmp s s' .eq = some true ↔
      ∀ queries : List Query, (∀ q ∈ queries, q.InRange) →
        (observe queries s).1 = (observe queries s').1 := by
  have hcontent : richcmp s s' .eq = some true ↔ s.content = s'.content :=
    ⟨content_eq_of_richcmp, fun h => congrArg some ((LawfulTonSlices.eq_iff s s').mpr h)⟩
  rw [hcontent]
  constructor
  · intro h queries hqueries
    rw [(observe_eq_step hqueries s).1, (observe_eq_step hqueries s').1, h]
  · intro h
    refine content_eq_of_step s.content_fits s'.content_fits fun q hq => ?_
    have hsingle := h [q] (by simpa using hq)
    rw [observe_single hq, observe_single hq] at hsingle
    exact congrArg Prod.snd (List.cons.inj hsingle).1

/-! ### Two streams -/

omit [LawfulNumBigint] [LawfulTonTypes] [LawfulTonWindows] in
/-- A read of bits moves the slice by what it takes, if it takes anything. -/
theorem moves_of_takes {q : Query} {n : ℕ} {g : List Bool → Answer} (h : Takes q.call n g)
    (s : PySlice) : s.Moves (if n ≤ s.bits.length then n else 0) 0 (answer Query.call q s).2 := by
  rcases Nat.lt_or_ge s.bits.length n with hlt | hge
  · rw [answer_short h hlt, if_neg (not_le.mpr hlt)]
    exact .refl s
  · obtain ⟨s', hanswer, hadv⟩ := answer_enough h hge
    have hmoves := moves_of_advances hadv
    rw [hanswer, if_pos hge]
    rwa [Fragment.ofBits_bits, List.length_take_of_le hge] at hmoves

omit [LawfulTonTypes] [LawfulNumBigint] [LawfulTonWindows] in
theorem takes_sameBits {q : Query} {n : ℕ} {g : List Bool → Answer} (hq : Takes q.call n g)
    {s s' : PySlice} (h : SameBits s s') :
    (answer Query.call q s).1 = (answer Query.call q s').1 ∧
      SameBits (answer Query.call q s).2 (answer Query.call q s').2 := by
  have hmoves := moves_of_takes hq s
  have hmoves' := moves_of_takes hq s'
  rw [← h.bits] at hmoves'
  refine ⟨?_, h.moves hmoves hmoves'⟩
  rcases Nat.lt_or_ge s.bits.length n with hlt | hge
  · rw [answer_short hq hlt, answer_short hq (h.bits ▸ hlt)]
  · obtain ⟨t, hanswer, -⟩ := answer_enough hq hge
    obtain ⟨t', hanswer', -⟩ := answer_enough hq (s := s') (h.bits ▸ hge)
    rw [hanswer, hanswer', h.bits]

omit [LawfulNumBigint] [LawfulTonTypes] in
theorem answer_skip {n : ℕ} {s : PySlice} (hn : n < 2 ^ 64)
    (h : usizeAdd s.bitStart n ≤ s.bitEnd) :
    answer Query.call (.skip n) s = (some .done, s.startAt _ h) :=
  answer_of_ok (by rw [Query.call, Mut.exec_map, skip_eq hn h]; rfl)

omit [LawfulNumBigint] [LawfulTonTypes] in
theorem answer_skip_past {n : ℕ} {s : PySlice}
    (h : ¬ (n < 2 ^ 64 ∧ usizeAdd s.bitStart n ≤ s.bitEnd)) :
    answer Query.call (.skip n) s = (none, s) := by
  obtain ⟨e, he⟩ := skip_past (s := s) (n := n) fun hlt => not_le.mp fun hle => h ⟨hlt, hle⟩
  exact answer_of_raises ⟨e, by rw [Query.call, Mut.exec_map, he]; rfl⟩

/-- Calls on bits see bits only. -/
theorem answer_sameBits {q : Query} (hq : q.onBits = true) {s s' : PySlice} (h : SameBits s s') :
    (answer Query.call q s).1 = (answer Query.call q s').1 ∧
      SameBits (answer Query.call q s).2 (answer Query.call q s').2 := by
  cases q with
  | i n => exact takes_sameBits (i_call_takes n) h
  | u n => exact takes_sameBits (u_call_takes n) h
  | remainingBits => exact ⟨congrArg (fun w => some (Answer.count (List.length w))) h.bits, h⟩
  | skip n =>
    -- the position is in range for both or for none
    by_cases hn : n < 2 ^ 64 ∧ usizeAdd s.bitStart n ≤ s.bitEnd
    · have hn' := hn
      rw [h.bitStart, h.bitEnd] at hn'
      rw [answer_skip hn.1 hn.2, answer_skip hn'.1 hn'.2]
      exact ⟨rfl, h.cell, congrArg (usizeAdd · n) h.bitStart, h.bitEnd⟩
    · have hn' := hn
      rw [h.bitStart, h.bitEnd] at hn'
      rw [answer_skip_past hn, answer_skip_past hn']
      exact ⟨rfl, h⟩
  | refs => cases hq
  | r => cases hq
  | rPeek j => cases hq

/-- They leave the references alone. -/
theorem answer_onBits_refs {q : Query} (hq : q.onBits = true) {s s' : PySlice}
    (h : SameRefs s s') : SameRefs (answer Query.call q s).2 s' := by
  cases q with
  | i n => exact h.moves (moves_of_takes (i_call_takes n) s) (.refl s')
  | u n => exact h.moves (moves_of_takes (u_call_takes n) s) (.refl s')
  | remainingBits => exact h
  | skip n =>
    by_cases hn : n < 2 ^ 64 ∧ usizeAdd s.bitStart n ≤ s.bitEnd
    · rw [answer_skip hn.1 hn.2]
      exact ⟨h.cell, h.refStart, h.refEnd⟩
    · rw [answer_skip_past hn]
      exact h
  | refs => cases hq
  | r => cases hq
  | rPeek j => cases hq

omit [LawfulNumBigint] in
/-- Calls on references see references only. -/
theorem answer_sameRefs {q : Query} (hq : q.onBits = false) {s s' : PySlice} (h : SameRefs s s') :
    (answer Query.call q s).1 = (answer Query.call q s').1 ∧
      SameRefs (answer Query.call q s).2 (answer Query.call q s').2 := by
  cases q with
  | refs => exact ⟨congrArg (fun cells => some (Answer.count (List.length cells))) h.refs, h⟩
  | r =>
    cases hrefs : s.refs with
    | nil =>
      rw [answer_r_empty hrefs, answer_r_empty (h.refs ▸ hrefs)]
      exact ⟨rfl, h⟩
    | cons c rs =>
      obtain ⟨t, hanswer, hadv⟩ := answer_r_cons hrefs
      obtain ⟨t', hanswer', hadv'⟩ := answer_r_cons (s := s') (h.refs ▸ hrefs)
      rw [hanswer, hanswer']
      exact ⟨rfl, h.moves (moves_of_advances hadv) (moves_of_advances hadv')⟩
  | rPeek j =>
    rw [answer_rPeek, answer_rPeek, toOption_rPeek, toOption_rPeek, h.cell, h.refStart, h.refEnd]
    exact ⟨rfl, h⟩
  | i n => cases hq
  | u n => cases hq
  | remainingBits => cases hq
  | skip n => cases hq

omit [LawfulNumBigint] [LawfulTonWindows] in
/-- They leave the bits alone. -/
theorem answer_onRefs_bits {q : Query} (hq : q.onBits = false) {s s' : PySlice}
    (h : SameBits s s') : SameBits (answer Query.call q s).2 s' := by
  cases q with
  | refs => exact h
  | r =>
    cases hrefs : s.refs with
    | nil =>
      rw [answer_r_empty hrefs]
      exact h
    | cons c rs =>
      obtain ⟨t, hanswer, hadv⟩ := answer_r_cons hrefs
      rw [hanswer]
      exact h.moves (moves_of_advances hadv) (.refl s')
  | rPeek j =>
    rw [answer_rPeek]
    exact h
  | i n => cases hq
  | u n => cases hq
  | remainingBits => cases hq
  | skip n => cases hq

/-- However calls on bits and calls on references are interleaved, each kind is answered as
if it were made alone, and what is left is what each kind leaves alone. -/
theorem observe_interleaved (queries : List Query) (s : PySlice) :
    ((observe queries s).1.filter fun p => p.1.onBits) =
        (observe (queries.filter fun q => q.onBits) s).1 ∧
      ((observe queries s).1.filter fun p => !p.1.onBits) =
        (observe (queries.filter fun q => !q.onBits) s).1 ∧
      (observe queries s).2.content =
        ⟨(observe (queries.filter fun q => q.onBits) s).2.bits,
          (observe (queries.filter fun q => !q.onBits) s).2.refs⟩ := by
  have hbits : ((observe queries s).1.filter fun p => p.1.onBits) =
        (observe (queries.filter fun q => q.onBits) s).1 ∧
      SameBits (observe queries s).2 (observe (queries.filter fun q => q.onBits) s).2 := by
    refine trace_filter Query.onBits (R := SameBits) ?_ ?_ ⟨rfl, rfl, rfl⟩
    · exact fun q _ _ hq h => answer_sameBits hq h
    · exact fun q _ _ hq h => answer_onRefs_bits hq h
  have hrefs : ((observe queries s).1.filter fun p => !p.1.onBits) =
        (observe (queries.filter fun q => !q.onBits) s).1 ∧
      SameRefs (observe queries s).2 (observe (queries.filter fun q => !q.onBits) s).2 := by
    refine trace_filter (fun q : Query => !q.onBits) (R := SameRefs) ?_ ?_ ⟨rfl, rfl, rfl⟩
    · exact fun q _ _ hq h => answer_sameRefs ((Bool.not_eq_true' _).mp hq) h
    · exact fun q _ _ hq h => answer_onBits_refs ((Bool.not_eq_false' _).mp hq) h
  exact ⟨hbits.1, hrefs.1, Fragment.ext hbits.2.bits hrefs.2.refs⟩

/-! ### Peeking -/

theorem refs_answer {q : Query} (hq : q ≠ .r) (s : PySlice) :
    (answer Query.call q s).2.refs = s.refs := by
  cases hbits : q.onBits with
  | true => exact (answer_onBits_refs hbits (⟨rfl, rfl, rfl⟩ : SameRefs s s)).refs
  | false =>
    cases q with
    | rPeek j => rw [answer_rPeek]
    | r => exact absurd rfl hq
    | refs => rfl
    | _ => cases hbits

omit [LawfulNumBigint] [LawfulTonWindows] in
theorem refs_answer_r (s : PySlice) : (answer Query.call .r s).2.refs = s.refs.tail := by
  cases hrefs : s.refs with
  | nil => rw [answer_r_empty hrefs, hrefs, List.tail_nil]
  | cons c rs =>
    obtain ⟨s', hanswer, hadv⟩ := answer_r_cons hrefs
    have hleft : s.refs = c :: s'.refs := congrArg Fragment.refs hadv.content
    rw [hanswer, List.tail_cons]
    exact (List.cons.inj (hleft.symm.trans hrefs)).2

/-- Each call of `r` takes one reference, if there is one. -/
theorem refs_observe (queries : List Query) (s : PySlice) :
    (observe queries s).2.refs = s.refs.drop (queries.count .r) := by
  induction queries generalizing s with
  | nil => rfl
  | cons q queries ih =>
    change (observe queries (answer Query.call q s).2).2.refs = _
    rw [ih]
    by_cases hq : q = .r
    · subst hq
      rw [List.count_cons_self, refs_answer_r, List.drop_tail]
    · rw [List.count_cons_of_ne hq, refs_answer hq]

/-- What is peeked at before a run is what is read after it, when the run reads that many
references. There is none exactly when reading raises. -/
theorem rPeek_eq_r {queries : List Query} (h : queries.count .r + maxRefs < 2 ^ 64) (s : PySlice) :
    (answer Query.call (.rPeek (queries.count .r)) s).1 =
      (answer Query.call .r (observe queries s).2).1 := by
  have hpeek : (Query.rPeek (queries.count .r)).InRange := h
  have hread : Query.r.InRange := trivial
  rw [(answer_eq_step hpeek s).1, (answer_eq_step hread (observe queries s).2).1, Query.step,
    Query.step, SliceData.content_refs, SliceData.content_refs, refs_observe, List.head?_drop]

end

section Reference

open scoped Reference

/-- The bit is read, the skip goes back to it, and there is no reference. -/
def backQueries : List Query := [.u 1, .skip (2 ^ 64 - 1), .r]

theorem richcmp_eq_iff_observe_behindBit :
    richcmp behindBit (SliceData.ofCell .empty) .eq = some true ↔
      ∀ queries : List Query, (∀ q ∈ queries, q.InRange) →
        (observe queries behindBit).1 = (observe queries (SliceData.ofCell .empty)).1 :=
  richcmp_eq_iff_observe behindBit (SliceData.ofCell .empty)

theorem observe_interleaved_oneBit :
    ((observe backQueries (SliceData.ofCell oneBit)).1.filter fun p => p.1.onBits) =
        (observe (backQueries.filter fun q => q.onBits) (SliceData.ofCell oneBit)).1 ∧
      ((observe backQueries (SliceData.ofCell oneBit)).1.filter fun p => !p.1.onBits) =
        (observe (backQueries.filter fun q => !q.onBits) (SliceData.ofCell oneBit)).1 ∧
      (observe backQueries (SliceData.ofCell oneBit)).2.content =
        ⟨(observe (backQueries.filter fun q => q.onBits) (SliceData.ofCell oneBit)).2.bits,
          (observe (backQueries.filter fun q => !q.onBits) (SliceData.ofCell oneBit)).2.refs⟩ :=
  observe_interleaved backQueries (SliceData.ofCell oneBit)

theorem rPeek_eq_r_oneBit :
    (answer Query.call (.rPeek (backQueries.count .r)) (SliceData.ofCell oneBit)).1 =
      (answer Query.call .r (observe backQueries (SliceData.ofCell oneBit)).2).1 :=
  rPeek_eq_r (by decide) (SliceData.ofCell oneBit)

end Reference

end PySlice

end EverPlayground
