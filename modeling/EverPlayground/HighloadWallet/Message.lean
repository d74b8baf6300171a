import EverPlayground.Builder.Fits
import EverPlayground.Currency

/-!
# Internal messages

The messages that the highload wallet sends: a header of fixed fields around an amount of
variable length, and a body, which is stored in the cell of the message where it fits and
in a cell of its own otherwise. A bit before the body tells which.

## Main definitions

* `createIntMsg` — the writer
* `IntMsg.read` — the reader that belongs to it

## Main results

* `createIntMsg_carries` — on a body that `Slice` accepts the writer succeeds, and the reader
  recovers the fields
-/

set_option autoImplicit false

namespace EverPlayground

open Math.Positional Math.TwosComplement Semantics Semantics.Cursor

namespace HighloadWallet

section Methods

variable [NumBigint] [TonTypes]

def appendMsgBody (body : Cell) : Mut PyErr PyBuilder Unit := do
  let bodySlice ← Mut.ofExcept (PySlice.create body)
  let b ← get
  if PyBuilder.fits b bodySlice 1 0 then
    PyBuilder.i 1 0
    PyBuilder.s bodySlice
  else
    PyBuilder.i 1 1
    PyBuilder.r body

/-- Everything before the body. -/
def appendMsgHeader (bounce : Bool) (wc addr : ℤ) (ng : Currency) : Mut PyErr PyBuilder Unit := do
  PyBuilder.ib "01"
  PyBuilder.i 1 bounce.toInt
  PyBuilder.ib "000100"
  PyBuilder.i 8 wc
  PyBuilder.i 256 addr
  let grams ← Mut.ofExcept ng.serialize
  PyBuilder.b grams
  PyBuilder.i (9 + 64 + 32 + 1) 0

def createIntMsg (body : Cell) (bounce : Bool) (wc addr : ℤ) (ng : Currency) :
    Except PyErr Cell := do
  let b ← PyBuilder.build (appendMsgHeader bounce wc addr ng)
  let b ← (appendMsgBody body).result b
  PyBuilder.finalize b

end Methods

/-- The fields of an internal message. -/
@[ext] structure IntMsg where
  bounce : Bool
  wc : ℤ
  addr : ℤ
  ng : Currency
  body : Fragment

namespace IntMsg

section Methods

variable [NumBigint] [TonTypes]

/-- A field that has only one value. -/
def expect (bits value : ℕ) : Mut PyErr PySlice Unit := do
  let n ← PySlice.u bits
  if n = value then pure () else throw .assertionError

def readBit : Mut PyErr PySlice Bool := (· != 0) <$> PySlice.u 1

/-- The body is the rest of the cell, or the whole of the next reference. -/
def readBody : Mut PyErr PySlice Fragment := do
  if ← readBit then
    let c ← PySlice.r
    pure ⟨c.data, c.refs⟩
  else
    let rest ← get
    pure rest.content

def read : Mut PyErr PySlice IntMsg := do
  expect 2 0b01
  let bounce ← readBit
  expect 6 0b000100
  let wc ← PySlice.i 8
  let addr ← PySlice.u 256
  let ng ← Mut.withNew ⟨0⟩ Currency.deserialize
  expect 106 0
  let body ← readBody
  pure { bounce, wc, addr, ng, body }

end Methods

end IntMsg

/-! ### The layout -/

/-- The fields before the body, for an amount `m`. -/
def headerLayout (bounce : Bool) (wc : ℤ) (addr m : ℕ) : Fragment :=
  TlB.uint 2 0b01 * (.ofBits [bounce] * (TlB.uint 6 0b000100 * (.ofBits (twos 8 wc) *
    (TlB.uint 256 addr * (Currency.encoding (Currency.amount m).byteLength m * TlB.uint 106 0)))))

/-- The selector and the body, in either form. -/
def BodyLayout (body : Cell) (f : Fragment) : Prop :=
  f = .ofBits [false] * ⟨body.data, body.refs⟩ ∨ f = .ofBits [true] * .ofRef body

/-- At most fifteen bytes of amount; no references. -/
theorem within_headerLayout (bounce : Bool) (wc : ℤ) (addr : ℕ) {m : ℕ} (hm : m < 2 ^ 120) :
    (headerLayout bounce wc addr m).Within 503 0 := by
  have hlen := Currency.byteLength_lt hm
  have hgrams : (Currency.encoding (Currency.amount m).byteLength m).Within 124 0 := by
    refine ⟨?_, le_rfl⟩
    rw [Currency.length_encoding]
    omega
  have hwc : (Fragment.ofBits (twos 8 wc)).Within 8 0 := ⟨(length_twos 8 wc).le, le_rfl⟩
  have hsum := (TlB.within_uint 2 0b01).mul ((Fragment.within_ofBits [bounce]).mul
    ((TlB.within_uint 6 0b000100).mul (hwc.mul ((TlB.within_uint 256 addr).mul
      (hgrams.mul (TlB.within_uint 106 0))))))
  exact ⟨hsum.1.trans (by norm_num), hsum.2⟩

section

variable [NumBigint] [TonTypes] [LawfulNumBigint] [LawfulTonTypes]

/-! ### Writing -/

omit [NumBigint] [LawfulNumBigint] in
theorem ib_writes_uint {bin : String} {w n : ℕ}
    (hbits : ∀ c ∈ bin.toList, PyBuilder.isBit c = true)
    (hword : PyBuilder.digitBits bin.toList = word w n) :
    PyBuilder.BuilderWrites (PyBuilder.ib bin) (TlB.uint w n) := by
  have hwrites := (PyBuilder.ib_writesExactly hbits).writes
  rwa [hword] at hwrites

theorem appendMsgHeader_writes (bounce : Bool) {wc : ℤ} {addr m : ℕ}
    (hlo : -128 ≤ wc) (hhi : wc ≤ 127) (haddr : addr < 2 ^ 256) (hm : m < 2 ^ 120) :
    PyBuilder.BuilderWrites (appendMsgHeader bounce wc addr (Currency.amount m))
      (headerLayout bounce wc addr m) := by
  obtain ⟨grams, hgrams, hcontent⟩ := Currency.serialize_eq (Currency.byteLength_lt hm)
  have hwc : Representable 8 wc := ⟨hlo, by omega⟩
  have haddr' : PyBuilder.BuilderWrites (PyBuilder.i 256 addr) (TlB.uint 256 addr) :=
    PyBuilder.i_writes_uint (by decide) (Int.natCast_nonneg addr) (by exact_mod_cast haddr)
  have hzeros : PyBuilder.BuilderWrites (PyBuilder.i (9 + 64 + 32 + 1) 0) (TlB.uint 106 0) :=
    PyBuilder.i_writes_uint (by decide) le_rfl (by positivity)
  have hb := PyBuilder.b_writes grams
  rw [hcontent] at hb
  have htail : PyBuilder.BuilderWrites
      (do
        let grams ← Mut.ofExcept (Currency.amount m).serialize
        PyBuilder.b grams
        PyBuilder.i (9 + 64 + 32 + 1) 0)
      (Currency.encoding (Currency.amount m).byteLength m * TlB.uint 106 0) := by
    rw [hgrams]
    exact hb.seq hzeros
  refine (ib_writes_uint ?_ ?_).seq ((PyBuilder.i_one_writes bounce).seq
    ((ib_writes_uint ?_ ?_).seq ((PyBuilder.i_writes (by decide) hwc).seq (haddr'.seq htail))))
  · exact List.all_eq_true.mp rfl
  · decide
  · exact List.all_eq_true.mp rfl
  · decide

/-- The body goes in after its selector, wherever there is room for a reference. -/
theorem appendMsgBody_writes {body : Cell} {bodySlice : PySlice} {b : PyBuilder}
    (hslice : PySlice.create body = .ok bodySlice)
    (hcontent : bodySlice.content = ⟨body.data, body.refs⟩)
    (hroom : (b.toFragment * (.ofBits [true] * .ofRef body)).Fits) :
    ∃ f b', BodyLayout body f ∧ (appendMsgBody body).exec b = (.ok (), b') ∧
      b'.toFragment = b.toFragment * f := by
  have hopen : (Mut.ofExcept (PySlice.create body) : Mut PyErr PyBuilder PySlice).exec b =
      (.ok bodySlice, b) := by
    rw [hslice]
    rfl
  rw [appendMsgBody, Mut.exec_bind_ok hopen, Mut.exec_bind_ok (Mut.exec_get b)]
  split_ifs with hfits
  · have hinline := PyBuilder.fits_mul_of_fits (.ofBits [false]) (by decide) hfits
    have hwrites := (PyBuilder.i_one_writes false).seq
      (PyBuilder.s_writesExactly bodySlice).writes
    obtain ⟨b', hrun, hb'⟩ := hwrites b hinline
    rw [hcontent] at hb'
    exact ⟨_, b', Or.inl rfl, hrun, hb'⟩
  · have hwrites := (PyBuilder.i_one_writes true).seq (PyBuilder.r_writes body)
    obtain ⟨b', hrun, hb'⟩ := hwrites b hroom
    exact ⟨_, b', Or.inr rfl, hrun, hb'⟩

/-! ### Reading -/

theorem IntMsg.expect_reads {bits value : ℕ} (h : value < 2 ^ bits) :
    Reads SliceData.content (expect bits value) (TlB.uint bits value) () := by
  have hreads := (PySlice.u_reads_uint h).bind (g := 1)
    (k := fun n => if n = value then pure () else throw PyErr.assertionError) (b := ())
    (by rw [if_pos rfl]; exact Reads.pure ())
  rwa [mul_one] at hreads

theorem IntMsg.readBit_reads (bit : Bool) :
    Reads SliceData.content readBit (.ofBits [bit]) bit := by
  have hreads := (PySlice.u_reads [bit]).map (· != 0)
  have hvalue : (value [bit] != 0) = bit := by cases bit <;> rfl
  rwa [hvalue] at hreads

/-- Both forms are read as the data and the references of the body. -/
theorem IntMsg.readBody_eq {body : Cell} {f : Fragment}
    {s : PySlice} (hf : BodyLayout body f) (hs : s.content = f) :
    ∃ s', readBody.exec s = (.ok ⟨body.data, body.refs⟩, s') := by
  rcases hf with rfl | rfl
  · obtain ⟨s', hrun, hs'⟩ := IntMsg.readBit_reads false s _ hs
    refine ⟨s', ?_⟩
    rw [readBody, Mut.exec_bind_ok hrun, if_neg Bool.false_ne_true,
      Mut.exec_bind_ok (Mut.exec_get s'), hs', Mut.exec_pure]
  · obtain ⟨s', hrun, hs'⟩ := IntMsg.readBit_reads true s _ hs
    obtain ⟨s'', hrun', -⟩ := PySlice.r_reads body s' 1 (by rw [hs', mul_one])
    refine ⟨s'', ?_⟩
    rw [readBody, Mut.exec_bind_ok hrun, if_pos rfl, Mut.exec_bind_ok hrun', Mut.exec_pure]

/-- A slice that shows the layout is read as the fields that were laid out. -/
theorem IntMsg.read_eq {body : Cell} {f : Fragment} {s : PySlice} (bounce : Bool) {wc : ℤ}
    {addr m : ℕ} (hlo : -128 ≤ wc) (hhi : wc ≤ 127) (haddr : addr < 2 ^ 256) (hm : m < 2 ^ 120)
    (hf : BodyLayout body f) (hs : s.content = headerLayout bounce wc addr m * f) :
    ∃ s', read.exec s =
      (.ok ⟨bounce, wc, addr, Currency.amount m, ⟨body.data, body.refs⟩⟩, s') := by
  have hwc : Reads SliceData.content (PySlice.i 8) (.ofBits (twos 8 wc)) wc := by
    have hreads := PySlice.i_reads (twos 8 wc)
    rwa [length_twos, signed_twos (by omega)] at hreads
  have hgrams := (Currency.deserialize_decodes (Currency.byteLength_lt hm)
    (Currency.lt_of_byteLength m) ⟨0⟩).withNew
  -- field by field up to the body, which takes what is left
  simp only [headerLayout, mul_assoc] at hs
  obtain ⟨s₁, h₁, hs₁⟩ := expect_reads (by decide) s _ hs
  obtain ⟨s₂, h₂, hs₂⟩ := readBit_reads bounce s₁ _ hs₁
  obtain ⟨s₃, h₃, hs₃⟩ := expect_reads (by decide) s₂ _ hs₂
  obtain ⟨s₄, h₄, hs₄⟩ := hwc s₃ _ hs₃
  obtain ⟨s₅, h₅, hs₅⟩ := PySlice.u_reads_uint haddr s₄ _ hs₄
  obtain ⟨s₆, h₆, hs₆⟩ := hgrams s₅ _ hs₅
  obtain ⟨s₇, h₇, hs₇⟩ := expect_reads (by positivity) s₆ _ hs₆
  obtain ⟨s₈, h₈⟩ := readBody_eq hf hs₇
  refine ⟨s₈, ?_⟩
  rw [read, Mut.exec_bind_ok h₁, Mut.exec_bind_ok h₂, Mut.exec_bind_ok h₃, Mut.exec_bind_ok h₄,
    Mut.exec_bind_ok h₅, Mut.exec_bind_ok h₆, Mut.exec_bind_ok h₇, Mut.exec_bind_ok h₈,
    Mut.exec_pure]

/-! ### The message -/

theorem build_appendMsgHeader (bounce : Bool) {wc : ℤ} {addr m : ℕ} (hlo : -128 ≤ wc)
    (hhi : wc ≤ 127) (haddr : addr < 2 ^ 256) (hm : m < 2 ^ 120) :
    ∃ b, PyBuilder.build (appendMsgHeader bounce wc addr (Currency.amount m)) = .ok b ∧
      b.toFragment = headerLayout bounce wc addr m := by
  have hfits := (within_headerLayout bounce wc addr hm).fits (by decide) (by decide)
  exact ⟨_, PyBuilder.build_eq (appendMsgHeader_writes bounce hlo hhi haddr hm) hfits, rfl⟩

/-- Where the body can be opened the message is made, and holds the layout. -/
theorem createIntMsg_eq [LawfulLoad] {body : Cell} {bodySlice : PySlice} (bounce : Bool) {wc : ℤ}
    {addr m : ℕ} (hslice : PySlice.create body = .ok bodySlice) (hlo : -128 ≤ wc)
    (hhi : wc ≤ 127) (haddr : addr < 2 ^ 256) (hm : m < 2 ^ 120) :
    ∃ f b, BodyLayout body f ∧ b.toFragment = headerLayout bounce wc addr m * f ∧
      createIntMsg body bounce wc addr (Currency.amount m) = .ok (.ordinary b) := by
  obtain ⟨header, hheader, hlayout⟩ := build_appendMsgHeader bounce hlo hhi haddr hm
  -- a selector and a reference always fit
  have hroom : (header.toFragment * (.ofBits [true] * .ofRef body)).Fits := by
    rw [hlayout]
    refine ((within_headerLayout bounce wc addr hm).mul
      ((Fragment.within_ofBits [true]).mul (Fragment.within_ofRef body))).fits ?_ ?_
    · norm_num [maxBits]
    · norm_num [maxRefs]
  have hcontent : bodySlice.content = ⟨body.data, body.refs⟩ := by
    rw [LawfulLoad.loadCell body bodySlice (mapError_eq_ok_iff.mp hslice)]
    ext1 <;> simp
  obtain ⟨f, b, hf, hrun, hb⟩ := appendMsgBody_writes hslice hcontent hroom
  refine ⟨f, b, hf, by rw [hb, hlayout], ?_⟩
  rw [createIntMsg, hheader, ok_bind, Mut.result_eq hrun]
  exact PyBuilder.finalize_eq b

/-- A body that cannot be opened is refused. -/
theorem createIntMsg_error {body : Cell} {e : PyErr} (bounce : Bool) {wc : ℤ} {addr m : ℕ}
    (hslice : PySlice.create body = .error e) (hlo : -128 ≤ wc)
    (hhi : wc ≤ 127) (haddr : addr < 2 ^ 256) (hm : m < 2 ^ 120) :
    createIntMsg body bounce wc addr (Currency.amount m) = .error e := by
  obtain ⟨header, hheader, -⟩ := build_appendMsgHeader bounce hlo hhi haddr hm
  rw [createIntMsg, hheader, appendMsgBody, hslice]
  rfl

/-- The message is made for every body that `Slice` accepts, every ordinary cell among them,
and parsing it field by field recovers what went in. -/
theorem createIntMsg_carries [LawfulLoad] (body : Cell) (bounce : Bool) {wc addr : ℤ}
    {ng : Currency} (hwc : -128 ≤ wc ∧ wc ≤ 127) (haddr : 0 ≤ addr ∧ addr < 2 ^ 256)
    (hng : 0 ≤ ng.value ∧ ng.value < 2 ^ 120) :
    (∀ bodySlice, PySlice.create body = .ok bodySlice →
      ∃ msg s s', createIntMsg body bounce wc addr ng = .ok msg ∧ PySlice.create msg = .ok s ∧
        IntMsg.read.exec s = (.ok ⟨bounce, wc, addr, ng, ⟨body.data, body.refs⟩⟩, s')) ∧
    (∀ e, PySlice.create body = .error e → createIntMsg body bounce wc addr ng = .error e) ∧
    (body.exotic = false → ∃ bodySlice, PySlice.create body = .ok bodySlice) := by
  obtain ⟨account, rfl⟩ := Int.eq_ofNat_of_zero_le haddr.1
  obtain ⟨m, hm⟩ := Int.eq_ofNat_of_zero_le hng.1
  obtain rfl : ng = Currency.amount m := Currency.ext hm
  have haccount : account < 2 ^ 256 := by exact_mod_cast haddr.2
  have hm' : m < 2 ^ 120 := Currency.amount_value_lt.mp hng.2
  refine ⟨fun bodySlice hslice => ?_, fun e hslice => ?_, fun hordinary => ?_⟩
  · obtain ⟨f, b, hf, hb, hmsg⟩ :=
      createIntMsg_eq bounce hslice hwc.1 hwc.2 haccount hm'
    obtain ⟨s, hs, hcontent⟩ := PyBuilder.create_ordinary_eq b
    rw [hb] at hcontent
    obtain ⟨s', hrun⟩ := IntMsg.read_eq bounce hwc.1 hwc.2 haccount hm' hf hcontent
    exact ⟨_, s, s', hmsg, hs, hrun⟩
  · exact createIntMsg_error bounce hslice hwc.1 hwc.2 haccount hm'
  · exact ⟨_, PySlice.create_eq hordinary⟩

end

section Reference

open scoped Reference

/-- As large a body as a cell can hold, which does not fit behind a header. -/
def fullBody : Cell :=
  .ordinary ⟨.ofBits (List.replicate maxBits true), List.length_replicate.le, Nat.zero_le _⟩

/-- A transfer of 256 units from the masterchain, with a body of its own. -/
theorem createIntMsg_carries_fullBody :
    ∃ msg s s', createIntMsg fullBody true (-1) 5 (Currency.amount 256) = .ok msg ∧
      PySlice.create msg = .ok s ∧
      IntMsg.read.exec s =
        (.ok ⟨true, -1, 5, Currency.amount 256, ⟨fullBody.data, fullBody.refs⟩⟩, s') := by
  exact (createIntMsg_carries fullBody true (by decide) (by decide) (by decide)).1 _ rfl

/-- The data of a pruned branch: its type, its level, and the hash and the depth of the cell that
it stands for. -/
def prunedData : List Bool := word 16 0x0101 ++ List.replicate 272 false

theorem length_prunedData_le : prunedData.length ≤ maxBits := by
  rw [prunedData, List.length_append, length_word, List.length_replicate]
  decide

def prunedBody : Cell :=
  .mk true prunedData length_prunedData_le ⟨0, Nat.succ_pos maxRefs⟩ Fin.elim0

/-- A body that `Slice` does not accept is not sent, although a reference to it would fit. -/
theorem createIntMsg_prunedBody :
    ∃ e, createIntMsg prunedBody true (-1) 5 (Currency.amount 256) = .error e :=
  ⟨_, createIntMsg_error true rfl (by decide) (by decide) (by decide) (by decide)⟩

end Reference

end HighloadWallet

end EverPlayground
