import EverPlayground.Address
import EverPlayground.Currency.FromStr
import EverPlayground.Address.Loaded
import EverPlayground.ExternalMessage

/-!
# Asking the test giver

The script makes a message that asks an account of the masterchain, the test giver, to send
an amount to a destination. The transfer it asks for is written out by hand, with the body
in one piece with the header.

## Main definitions

* `c1`, `message`, `extMessage` — the three cells of the script
* `Request.read` — the reader of the message
* `Order.request` — what is asked for

## Main results

* `c1_eq_createIntMsg` — the transfer is the one that the highload script makes of the gift
* `run_eq_ok_iff`, `run_asks` — when a message is made, and what it asks for
* `run_asks_loaded` — what it asks for when the destination is in a file
-/

set_option autoImplicit false

namespace EverPlayground

open Math.Positional Math.TwosComplement Semantics Semantics.Cursor
open HighloadWallet (IntMsg createIntMsg appendMsgHeader appendMsgHeader_writes appendMsgBody
  headerLayout within_headerLayout BodyLayout)
open HighloadWallet.IntMsg (expect expect_reads)

namespace TestGiver

/-- The arguments on the command line. -/
structure Args where
  destAddress : String
  seqno : String
  amount : String

def giverAddress : String := "-1:fcb91a3a3816d0f7b8c2c76108b8a9bc5a6b7a55bd79f8ab101c52db29232260"

/-- `bytes("GIFT", "utf8")`. -/
def hint : List UInt8 := [0x47, 0x49, 0x46, 0x54]

section Methods

variable [NumBigint] [TonTypes]

def c1 (destWc destAddr : ℤ) (amount : Currency) : Except PyErr Cell := do
  let b ← PyBuilder.build do
    PyBuilder.ib "01"
    PyBuilder.i 1 true.toInt
    PyBuilder.ib "000100"
    PyBuilder.i 8 destWc
    PyBuilder.i 256 destAddr
    let grams ← Mut.ofExcept amount.serialize
    PyBuilder.b grams
    PyBuilder.i (9 + 64 + 32 + 1 + 1) 0
    PyBuilder.i 32 0
    PyBuilder.y hint
  PyBuilder.finalize b

def message (seqno : ℤ) (c1 : Cell) : Except PyErr Cell := do
  let b ← PyBuilder.build do
    PyBuilder.i 32 seqno
    PyBuilder.i 8 1
    PyBuilder.r c1
  PyBuilder.finalize b

def extMessage (giverWc giverAddr : ℤ) (message : Cell) : Except PyErr Cell := do
  let zero ← Currency.create 0
  let grams ← zero.serialize
  let slice ← PySlice.create message
  let b ← PyBuilder.build do
    PyBuilder.ib "1000100"
    PyBuilder.i 8 giverWc
    PyBuilder.i 256 giverAddr
    PyBuilder.b grams
    PyBuilder.ib "00"
    PyBuilder.s slice
  PyBuilder.finalize b

/-- What the arguments are read as. -/
@[ext] structure Order where
  destWc : ℤ
  destAddr : ℤ
  seqno : ℤ
  amount : Currency

def parseArgs [Python.Unicode] (files : String → Except PyErr (List UInt8)) (args : Args) :
    Except PyErr Order := do
  let (destWc, destAddr) ← parseLoadAddress files args.destAddress
  let seqno ← (Python.int 10 args.seqno.toList).elim (.error .valueError) .ok
  let amount ← Currency.fromStr args.amount
  .ok { destWc, destAddr, seqno, amount }

/-- The script, up to the message that it saves. -/
def run [Python.Unicode] (files : String → Except PyErr (List UInt8)) (args : Args) :
    Except PyErr Cell := do
  let (giverWc, giverAddr) ← parseSmcAddr giverAddress
  let order ← parseArgs files args
  let c1 ← c1 order.destWc order.destAddr order.amount
  let message ← message order.seqno c1
  extMessage giverWc giverAddr message

end Methods

/-! ### The transfer -/

/-- The body of the transfer: a comment. -/
def giftLayout : Fragment := TlB.uint 32 0 * .ofBits (bytesToBits hint)

theorem within_giftLayout : giftLayout.Within 64 0 := ⟨by decide, le_rfl⟩

theorem giftLayout_fits : giftLayout.Fits := within_giftLayout.fits (by decide) (by decide)

def giftBody : Cell := .ordinary ⟨giftLayout, giftLayout_fits⟩

section

variable [NumBigint] [TonTypes] [LawfulNumBigint] [LawfulTonTypes]

/-- An amount takes fifteen bytes at most, whatever is written. -/
theorem within_serialize {amount : Currency} {grams : PyBuilder}
    (h : amount.serialize = .ok grams) : grams.toFragment.Within 124 0 := by
  have hbuild : ∀ {x : Mut PyErr PyBuilder Unit} {f : Fragment}, PyBuilder.BuilderWrites x f →
      f.Within 124 0 → PyBuilder.build x = .ok grams → grams.toFragment.Within 124 0 := by
    intro x f hx hf hgrams
    rw [PyBuilder.build_eq hx (hf.fits (by decide) (by decide))] at hgrams
    cases hgrams
    exact hf
  rw [Currency.serialize] at h
  split_ifs at h with hzero hlt
  · obtain ⟨w, hw, -, hi⟩ := PyBuilder.i_writes_word (show 1 ≤ 4 by decide) 0
    exact hbuild hi ⟨by rw [Fragment.ofBits_bits, hw]; decide, le_rfl⟩ h
  · -- an amount that is not zero has a byte
    have hbits := mt (bitLength_le_iff amount.value 0).mp (by omega)
    have hpos : 1 ≤ amount.byteLength * 8 := by
      rw [Currency.byteLength, Nat.shiftRight_eq_div_pow]
      omega
    obtain ⟨u, hu, -, hlen⟩ := PyBuilder.i_writes_word (show 1 ≤ 4 by decide) amount.byteLength
    obtain ⟨w, hw, -, hvalue⟩ := PyBuilder.i_writes_word hpos amount.value
    refine hbuild (hlen.seq hvalue) ⟨?_, le_rfl⟩ h
    rw [Fragment.mul_bits, List.length_append, Fragment.ofBits_bits, Fragment.ofBits_bits, hu, hw]
    omega

/-- A builder that has taken everything up to the account. -/
structure Opened (destWc destAddr : ℤ) (b : PyBuilder) : Prop where
  within : b.toFragment.Within 273 0
  exec : ∀ x : Mut PyErr PyBuilder Unit,
    (do
      PyBuilder.ib "01"
      PyBuilder.i 1 true.toInt
      PyBuilder.ib "000100"
      PyBuilder.i 8 destWc
      PyBuilder.i 256 destAddr
      x : Mut PyErr PyBuilder Unit).exec .new = x.exec b

/-- The account is never refused. -/
theorem exists_opened (destWc destAddr : ℤ) : ∃ b, Opened destWc destAddr b := by
  obtain ⟨bounce, hbounce, -, h₁⟩ := PyBuilder.i_writes_word (show 1 ≤ 1 by decide) true.toInt
  obtain ⟨wc, hwc, -, h₂⟩ := PyBuilder.i_writes_word (show 1 ≤ 8 by decide) destWc
  obtain ⟨addr, haddr, -, h₃⟩ := PyBuilder.i_writes_word (show 1 ≤ 256 by decide) destAddr
  have htag : PyBuilder.BuilderWrites (PyBuilder.ib "01") (.ofBits [false, true]) :=
    (PyBuilder.ib_writesExactly (List.all_eq_true.mp rfl)).writes
  have hflags : PyBuilder.BuilderWrites (PyBuilder.ib "000100")
      (.ofBits [false, false, false, true, false, false]) :=
    (PyBuilder.ib_writesExactly (List.all_eq_true.mp rfl)).writes
  obtain ⟨b, hrun, hb⟩ := htag.seq (h₁.seq (hflags.seq (h₂.seq h₃))) .new (by
    constructor
    · simp [hbounce, hwc, haddr, maxBits]
    · simp [maxRefs])
  refine ⟨b, ⟨?_, ?_⟩, fun x => ?_⟩
  · simp [hb, hbounce, hwc, haddr]
  · simp [hb]
  · rw [← Mut.exec_bind_ok (k := fun _ => x) hrun]
    simp only [bind_assoc]

/-- A body that has room stays in the cell of the message. -/
theorem appendMsgBody_inline {body : Cell} {bodySlice : PySlice}
    {b : PyBuilder} (hslice : PySlice.create body = .ok bodySlice)
    (hroom : (b.toFragment * (.ofBits [false] * bodySlice.content)).Fits) :
    ∃ b', (appendMsgBody body).exec b = (.ok (), b') ∧
      b'.toFragment = b.toFragment * (.ofBits [false] * bodySlice.content) := by
  have hwrites := (PyBuilder.i_one_writes false).seq (PyBuilder.s_writesExactly bodySlice).writes
  obtain ⟨b', hrun, hb'⟩ := hwrites b hroom
  refine ⟨b', ?_, hb'⟩
  have hfits : PyBuilder.fits b bodySlice 1 0 = true := by
    obtain ⟨hbits, hrefs⟩ := hroom
    simp only [Fragment.mul_bits, Fragment.mul_refs, Fragment.ofBits_bits, Fragment.ofBits_refs,
      List.length_append, List.length_singleton, List.length_nil, SliceData.content_bits,
      SliceData.content_refs] at hbits hrefs
    refine (PyBuilder.fits_eq_true_iff b bodySlice (by decide) (by decide)).mpr ⟨?_, ?_⟩
    · rw [PyBuilder.Overruns, PySlice.remainingBits]
      omega
    · rw [PyBuilder.Overruns, PySlice.remainingReferences]
      omega
  rw [appendMsgBody, hslice, Mut.ofExcept_ok_bind, Mut.exec_bind_ok (Mut.exec_get b), if_pos hfits]
  exact hrun

omit [NumBigint] [TonTypes] [LawfulNumBigint] [LawfulTonTypes] in
/-- The last of some zeros can be told apart from the others. -/
theorem uint_succ_zero (w : ℕ) : TlB.uint (w + 1) 0 = TlB.uint w 0 * .ofBits [false] := by
  rw [TlB.uint, word_succ, Nat.zero_div]
  rfl

/-! ### The two writers -/

/-- What follows the account: the amount, some zeros, the place of the body and the body. -/
def tailLayout (grams : Fragment) : Fragment :=
  grams * (TlB.uint (9 + 64 + 32 + 1) 0 * (.ofBits [false] * giftLayout))

omit [NumBigint] [TonTypes] [LawfulNumBigint] [LawfulTonTypes] in
/-- One field of zeros takes in the place of the body. -/
theorem tailLayout_eq (grams : Fragment) :
    tailLayout grams = grams * (TlB.uint (9 + 64 + 32 + 1 + 1) 0 * giftLayout) := by
  rw [tailLayout, uint_succ_zero (9 + 64 + 32 + 1), mul_assoc]

theorem Opened.fits {destWc destAddr : ℤ} {b grams : PyBuilder} (h : Opened destWc destAddr b)
    {amount : Currency} (hgrams : amount.serialize = .ok grams) :
    (b.toFragment * tailLayout grams.toFragment).Fits :=
  (h.within.mul ((within_serialize hgrams).mul ((TlB.within_uint _ 0).mul
    ((Fragment.within_ofBits [false]).mul within_giftLayout)))).fits (by decide) (by decide)

theorem c1_eq {destWc destAddr : ℤ} {b grams : PyBuilder} (h : Opened destWc destAddr b)
    {amount : Currency} (hgrams : amount.serialize = .ok grams) :
    c1 destWc destAddr amount = .ok (.ordinary ⟨_, h.fits hgrams⟩) := by
  have hzeros : ∀ w, 1 ≤ w → PyBuilder.BuilderWrites (PyBuilder.i w 0) (TlB.uint w 0) :=
    fun w hw => PyBuilder.i_writes_uint hw le_rfl (by positivity)
  have hhint : PyBuilder.BuilderWrites (PyBuilder.y hint) (.ofBits (bytesToBits hint)) :=
    (PyBuilder.y_writesExactly hint).writes
  have htail := (PyBuilder.b_writes grams).seq
    ((hzeros (9 + 64 + 32 + 1 + 1) (by decide)).seq ((hzeros 32 (by decide)).seq hhint))
  rw [← giftLayout, ← tailLayout_eq] at htail
  obtain ⟨b', hrun, hb'⟩ := htail b (h.fits hgrams)
  obtain rfl : b' = ⟨_, h.fits hgrams⟩ := BuilderData.eq_of_toFragment_eq hb'
  rw [c1, PyBuilder.build, hgrams]
  simp only [Mut.ofExcept_ok_bind]
  rw [Mut.result_eq ((h.exec _).trans hrun), ok_bind, PyBuilder.finalize_eq]

omit [LawfulNumBigint] [LawfulTonTypes] in
/-- Nothing behind an amount that is refused is looked at. -/
theorem c1_error {destWc destAddr : ℤ} {b : PyBuilder} (h : Opened destWc destAddr b)
    {amount : Currency} {e : PyErr} (hgrams : amount.serialize = .error e) :
    c1 destWc destAddr amount = .error e := by
  rw [c1, PyBuilder.build, hgrams, Mut.result, h.exec, Mut.ofExcept_error_bind]
  rfl

theorem createIntMsg_giftBody {destWc destAddr : ℤ} {b grams : PyBuilder}
    (h : Opened destWc destAddr b) {amount : Currency} (hgrams : amount.serialize = .ok grams) :
    createIntMsg giftBody true destWc destAddr amount = .ok (.ordinary ⟨_, h.fits hgrams⟩) := by
  have hzeros : PyBuilder.BuilderWrites (PyBuilder.i (9 + 64 + 32 + 1) 0)
      (TlB.uint (9 + 64 + 32 + 1) 0) :=
    PyBuilder.i_writes_uint (by decide) le_rfl (by positivity)
  have hroom := h.fits hgrams
  rw [tailLayout, ← mul_assoc grams.toFragment, ← mul_assoc b.toFragment] at hroom
  obtain ⟨header, hheader, hfront⟩ := (PyBuilder.b_writes grams).seq hzeros b hroom.left
  obtain ⟨bodySlice, hslice, hbody⟩ := PyBuilder.create_ordinary_eq
    (⟨giftLayout, giftLayout_fits⟩ : PyBuilder)
  obtain ⟨b', hrun, hb'⟩ := appendMsgBody_inline hslice (by rw [hbody, hfront]; exact hroom)
  have hlayout : b'.toFragment = b.toFragment * tailLayout grams.toFragment := by
    rw [hb', hbody, hfront, tailLayout]
    simp only [mul_assoc]
  obtain rfl : b' = ⟨_, h.fits hgrams⟩ := BuilderData.eq_of_toFragment_eq hlayout
  rw [createIntMsg, PyBuilder.build, appendMsgHeader, hgrams]
  simp only [Mut.ofExcept_ok_bind]
  rw [Mut.result_eq ((h.exec _).trans hheader), ok_bind, giftBody, Mut.result_eq hrun, ok_bind,
    PyBuilder.finalize_eq]

/-- On an account that has room for its number the fields are those of the header. -/
theorem Opened.header_eq {destWc : ℤ} {destAddr m : ℕ} {b grams : PyBuilder}
    (h : Opened destWc destAddr b) (hwc : -128 ≤ destWc ∧ destWc ≤ 127)
    (haddr : destAddr < 2 ^ 256) (hm : m < 2 ^ 120)
    (hgrams : (Currency.amount m).serialize = .ok grams) :
    b.toFragment * tailLayout grams.toFragment =
      headerLayout true destWc destAddr m * (.ofBits [false] * giftLayout) := by
  have hzeros : PyBuilder.BuilderWrites (PyBuilder.i (9 + 64 + 32 + 1) 0)
      (TlB.uint (9 + 64 + 32 + 1) 0) :=
    PyBuilder.i_writes_uint (by decide) le_rfl (by positivity)
  have hroom := h.fits hgrams
  rw [tailLayout, ← mul_assoc grams.toFragment, ← mul_assoc b.toFragment] at hroom ⊢
  obtain ⟨header, hheader, hfront⟩ := (PyBuilder.b_writes grams).seq hzeros b hroom.left
  obtain ⟨header', hheader', hlayout⟩ :=
    appendMsgHeader_writes true hwc.1 hwc.2 haddr hm .new (by
      rw [BuilderData.new_toFragment, one_mul]
      exact (within_headerLayout true destWc destAddr hm).fits (by decide) (by decide))
  -- both are what the first call of the other script leaves
  have hrun : (appendMsgHeader true destWc destAddr (Currency.amount m)).exec .new =
      (.ok (), header) := by
    rw [appendMsgHeader, hgrams]
    exact (h.exec _).trans hheader
  obtain rfl : header = header' := congrArg Prod.snd (hrun.symm.trans hheader')
  rw [← hfront, hlayout, BuilderData.new_toFragment, one_mul]

/-- The message that is written by hand is the one that the other script makes of the gift,
whatever the account and the amount; where one of them raises, so does the other. -/
theorem c1_eq_createIntMsg (destWc destAddr : ℤ) (amount : Currency) :
    c1 destWc destAddr amount = createIntMsg giftBody true destWc destAddr amount := by
  obtain ⟨b, hb⟩ := exists_opened destWc destAddr
  cases hgrams : amount.serialize with
  | error e =>
    rw [c1_error hb hgrams, createIntMsg, PyBuilder.build, appendMsgHeader, hgrams, Mut.result,
      hb.exec, Mut.ofExcept_error_bind]
    rfl
  | ok grams => rw [c1_eq hb hgrams, createIntMsg_giftBody hb hgrams]

/-! ### The message to the giver -/

/-- Any number and the transfer go into the message. -/
theorem message_eq (seqno : ℤ) (c : Cell) :
    ∃ (w : List Bool) (b : BuilderData), w.length = 32 ∧
      (Representable 32 seqno → w = twos 32 seqno) ∧
      b.toFragment = .ofBits w * (TlB.uint 8 1 * .ofRef c) ∧
      message seqno c = .ok (.ordinary b) := by
  have hmode : PyBuilder.BuilderWrites (PyBuilder.i 8 1) (TlB.uint 8 1) :=
    PyBuilder.i_writes_uint (by decide) (by decide) (by decide)
  obtain ⟨w, hw, htwos, hseqno⟩ := PyBuilder.i_writes_word (show 1 ≤ 32 by decide) seqno
  have hfits : (.ofBits w * (TlB.uint 8 1 * .ofRef c) : Fragment).Fits :=
    ((Fragment.within_ofBits w).mul ((TlB.within_uint 8 1).mul (Fragment.within_ofRef c))).fits
      (by rw [hw]; decide) (by decide)
  have hbuild := PyBuilder.build_eq (hseqno.seq (hmode.seq (PyBuilder.r_writes c))) hfits
  refine ⟨w, ⟨_, hfits⟩, hw, htwos, rfl, ?_⟩
  rw [message, hbuild, ok_bind, PyBuilder.finalize_eq]

/-- A message of moderate size goes behind the header. -/
theorem extMessage_eq {giverWc : ℤ} {giverAddr : ℕ} (hwc : -128 ≤ giverWc ∧ giverWc ≤ 127)
    (haddr : giverAddr < 2 ^ 256) {b : BuilderData} (hb : b.toFragment.Within 40 1) :
    ∃ ext : BuilderData, ext.toFragment = extHeaderLayout giverWc giverAddr * b.toFragment ∧
      extMessage giverWc giverAddr (.ordinary b) = .ok (.ordinary ext) := by
  obtain ⟨grams, hgrams, hfee⟩ := Currency.serialize_eq
    (Currency.byteLength_lt (m := 0) (by positivity))
  obtain ⟨slice, hcreate, hslice⟩ := PyBuilder.create_ordinary_eq b
  have hmessage := (PyBuilder.s_writesExactly slice).writes
  rw [hslice] at hmessage
  have hwrites := extHeader_writes hwc haddr hfee hmessage
  have hfits := ((within_extHeaderLayout giverWc giverAddr).mul hb).fits (by decide) (by decide)
  have hzero : Currency.create 0 = .ok (Currency.amount 0) :=
    Currency.create_eq (m := 0) (by positivity)
  refine ⟨⟨_, hfits⟩, rfl, ?_⟩
  rw [extMessage, hzero, ok_bind, hgrams, ok_bind, hcreate, ok_bind,
    PyBuilder.build_eq hwrites hfits, ok_bind]
  exact PyBuilder.finalize_eq _

end

/-! ### The giver -/

def giverAccount : ℕ := 0xfcb91a3a3816d0f7b8c2c76108b8a9bc5a6b7a55bd79f8ab101c52db29232260

def giverAccountText : String :=
  "fcb91a3a3816d0f7b8c2c76108b8a9bc5a6b7a55bd79f8ab101c52db29232260"

theorem giverAddress_eq : giverAddress = addressText (-1) giverAccountText := by decide

theorem giverAccountText_spells : SpellsAccount giverAccountText giverAccount := by
  unfold SpellsAccount
  decide +kernel

theorem giverAccount_lt : giverAccount < 2 ^ 256 := by decide

theorem parseSmcAddr_giverAddress [Python.Unicode] [Python.LawfulUnicode] :
    parseSmcAddr giverAddress = .ok (-1, (giverAccount : ℤ)) := by
  rw [giverAddress_eq]
  exact parseSmcAddr_eq (by decide) (by decide) giverAccount_lt giverAccountText_spells

/-! ### What the giver reads -/

/-- The fields of the message that have more than one value. -/
@[ext] structure Request where
  header : ExtHeader
  seqno : ℕ
  sendMode : ℕ
  transfer : IntMsg

/-- The transfer is in a cell of its own. -/
def Request.read [NumBigint] [TonTypes] : Mut PyErr PySlice Request := do
  let header ← ExtHeader.read
  let seqno ← PySlice.u 32
  let sendMode ← PySlice.u 8
  let c ← PySlice.r
  let slice ← Mut.ofExcept (PySlice.create c)
  let transfer ← Mut.ofExcept (IntMsg.read.exec slice).1
  pure { header, seqno, sendMode, transfer }

/-- The fields of the messages have room for the order. -/
structure Order.Sendable (order : Order) : Prop where
  destWc : -128 ≤ order.destWc ∧ order.destWc ≤ 127
  destAddr : 0 ≤ order.destAddr ∧ order.destAddr < 2 ^ 256
  seqno : Representable 32 order.seqno
  amount : 0 ≤ order.amount.value ∧ order.amount.value < 2 ^ 120

/-- What the giver is to read: it is asked to send the amount with a comment, and to let it
bounce. -/
def Order.request (order : Order) : Request where
  header := ⟨-1, giverAccount, Currency.amount 0⟩
  seqno := (order.seqno % 2 ^ 32).toNat
  sendMode := 1
  transfer := ⟨true, order.destWc, order.destAddr, order.amount, giftLayout⟩

section

variable [NumBigint] [TonTypes] [LawfulNumBigint] [LawfulTonTypes]

theorem Order.Sendable.c1_eq {order : Order} (h : order.Sendable) :
    ∃ (m : ℕ) (b : BuilderData), order.amount = Currency.amount m ∧ m < 2 ^ 120 ∧
      b.toFragment = headerLayout true order.destWc order.destAddr.toNat m *
        (.ofBits [false] * giftLayout) ∧
      c1 order.destWc order.destAddr order.amount = .ok (.ordinary b) := by
  obtain ⟨m, hm⟩ := Int.eq_ofNat_of_zero_le h.amount.1
  have hamount : order.amount = Currency.amount m := Currency.ext hm
  have hm' : m < 2 ^ 120 := Currency.amount_value_lt.mp (hamount ▸ h.amount.2)
  have haddr : ((order.destAddr.toNat : ℕ) : ℤ) = order.destAddr :=
    Int.toNat_of_nonneg h.destAddr.1
  have haddr' : order.destAddr.toNat < 2 ^ 256 := by
    have hlt := h.destAddr.2
    omega
  obtain ⟨grams, hgrams, -⟩ := Currency.serialize_eq (Currency.byteLength_lt hm')
  obtain ⟨b, hb⟩ := exists_opened order.destWc order.destAddr
  have hlayout := (haddr.symm ▸ hb).header_eq h.destWc haddr' hm' hgrams
  refine ⟨m, ⟨_, hb.fits hgrams⟩, hamount, hm', hlayout, ?_⟩
  rw [hamount]
  exact TestGiver.c1_eq hb hgrams

theorem Request.read_eq {order : Order} (h : order.Sendable) {c : Cell}
    (hc : c1 order.destWc order.destAddr order.amount = .ok c) {b : BuilderData}
    (hb : b.toFragment = .ofBits (twos 32 order.seqno) * (TlB.uint 8 1 * .ofRef c))
    {s : PySlice} (hs : s.content = extHeaderLayout (-1) giverAccount * b.toFragment) :
    ∃ s', Request.read.exec s = (.ok order.request, s') ∧ s'.content = 1 := by
  obtain ⟨m, body, hamount, hm, hbody, hc1⟩ := h.c1_eq
  obtain rfl : c = .ordinary body := Except.ok.inj (hc.symm.trans hc1)
  obtain ⟨slice, hcreate, hslice⟩ := PyBuilder.create_ordinary_eq body
  have haddr : ((order.destAddr.toNat : ℕ) : ℤ) = order.destAddr :=
    Int.toNat_of_nonneg h.destAddr.1
  have haddr' : order.destAddr.toNat < 2 ^ 256 := by
    have hlt := h.destAddr.2
    omega
  have hinline : BodyLayout giftBody (.ofBits [false] * giftLayout) := Or.inl rfl
  obtain ⟨slice', htransfer⟩ := IntMsg.read_eq true h.destWc.1 h.destWc.2 haddr' hm hinline
    (hslice.trans hbody)
  rw [haddr, ← hamount] at htransfer
  have hgift : (⟨giftBody.data, giftBody.refs⟩ : Fragment) = giftLayout := rfl
  have hlt : (order.seqno % 2 ^ 32).toNat < 2 ^ 32 := by
    omega
  obtain ⟨s₁, h₁, hs₁⟩ := ExtHeader.read_reads (by decide) giverAccount_lt s _ hs
  obtain ⟨s₂, h₂, hs₂⟩ := PySlice.u_reads_uint hlt s₁ _ (hs₁.trans hb)
  obtain ⟨s₃, h₃, hs₃⟩ := PySlice.u_reads_uint (show 1 < 2 ^ 8 by decide) s₂ _ hs₂
  obtain ⟨s₄, h₄, hs₄⟩ := PySlice.r_reads (.ordinary body) s₃ 1 (by rw [hs₃, mul_one])
  refine ⟨s₄, ?_, hs₄⟩
  rw [Request.read, Mut.exec_bind_ok h₁, Mut.exec_bind_ok h₂, Mut.exec_bind_ok h₃,
    Mut.exec_bind_ok h₄, hcreate, Mut.ofExcept_ok_bind, htransfer, Mut.ofExcept_ok_bind,
    Mut.exec_pure, Order.request, hgift]

/-! ### The run -/

variable [Python.Unicode] [Python.LawfulUnicode]

omit [NumBigint] [TonTypes] [LawfulNumBigint] [LawfulTonTypes] [Python.LawfulUnicode] in
/-- The amount is one that `Currency` can hold. -/
theorem parseArgs_amount {files : String → Except PyErr (List UInt8)} {args : Args} {order : Order}
    (hparse : parseArgs files args = .ok order) : ∃ m : ℕ, order.amount = Currency.amount m := by
  obtain ⟨dest, -, h⟩ := exists_of_bind_eq_ok hparse
  obtain ⟨seqno, -, h⟩ := exists_of_bind_eq_ok h
  obtain ⟨amount, hamount, h⟩ := exists_of_bind_eq_ok h
  cases h
  obtain ⟨fraction, -, hcreate⟩ := exists_of_bind_eq_ok hamount
  obtain ⟨m, -, -, hm⟩ := Currency.create_eq_ok_iff.mp hcreate
  exact ⟨m, hm⟩

omit [LawfulNumBigint] [LawfulTonTypes] in
theorem run_eq (files : String → Except PyErr (List UInt8)) (args : Args) :
    run files args = (do
      let order ← parseArgs files args
      let c1 ← c1 order.destWc order.destAddr order.amount
      let message ← message order.seqno c1
      extMessage (-1) giverAccount message) := by
  rw [run, parseSmcAddr_giverAddress]
  rfl

/-- Once there is a transfer, there is a message that carries it. -/
theorem run_of_c1 {files : String → Except PyErr (List UInt8)} {args : Args} {order : Order}
    (hparse : parseArgs files args = .ok order) {c : Cell}
    (hc : c1 order.destWc order.destAddr order.amount = .ok c) :
    ∃ (w : List Bool) (b ext : BuilderData),
      (Representable 32 order.seqno → w = twos 32 order.seqno) ∧
      b.toFragment = .ofBits w * (TlB.uint 8 1 * .ofRef c) ∧
      ext.toFragment = extHeaderLayout (-1) giverAccount * b.toFragment ∧
      run files args = .ok (.ordinary ext) := by
  obtain ⟨w, b, hw, htwos, hb, hmessage⟩ := message_eq order.seqno c
  have hwithin : b.toFragment.Within 40 1 := by
    rw [hb]
    exact (show (Fragment.ofBits w).Within 32 0 from ⟨hw.le, le_rfl⟩).mul
      ((TlB.within_uint 8 1).mul (Fragment.within_ofRef c))
  have hwc : -128 ≤ (-1 : ℤ) ∧ (-1 : ℤ) ≤ 127 := by decide
  obtain ⟨ext, hext, hextMessage⟩ := extMessage_eq hwc giverAccount_lt hwithin
  refine ⟨w, b, ext, htwos, hb, hext, ?_⟩
  rw [run_eq, hparse, ok_bind, hc, ok_bind, hmessage, ok_bind, hextMessage]

/-- Only the amount can be refused: a workchain, an account or a number that has no room in
its field does not keep the script from making a message. -/
theorem run_eq_ok_iff (files : String → Except PyErr (List UInt8)) (args : Args) :
    (∃ ext, run files args = .ok ext) ↔
      ∃ order, parseArgs files args = .ok order ∧ order.amount.value < 2 ^ 120 := by
  cases hparse : parseArgs files args with
  | error e =>
    refine iff_of_false ?_ (fun ⟨order, horder, _⟩ => by cases horder)
    rintro ⟨ext, hrun⟩
    rw [run_eq, hparse] at hrun
    cases hrun
  | ok order =>
    obtain ⟨m, hm⟩ := parseArgs_amount hparse
    obtain ⟨b, hb⟩ := exists_opened order.destWc order.destAddr
    rcases Nat.lt_or_ge m (2 ^ 120) with hlt | hge
    · obtain ⟨grams, hgrams, -⟩ := Currency.serialize_eq (Currency.byteLength_lt hlt)
      have hc := c1_eq hb (hm ▸ hgrams)
      obtain ⟨w, message, ext, -, -, -, hrun⟩ := run_of_c1 hparse hc
      refine iff_of_true ⟨_, hrun⟩ ⟨order, rfl, ?_⟩
      rw [hm]
      exact Currency.amount_value_lt.mpr hlt
    · have hc := c1_error hb (hm ▸ Currency.serialize_assertion hge)
      refine iff_of_false ?_ ?_
      · rintro ⟨ext, hrun⟩
        rw [run_eq, hparse, ok_bind, hc] at hrun
        cases hrun
      · rintro ⟨order', horder, hlt⟩
        cases horder
        rw [hm] at hlt
        exact absurd (Currency.amount_value_lt.mp hlt) (not_lt.mpr hge)

/-- On numbers that have room in their fields the message is read, to its end, as what the
arguments say. -/
theorem run_asks {files : String → Except PyErr (List UInt8)} {args : Args} {order : Order}
    (hparse : parseArgs files args = .ok order) (h : order.Sendable) :
    ∃ ext s s', run files args = .ok ext ∧ PySlice.create ext = .ok s ∧
      Request.read.exec s = (.ok order.request, s') ∧ s'.content = 1 := by
  obtain ⟨m, body, -, -, -, hc⟩ := h.c1_eq
  obtain ⟨w, b, ext, htwos, hb, hext, hrun⟩ := run_of_c1 hparse hc
  rw [htwos h.seqno] at hb
  obtain ⟨s, hcreate, hs⟩ := PyBuilder.create_ordinary_eq ext
  obtain ⟨s', hread, hs'⟩ := Request.read_eq h hc hb (hs.trans hext)
  exact ⟨_, s, s', hrun, hcreate, hread, hs'⟩

/-! ### Destinations from a file -/

omit [Python.Unicode] [Python.LawfulUnicode] in
/-- The workchain shows in the transfer by its field only. -/
theorem c1_congr {wc wc' : ℤ} {w : List Bool} (hw : w.length = 8)
    (h : PyBuilder.BuilderWrites (PyBuilder.i 8 wc) (.ofBits w))
    (h' : PyBuilder.BuilderWrites (PyBuilder.i 8 wc') (.ofBits w)) (destAddr : ℤ)
    (amount : Currency) : c1 wc destAddr amount = c1 wc' destAddr amount := by
  obtain ⟨bounce, hbounce, -, hflag⟩ := PyBuilder.i_writes_word (show 1 ≤ 1 by decide) true.toInt
  have htag : PyBuilder.BuilderWrites (PyBuilder.ib "01") (.ofBits [false, true]) :=
    (PyBuilder.ib_writesExactly (List.all_eq_true.mp rfl)).writes
  have hflags : PyBuilder.BuilderWrites (PyBuilder.ib "000100")
      (.ofBits [false, false, false, true, false, false]) :=
    (PyBuilder.ib_writesExactly (List.all_eq_true.mp rfl)).writes
  obtain ⟨b, hrun, hb⟩ := htag.seq (hflag.seq hflags) .new (by
    constructor
    · simp [hbounce, maxBits]
    · simp [maxRefs])
  have hfits : (b.toFragment * .ofBits w).Fits := by
    rw [hb]
    constructor
    · simp [hbounce, hw, maxBits]
    · simp [maxRefs]
  -- what stands in front of the workchain is the same in both
  have hfront : ∀ x : Mut PyErr PyBuilder Unit, (do
      PyBuilder.ib "01"
      PyBuilder.i 1 true.toInt
      PyBuilder.ib "000100"
      x : Mut PyErr PyBuilder Unit).exec .new = x.exec b := by
    intro x
    rw [← Mut.exec_bind_ok (k := fun _ => x) hrun]
    simp only [bind_assoc]
  simp only [c1, PyBuilder.build, Mut.result, hfront, h.exec_bind_congr h' hfits]

omit [NumBigint] [TonTypes] [LawfulNumBigint] [LawfulTonTypes] [Python.LawfulUnicode] in
/-- The destination of an order is the one that the first argument is read as. -/
theorem parseArgs_dest {files : String → Except PyErr (List UInt8)} {args : Args} {order : Order}
    (hparse : parseArgs files args = .ok order) :
    parseLoadAddress files args.destAddress = .ok (order.destWc, order.destAddr) := by
  obtain ⟨⟨destWc, destAddr⟩, hdest, h⟩ := exists_of_bind_eq_ok hparse
  obtain ⟨seqno, -, h⟩ := exists_of_bind_eq_ok h
  obtain ⟨amount, -, h⟩ := exists_of_bind_eq_ok h
  cases h
  exact hdest

/-- A destination from a file is asked for on its own workchain when that is the masterchain
or not negative, and on the masterchain otherwise. -/
theorem run_asks_loaded {files : String → Except PyErr (List UInt8)} {args : Args} {order : Order}
    {file : String} {bytes : List UInt8} {wc : ℤ} {addr : ℕ}
    (hdest : args.destAddress = "@" ++ file) (hfile : files file = .ok bytes)
    (hbytes : IsAddressFile wc addr bytes) (hwc : -128 ≤ wc ∧ wc ≤ 127) (haddr : addr < 2 ^ 256)
    (hparse : parseArgs files args = .ok order) (hseqno : Representable 32 order.seqno)
    (hamount : order.amount.value < 2 ^ 120) :
    ∃ ext s r s', run files args = .ok ext ∧ PySlice.create ext = .ok s ∧
      Request.read.exec s = (.ok r, s') ∧ s'.content = 1 ∧
      r = { order with destWc := sentWc wc, destAddr := addr }.request ∧
      (r.transfer.wc = wc ↔ -1 ≤ wc) := by
  have hload := parseArgs_dest hparse
  rw [hdest, parseLoadAddress_at, loadAddress_eq haddr hbytes hfile] at hload
  obtain ⟨hdestWc, hdestAddr⟩ := Prod.mk.inj (Except.ok.inj hload)
  have haddr' : (addr : ℤ) < 2 ^ 256 := by
    exact_mod_cast haddr
  obtain ⟨m, hm⟩ := parseArgs_amount hparse
  have hsent : Order.Sendable { order with destWc := sentWc wc, destAddr := addr } :=
    { destWc := sentWc_range hwc
      destAddr := ⟨Int.natCast_nonneg addr, haddr'⟩
      seqno := hseqno
      amount := ⟨by rw [hm]; exact Int.natCast_nonneg m, hamount⟩ }
  -- the order and the one that was meant have the same transfer
  obtain ⟨-, body, -, -, -, hc⟩ := hsent.c1_eq
  have hc' : c1 order.destWc order.destAddr order.amount = .ok (.ordinary body) := by
    rw [← hdestWc, ← hdestAddr, c1_congr (length_twos 8 (sentWc wc))
      (PyBuilder.i_writes_loaded hwc) (PyBuilder.i_writes (by decide) (representable_sentWc hwc))]
    exact hc
  obtain ⟨w, b, ext, htwos, hb, hext, hrun⟩ := run_of_c1 hparse hc'
  rw [htwos hseqno] at hb
  obtain ⟨s, hcreate, hs⟩ := PyBuilder.create_ordinary_eq ext
  obtain ⟨s', hread, hs'⟩ := Request.read_eq hsent hc hb (hs.trans hext)
  exact ⟨_, s, _, s', hrun, hcreate, hread, hs', rfl, sentWc_eq_iff wc⟩

end

section Reference

open scoped Reference Python.Ascii

def exampleArgs : Args := ⟨"0:5", "7", "1"⟩

def exampleOrder : Order := ⟨0, 5, 7, Currency.amount Currency.factor⟩

theorem parseArgs_exampleArgs (files : String → Except PyErr (List UInt8)) :
    parseArgs files exampleArgs = .ok exampleOrder := by
  have hdest : parseLoadAddress files "0:5" = .ok (0, 5) := rfl
  have hseqno : Python.int 10 "7".toList = some 7 := rfl
  have hamount : Currency.fromStr "1" = .ok (Currency.amount Currency.factor) :=
    Currency.fromStr_one
  rw [parseArgs, exampleArgs, hdest, ok_bind, hseqno, hamount]
  rfl

theorem exampleOrder_sendable : exampleOrder.Sendable := by
  constructor <;> decide

/-- A workchain that has no room in its field goes in the same way by both writers. -/
theorem c1_eq_createIntMsg_wide :
    c1 300 5 (Currency.amount 1) = createIntMsg giftBody true 300 5 (Currency.amount 1) :=
  c1_eq_createIntMsg 300 5 (Currency.amount 1)

theorem run_eq_ok_iff_exampleArgs :
    (∃ ext, run (fun file => .error (.fileNotFoundError file)) exampleArgs = .ok ext) ↔
      ∃ order, parseArgs (fun file => .error (.fileNotFoundError file)) exampleArgs = .ok order ∧
        order.amount.value < 2 ^ 120 :=
  run_eq_ok_iff _ exampleArgs

theorem run_asks_exampleArgs :
    ∃ ext s s', run (fun file => .error (.fileNotFoundError file)) exampleArgs = .ok ext ∧
      PySlice.create ext = .ok s ∧ Request.read.exec s = (.ok exampleOrder.request, s') ∧
      s'.content = 1 :=
  run_asks (parseArgs_exampleArgs _) exampleOrder_sendable

/-- The destination is in a file. -/
def loadedArgs : Args := ⟨"@" ++ "wallet.addr", "7", "1"⟩

def loadedOrder (wc : ℤ) : Order := ⟨wc % 2 ^ 32, (0 : ℕ), 7, Currency.amount Currency.factor⟩

theorem parseArgs_loadedArgs (wc : ℤ) :
    parseArgs (walletFile wc) loadedArgs = .ok (loadedOrder wc) := by
  have hdest : parseLoadAddress (walletFile wc) ("@" ++ "wallet.addr") =
      .ok (wc % 2 ^ 32, ((0 : ℕ) : ℤ)) :=
    parseLoadAddress_file (by positivity) (walletFile_eq wc)
  have hseqno : Python.int 10 "7".toList = some 7 := rfl
  have hamount : Currency.fromStr "1" = .ok (Currency.amount Currency.factor) :=
    Currency.fromStr_one
  rw [parseArgs, loadedArgs, hdest, ok_bind, hseqno, hamount]
  rfl

/-- A destination below the masterchain is asked for on the masterchain. -/
theorem run_asks_loaded_two :
    ∃ ext s r s', run (walletFile (-2)) loadedArgs = .ok ext ∧ PySlice.create ext = .ok s ∧
      Request.read.exec s = (.ok r, s') ∧ s'.content = 1 ∧
      r = { loadedOrder (-2) with destWc := sentWc (-2), destAddr := (0 : ℕ) }.request ∧
      (r.transfer.wc = -2 ↔ (-1 : ℤ) ≤ -2) :=
  run_asks_loaded rfl (walletFile_eq (-2)) (Or.inl rfl) (by decide) (by decide)
    (parseArgs_loadedArgs (-2)) (by decide) (by decide)

end Reference

end TestGiver

end EverPlayground
