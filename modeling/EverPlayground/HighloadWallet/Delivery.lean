import EverPlayground.ExternalMessage
import EverPlayground.HighloadWallet.Run

/-!
# What the wallet receives

The external message that the highload script prints is read again the way the wallet reads
it: the account it is for, a signature, and behind it the signed part, with the id of the
wallet, a query id and the dictionary of orders.

## Main definitions

* `requestLayout` — the signed part
* `Request.read` — the reader of the message
* `Request.Delivers` — the message carries the orders, and is signed as a whole

## Main results

* `run_delivers` — the message of a run carries its orders
* `signingMessage_eq_iff` — two requests have the same signed part only if they agree
-/

set_option autoImplicit false

namespace EverPlayground

open Math.Positional Math.TwosComplement Semantics Semantics.Cursor
open HighloadWallet.IntMsg (expect expect_reads)

namespace HighloadWallet

/-- The fields of the message have room for the options and for the address. -/
structure Args.Deliverable (args : Args) : Prop where
  subwalletId_ge : -(2 ^ 31) ≤ args.subwalletId
  expiry_ge : 0 ≤ now + args.timeout
  expiry_lt : now + args.timeout < 2 ^ 32
  wc : -128 ≤ args.walletWc ∧ args.walletWc ≤ 127
  addr : 0 ≤ args.walletAddr ∧ args.walletAddr < 2 ^ 256

/-- When the request expires. -/
def Args.expiry (args : Args) : ℕ := (now + args.timeout).toNat

theorem Args.Deliverable.toNat_expiry_lt {args : Args} (h : args.Deliverable) :
    args.expiry < 2 ^ 32 := by
  have hge := h.expiry_ge
  have hlt := h.expiry_lt
  rw [Args.expiry]
  omega

theorem fragment_fits (orders : PyDictionary) : orders.fragment.Fits :=
  orders.within_fragment.fits (by decide) (by decide)

/-- The cell of a dictionary alone. -/
def ordersCell (orders : PyDictionary) : Cell := .ordinary ⟨orders.fragment, fragment_fits orders⟩

section

variable [TonCells]

/-- The expiry, and the end of the hash of the orders. -/
def queryNumber (args : Args) (orders : PyDictionary) : ℕ :=
  args.expiry * 2 ^ 32 + (TonCells.reprHash (ordersCell orders)).toNat % 2 ^ 32

/-- The signed part of the message. -/
def requestLayout (args : Args) (orders : PyDictionary) : Fragment :=
  .ofBits (twos 32 args.subwalletId) *
    (TlB.uint 64 (queryNumber args orders) * orders.fragment)

theorem within_requestLayout (args : Args) (orders : PyDictionary) :
    (requestLayout args orders).Within 97 1 := by
  have hid : (Fragment.ofBits (twos 32 args.subwalletId)).Within 32 0 :=
    ⟨(length_twos 32 _).le, le_rfl⟩
  have hsum := hid.mul ((TlB.within_uint 64 (queryNumber args orders)).mul orders.within_fragment)
  exact ⟨hsum.1.trans (by decide), hsum.2⟩

theorem Args.Deliverable.queryNumber_lt {args : Args} (h : args.Deliverable)
    (orders : PyDictionary) : queryNumber args orders < 2 ^ 64 := by
  have hexpiry := h.toNat_expiry_lt
  have htag := Nat.mod_lt (TonCells.reprHash (ordersCell orders)).toNat (y := 2 ^ 32) (by decide)
  rw [queryNumber]
  omega

/-- The expiry and the tag can be told apart. -/
theorem queryNumber_div_mod (args : Args) (orders : PyDictionary) :
    queryNumber args orders / 2 ^ 32 = args.expiry ∧
      queryNumber args orders % 2 ^ 32 =
        (TonCells.reprHash (ordersCell orders)).toNat % 2 ^ 32 := by
  have htag := Nat.mod_lt (TonCells.reprHash (ordersCell orders)).toNat (y := 2 ^ 32) (by decide)
  rw [queryNumber]
  omega

/-- The script shifts and masks. -/
theorem Args.Deliverable.queryId_eq {args : Args} (h : args.Deliverable) (orders : PyDictionary) :
    queryId args (ordersCell orders) = queryNumber args orders := by
  have hge := h.expiry_ge
  have hexpiry : ((args.expiry : ℕ) : ℤ) = now + args.timeout := by
    rw [Args.expiry, Int.toNat_of_nonneg hge]
  have hmask : (TonCells.reprHash (ordersCell orders)).toNat &&& 0xffffffff =
      (TonCells.reprHash (ordersCell orders)).toNat % 2 ^ 32 := Nat.and_two_pow_sub_one_eq_mod _ 32
  rw [queryId, queryNumber, hmask, ← hexpiry, Int.shiftLeft_eq]
  push_cast
  rfl

end

/-! ### Writing -/

section

variable [NumBigint] [TonTypes] [LawfulNumBigint] [LawfulTonTypes] [TonCells]

theorem signingMessage_eq {args : Args} (h : args.Deliverable) (orders : PyDictionary) :
    ∃ b : BuilderData, b.toFragment = requestLayout args orders ∧
      signingMessage args orders = .ok (.ordinary b) := by
  obtain ⟨b, hserialize, hb⟩ := PyDictionary.serialize_eq orders
  obtain rfl : b = ⟨orders.fragment, fragment_fits orders⟩ := BuilderData.eq_of_toFragment_eq hb
  obtain ⟨ordersSlice, hcreate, hslice⟩ := PyBuilder.create_ordinary_eq
    (⟨orders.fragment, fragment_fits orders⟩ : PyBuilder)
  have hid : Representable 32 args.subwalletId := by
    have hlt := (bitLength_le_iff args.subwalletId 32).mp args.subwalletId_fits
    exact ⟨h.subwalletId_ge, by omega⟩
  have hquery : PyBuilder.BuilderWrites (PyBuilder.i 64 (queryNumber args orders))
      (TlB.uint 64 (queryNumber args orders)) :=
    PyBuilder.i_writes_uint (by decide) (Int.natCast_nonneg _)
      (by exact_mod_cast h.queryNumber_lt orders)
  have horders := (PyBuilder.s_writesExactly ordersSlice).writes
  rw [hslice] at horders
  have hfits : (requestLayout args orders).Fits :=
    (within_requestLayout args orders).fits (by decide) (by decide)
  have hbuild := PyBuilder.build_eq
    ((PyBuilder.i_writes (by decide) hid).seq (hquery.seq horders)) hfits
  refine ⟨⟨_, hfits⟩, rfl, ?_⟩
  have hquery' := h.queryId_eq orders
  rw [ordersCell] at hquery'
  rw [signingMessage, hserialize, ok_bind, PyBuilder.finalize_eq, ok_bind, hcreate, ok_bind,
    hquery', hbuild, ok_bind]
  exact PyBuilder.finalize_eq _

omit [TonCells] in
/-- A signature of 64 bytes goes between the header and the signed part. -/
theorem createExtMsg_eq {args : Args} (h : args.Deliverable) {signature : List UInt8}
    (hsignature : signature.length = 64) {b : BuilderData} (hb : b.toFragment.Within 97 1) :
    ∃ ext : BuilderData,
      ext.toFragment = extHeaderLayout args.walletWc args.walletAddr.toNat *
        (.ofBits (bytesToBits signature) * b.toFragment) ∧
      createExtMsg args signature (.ordinary b) = .ok (.ordinary ext) := by
  obtain ⟨grams, hgrams, hfee⟩ := Currency.serialize_eq
    (Currency.byteLength_lt (m := 0) (by positivity))
  obtain ⟨messageSlice, hcreate, hslice⟩ := PyBuilder.create_ordinary_eq b
  have haddr : ((args.walletAddr.toNat : ℕ) : ℤ) = args.walletAddr :=
    Int.toNat_of_nonneg h.addr.1
  have haddr_lt : args.walletAddr.toNat < 2 ^ 256 := by
    have hlt := h.addr.2
    omega
  have hmessage := (PyBuilder.s_writesExactly messageSlice).writes
  rw [hslice] at hmessage
  have hsignature' : PyBuilder.BuilderWrites (PyBuilder.y signature)
      (.ofBits (bytesToBits signature)) := (PyBuilder.y_writesExactly signature).writes
  have hwrites := extHeader_writes h.wc haddr_lt hfee (hsignature'.seq hmessage)
  rw [haddr] at hwrites
  have hbits : (Fragment.ofBits (bytesToBits signature)).Within 512 0 := by
    refine ⟨?_, le_rfl⟩
    rw [Fragment.ofBits_bits, length_bytesToBits, hsignature]
  have hfits := ((within_extHeaderLayout args.walletWc args.walletAddr.toNat).mul
    (hbits.mul hb)).fits (by decide) (by decide)
  refine ⟨⟨_, hfits⟩, rfl, ?_⟩
  have hzero : Currency.create 0 = .ok (Currency.amount 0) :=
    Currency.create_eq (m := 0) (by positivity)
  rw [createExtMsg, hzero, ok_bind, hgrams, ok_bind, hcreate, ok_bind,
    PyBuilder.build_eq hwrites hfits, ok_bind]
  exact PyBuilder.finalize_eq _

end

/-! ### Reading -/

/-- What the wallet reads from the message. -/
@[ext] structure Request where
  header : ExtHeader
  signature : List UInt8
  signed : Cell
  subwalletId : ℕ
  queryId : ℕ
  orders : PyDictionary

/-- The request that the script sends. -/
def sentRequest [TonCells] (args : Args) (signature : List UInt8) (b : BuilderData)
    (orders : PyDictionary) : Request where
  header := ⟨args.walletWc, args.walletAddr, Currency.amount 0⟩
  signature := signature
  signed := .ordinary b
  subwalletId := value (twos 32 args.subwalletId)
  queryId := queryNumber args orders
  orders := orders

section

variable [NumBigint] [TonTypes]

/-- The next bytes. -/
def readBytes (n : ℕ) : Mut PyErr PySlice (List UInt8) := word n <$> PySlice.u (8 * n)

/-- What is left of the slice, as a cell. -/
def cellOf (s : PySlice) : Except PyErr Cell := do
  let b ← PyBuilder.build (PyBuilder.s s)
  PyBuilder.finalize b

/-- The signature is of the cell of everything behind it. -/
def Request.read : Mut PyErr PySlice Request := do
  let header ← ExtHeader.read
  let signature ← readBytes 64
  let rest ← get
  let signed ← Mut.ofExcept (cellOf rest)
  let subwalletId ← PySlice.u 32
  let queryId ← PySlice.u 64
  let orders ← PyDictionary.deserialize 16
  pure { header, signature, signed, subwalletId, queryId, orders }

variable [LawfulNumBigint] [LawfulTonTypes]

theorem readBytes_reads {n : ℕ} {bytes : List UInt8} (h : bytes.length = n) :
    Reads SliceData.content (readBytes n) (.ofBits (bytesToBits bytes)) bytes := by
  subst h
  have hreads := (PySlice.u_reads (bytesToBits bytes)).map (word bytes.length : ℕ → List UInt8)
  rwa [length_bytesToBits, value_bytesToBits, word_value] at hreads

omit [NumBigint] [LawfulNumBigint] in
theorem cellOf_eq (s : PySlice) : cellOf s = .ok (.ordinary ⟨s.content, s.content_fits⟩) := by
  rw [cellOf, PyBuilder.build_eq (PyBuilder.s_writesExactly s).writes s.content_fits, ok_bind]
  exact PyBuilder.finalize_eq _

variable [TonCells]

/-- The message is read field by field, to its end. -/
theorem Request.read_eq {args : Args} (h : args.Deliverable) {signature : List UInt8}
    (hsignature : signature.length = 64) {orders : PyDictionary} (hwidth : orders.bitLen = 16)
    {b : BuilderData} (hb : b.toFragment = requestLayout args orders) {s : PySlice}
    (hs : s.content = extHeaderLayout args.walletWc args.walletAddr.toNat *
      (.ofBits (bytesToBits signature) * b.toFragment)) :
    ∃ s', read.exec s = (.ok (sentRequest args signature b orders), s') ∧ s'.content = 1 := by
  have haddr : ((args.walletAddr.toNat : ℕ) : ℤ) = args.walletAddr :=
    Int.toNat_of_nonneg h.addr.1
  have haddr_lt : args.walletAddr.toNat < 2 ^ 256 := by
    have hlt := h.addr.2
    omega
  have hheader := ExtHeader.read_reads h.wc haddr_lt
  rw [haddr] at hheader
  obtain ⟨s₁, h₁, hs₁⟩ := hheader s _ hs
  obtain ⟨s₂, h₂, hs₂⟩ := readBytes_reads hsignature s₁ _ hs₁
  have hsigned : cellOf s₂ = .ok (.ordinary b) := by
    rw [cellOf_eq]
    exact congrArg (Except.ok ∘ Cell.ordinary) (BuilderData.eq_of_toFragment_eq hs₂)
  have hid := PySlice.u_reads (twos 32 args.subwalletId)
  rw [length_twos] at hid
  have horders := PyDictionary.deserialize_reads orders
  rw [hwidth] at horders
  obtain ⟨s₃, h₃, hs₃⟩ := hid s₂ _ (hs₂.trans hb)
  obtain ⟨s₄, h₄, hs₄⟩ := PySlice.u_reads_uint (h.queryNumber_lt orders) s₃ _ hs₃
  obtain ⟨s₅, h₅, hs₅⟩ := horders s₄ 1 (by rw [hs₄, mul_one])
  refine ⟨s₅, ?_, hs₅⟩
  rw [read, Mut.exec_bind_ok h₁, Mut.exec_bind_ok h₂, Mut.exec_bind_ok (Mut.exec_get s₂),
    hsigned, Mut.ofExcept_ok_bind, Mut.exec_bind_ok h₃, Mut.exec_bind_ok h₄,
    Mut.exec_bind_ok h₅, Mut.exec_pure, sentRequest]

end

/-! ### The run -/

section

variable [TonHashmaps] [TonCells] [Ed25519]

/-- The message is for the wallet and its id, it expires as it should, the signature is of
everything behind it, and the orders are those. -/
structure Request.Delivers (args : Args) (orders : List PySlice) (r : Request) : Prop where
  header : r.header = ⟨args.walletWc, args.walletAddr, Currency.amount 0⟩
  signature : Ed25519.sign (reprHashBytes r.signed) args.walletPk = .ok r.signature
  subwalletId : (r.subwalletId : ℤ) = args.subwalletId % 2 ^ 32
  expiry : ((r.queryId / 2 ^ 32 : ℕ) : ℤ) = now + args.timeout
  tag : r.queryId % 2 ^ 32 = (TonCells.reprHash (ordersCell r.orders)).toNat % 2 ^ 32
  get : ∀ key : PySlice, key.bits.length = 16 →
    ∃ found, PyDictionary.get r.orders key = .ok found ∧
      found.map SliceData.content = (orders[value key.bits]?).map SliceData.content

theorem sentRequest_delivers {args : Args} (h : args.Deliverable) {signature : List UInt8}
    {b : BuilderData} (hsign : Ed25519.sign (reprHashBytes (.ordinary b)) args.walletPk =
      .ok signature) {map : PyDictionary} {orders : List PySlice}
    (hget : ∀ key : PySlice, key.bits.length = 16 →
      ∃ found, PyDictionary.get map key = .ok found ∧
        found.map SliceData.content = (orders[value key.bits]?).map SliceData.content) :
    (sentRequest args signature b map).Delivers args orders := by
  obtain ⟨hexpiry, htag⟩ := queryNumber_div_mod args map
  constructor
  case header => rfl
  case signature => exact hsign
  case subwalletId =>
    rw [sentRequest, value_twos]
  case expiry =>
    rw [sentRequest, hexpiry, Args.expiry, Int.toNat_of_nonneg h.expiry_ge]
  case tag =>
    rw [sentRequest, htag]
  case get => exact hget

variable [NumBigint] [TonTypes] [Python.Unicode]
variable [LawfulNumBigint] [LawfulTonTypes] [LawfulTonHashmaps]

/-- When every line of the file makes an order, there are at most 255 of them, and the key
signs, the script returns a message. The wallet can read it to its end, finds the options
and every order under the number of its line, and the signature that the script obtained is
of the cell of everything that stands behind it. Nothing else was handed over to be signed. -/
theorem run_delivers {args : Args} (h : args.Deliverable)
    (hkey : ∀ data, ∃ signature, Ed25519.sign data args.walletPk = .ok signature ∧
      signature.length = 64) {lines : List String}
    (hlines : (ordersOf args lines).length = lines.length) (hle : lines.length ≤ 255) :
    ∃ ext w s r s', (run args lines).exec Wallet.start = (.ok ext, w) ∧
      PySlice.create ext = .ok s ∧ Request.read.exec s = (.ok r, s') ∧ s'.content = 1 ∧
      r.Delivers args (ordersOf args lines) ∧ w.signed = [reprHashBytes r.signed] := by
  obtain ⟨outcome, w, hloop, hw, hiff⟩ :=
    forM_processLine_collected args lines collected_start (Nat.zero_le 255)
  rw [List.length_nil, Nat.sub_zero, List.take_of_length_le (by omega), List.nil_append] at hw
  rw [List.length_nil, Nat.zero_add] at hiff
  have hok : outcome = .ok ⟨⟩ := by
    cases outcome with
    | error e =>
      have hstop := hiff.mp ⟨e, rfl⟩
      omega
    | ok _ => rfl
  subst hok
  -- the message, its signature, and the external message around both
  obtain ⟨b, hb, hmessage⟩ := signingMessage_eq h w.orders
  obtain ⟨signature, hsign, hsignature⟩ := hkey (reprHashBytes (.ordinary b))
  obtain ⟨ext, hext, hcreateExt⟩ := createExtMsg_eq h hsignature (b := b)
    (by rw [hb]; exact within_requestLayout args w.orders)
  obtain ⟨s, hcreate, hs⟩ := PyBuilder.create_ordinary_eq ext
  obtain ⟨s', hread, hs'⟩ := Request.read_eq h hsignature hw.bitLen hb (hs.trans hext)
  have hsigning : (ed25519Sign (reprHashBytes (.ordinary b)) args.walletPk).exec w =
      (.ok signature, w.sign (reprHashBytes (.ordinary b))) := by
    rw [ed25519Sign, hsign]
    rfl
  refine ⟨.ordinary ext, w.sign (reprHashBytes (.ordinary b)), s, _, s', ?_, hcreate, hread, hs',
    ?_, congrArg (_ :: ·) hw.signed⟩
  · rw [run, Mut.exec_bind_ok hloop, Mut.exec_bind_ok (Mut.exec_get w), hmessage,
      Mut.ofExcept_ok_bind, Mut.exec_bind_ok hsigning, hcreateExt]
    rfl
  · exact sentRequest_delivers h hsign fun key hkey' => by
      obtain ⟨found, hget, hfound⟩ := hw.get_eq hkey'
      exact ⟨found, hget, by rw [hfound, List.getElem?_map]⟩

/-! ### Telling requests apart -/

omit [Ed25519] [Python.Unicode] [TonHashmaps] [LawfulTonHashmaps] in
/-- Two signed parts are the same exactly when the ids agree as fields, the expiry is the
same, and so is the root of the orders. -/
theorem signingMessage_eq_iff {args args' : Args} (h : args.Deliverable) (h' : args'.Deliverable)
    (orders orders' : PyDictionary) :
    signingMessage args orders = signingMessage args' orders' ↔
      args.subwalletId % 2 ^ 32 = args'.subwalletId % 2 ^ 32 ∧ args.timeout = args'.timeout ∧
        orders.data = orders'.data := by
  obtain ⟨b, hb, hmessage⟩ := signingMessage_eq h orders
  obtain ⟨b', hb', hmessage'⟩ := signingMessage_eq h' orders'
  have hlayout : signingMessage args orders = signingMessage args' orders' ↔
      requestLayout args orders = requestLayout args' orders' := by
    rw [hmessage, hmessage', ← hb, ← hb']
    refine ⟨fun heq => ?_, fun heq => congrArg _ (congrArg _ (BuilderData.eq_of_toFragment_eq heq))⟩
    have hcell := Except.ok.inj heq
    have hdata := congrArg Cell.data hcell
    have hrefs := congrArg Cell.refs hcell
    rw [Cell.ordinary_data, Cell.ordinary_data] at hdata
    rw [Cell.ordinary_refs, Cell.ordinary_refs] at hrefs
    exact Fragment.ext hdata hrefs
  have hword : ∀ {q q' : ℕ}, q < 2 ^ 64 → q' < 2 ^ 64 →
      ((word 64 q : List Bool) = word 64 q' ↔ q = q') := fun hq hq' =>
    ⟨fun heq => by rw [← value_word_of_lt (α := Bool) hq, heq, value_word_of_lt hq'],
      fun heq => by rw [heq]⟩
  rw [hlayout, requestLayout, requestLayout, TlB.uint, TlB.uint,
    Fragment.ofBits_mul_inj (by simp), Fragment.ofBits_mul_inj (by simp), twos_eq_iff,
    hword (h.queryNumber_lt orders) (h'.queryNumber_lt orders'), HashmapE.fragment_inj]
  refine and_congr_right' (and_congr_left fun hdata => ?_)
  -- the tag is that of the orders, so the query ids agree when the expiry does
  have hcell : ordersCell orders = ordersCell orders' := by
    simp only [ordersCell, HashmapE.fragment_inj.mpr hdata]
  have hge := h.expiry_ge
  have hge' := h'.expiry_ge
  rw [queryNumber, queryNumber, hcell, Nat.add_right_cancel_iff, Args.expiry, Args.expiry]
  omega

/-- A signature is for one request. When two runs that go through hand over the same cell to
be signed, they are for ids that agree as fields, expire at the same time and send the same
orders in the same order. -/
theorem run_signs_one_request {args args' : Args} (h : args.Deliverable) (h' : args'.Deliverable)
    {lines lines' : List String}
    (hlines : (ordersOf args lines).length = lines.length ∧ lines.length ≤ 255)
    (hlines' : (ordersOf args' lines').length = lines'.length ∧ lines'.length ≤ 255)
    (hsame : signingMessage args ((run args lines).exec Wallet.start).2.orders =
      signingMessage args' ((run args' lines').exec Wallet.start).2.orders) :
    args.subwalletId % 2 ^ 32 = args'.subwalletId % 2 ^ 32 ∧ args.timeout = args'.timeout ∧
      (ordersOf args lines).map SliceData.content =
        (ordersOf args' lines').map SliceData.content := by
  have hthrough : ∀ {args : Args} {lines : List String},
      (ordersOf args lines).length = lines.length ∧ lines.length ≤ 255 →
        ∃ w, Collected ((ordersOf args lines).map SliceData.content) w ∧
          ((run args lines).exec Wallet.start).2.orders = w.orders := by
    intro args lines hlines
    obtain ⟨w, hw, hcases⟩ := run_cases args lines
    rw [List.take_of_length_le (by omega)] at hw
    rcases hcases with ⟨hstop, -⟩ | ⟨-, message, -, outcome, hrun⟩
    · omega
    · exact ⟨w, hw, by rw [hrun, Wallet.sign]⟩
  obtain ⟨w, hw, horders⟩ := hthrough hlines
  obtain ⟨w', hw', horders'⟩ := hthrough hlines'
  rw [horders, horders'] at hsame
  obtain ⟨hid, htimeout, hdata⟩ := (signingMessage_eq_iff h h' w.orders w'.orders).mp hsame
  refine ⟨hid, htimeout, List.ext_getElem? fun k => ?_⟩
  have hmap : w.orders = w'.orders := HashmapE.ext (hw.bitLen.trans hw'.bitLen.symm) hdata
  rcases Nat.lt_or_ge k (2 ^ 16) with hlt | hge
  · -- the same dictionary answers for the same number
    obtain ⟨key, -, hkey⟩ := keyOf_eq hlt
    have hwidth : key.bits.length = 16 := by rw [hkey, length_word]
    obtain ⟨found, hget, hfound⟩ := hw.get_eq hwidth
    obtain ⟨found', hget', hfound'⟩ := hw'.get_eq hwidth
    rw [hmap, hget'] at hget
    cases hget
    rw [hkey, value_word_of_lt hlt] at hfound hfound'
    exact hfound.symm.trans hfound'
  · rw [List.getElem?_eq_none, List.getElem?_eq_none]
    · rw [List.length_map]
      omega
    · rw [List.length_map]
      omega

end

section Reference

open scoped Reference Python.Ascii

theorem exampleArgs_deliverable : (exampleArgs true).Deliverable := by
  constructor <;> decide

/-- The reference key signs everything. -/
theorem exampleArgs_sign (data : List UInt8) :
    ∃ signature, Ed25519.sign data (exampleArgs true).walletPk = .ok signature ∧
      signature.length = 64 :=
  ⟨_, rfl, length_word 64 _⟩

theorem ordersOf_coinLine :
    (ordersOf (exampleArgs true) [coinLine.text]).length = [coinLine.text].length ∧
      [coinLine.text].length ≤ 255 :=
  ⟨(ordersOf_lines (exampleArgs true) [coinLine]).length_eq.symm, by decide⟩

theorem run_delivers_coinLine :
    ∃ ext w s r s', (run (exampleArgs true) [coinLine.text]).exec Wallet.start = (.ok ext, w) ∧
      PySlice.create ext = .ok s ∧ Request.read.exec s = (.ok r, s') ∧ s'.content = 1 ∧
      r.Delivers (exampleArgs true) (ordersOf (exampleArgs true) [coinLine.text]) ∧
      w.signed = [reprHashBytes r.signed] :=
  run_delivers exampleArgs_deliverable exampleArgs_sign ordersOf_coinLine.1 ordersOf_coinLine.2

theorem run_signs_one_request_coinLine :
    (exampleArgs true).subwalletId % 2 ^ 32 = (exampleArgs true).subwalletId % 2 ^ 32 ∧
      (exampleArgs true).timeout = (exampleArgs true).timeout ∧
      (ordersOf (exampleArgs true) [coinLine.text]).map SliceData.content =
        (ordersOf (exampleArgs true) [coinLine.text]).map SliceData.content :=
  run_signs_one_request exampleArgs_deliverable exampleArgs_deliverable ordersOf_coinLine
    ordersOf_coinLine rfl

end Reference

end HighloadWallet

end EverPlayground
