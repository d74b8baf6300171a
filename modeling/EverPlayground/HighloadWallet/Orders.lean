import EverPlayground.Address
import EverPlayground.Dictionary
import EverPlayground.HighloadWallet.Message

/-!
# The orders of the highload wallet

The script goes over a file of orders, one to a line. From each line it makes a message that
carries a transfer, and adds the order to send it to a dictionary.

## Main definitions

* `addOrder`, `send`, `processLine` — the loop of the script and what it calls
* `orderOf` — the order that a line makes
* `Flag`, `Line` — a well-formed line, with what its chunks are read as
* `Line.scriptBounce`, `Line.fiftBounce` — the bounce flag by the script and by its original
* `IsOrderOf` — what an order is read back as

## Main results

* `processLine_eq_bind` — the turn of the loop for a line adds the order of the line
* `orderOf_line` — the order of a well-formed line carries its transfer
-/

set_option autoImplicit false

namespace EverPlayground

open Math.Positional Semantics Semantics.Cursor

namespace HighloadWallet

/-- The options that the script accepts, and the wallet that was loaded. -/
structure Args where
  subwalletId : ℤ
  subwalletId_fits : bitLength subwalletId ≤ 32
  allowBounce : Bool
  forceBounce : Bool
  timeout : ℤ
  sendMode : ℤ
  walletWc : ℤ
  walletAddr : ℤ
  walletPk : List UInt8

/-- The variables of the script, and all data that has been handed over to be signed. -/
structure Wallet where
  orders : PyDictionary
  orderNumber : ℕ
  signed : List (List UInt8)

namespace Wallet

def setOrders (orders : PyDictionary) (self : Wallet) : Wallet := { self with orders := orders }

/-- Count one order more. -/
def next (self : Wallet) : Wallet := { self with orderNumber := self.orderNumber + 1 }

end Wallet

section Methods

variable [NumBigint] [TonTypes] [TonHashmaps]

/-! ### The script -/

/-- `Slice(Builder().i(16, order_number).finalize())`. -/
def keyOf (orderNumber : ℕ) : Except PyErr PySlice := do
  let b ← PyBuilder.build (PyBuilder.i 16 orderNumber)
  let c ← PyBuilder.finalize b
  PySlice.create c

def addOrder (order : PySlice) : Mut PyErr Wallet PUnit := do
  let w ← get
  if w.orderNumber > 254 then
    throw (.exception "more that 254 orders")
  else
    let key ← Mut.ofExcept (keyOf w.orderNumber)
    let found ← Mut.ofExcept (PyDictionary.get w.orders key)
    if found.isSome then
      throw (.exception "cannot add order to dictionary")
    else
      Mut.zoom Wallet.orders Wallet.setOrders (PyDictionary.add key order)
      modify Wallet.next

def createSimpleTransfer [Python.Unicode] (args : Args) (address : String) (ng : Currency)
    (bounce : Bool) : Except PyErr Cell := do
  let (wc, addr) ← parseSmcAddr address
  let bounce := bounce || args.forceBounce && args.allowBounce
  let b ← PyBuilder.build (PyBuilder.i 32 0)
  let body ← PyBuilder.finalize b
  createIntMsg body bounce wc addr ng

def createOrder (c : Cell) (sendMode : ℤ) : Except PyErr Cell := do
  let b ← PyBuilder.build do
    PyBuilder.i 8 sendMode
    PyBuilder.r c
  PyBuilder.finalize b

def send [Python.Unicode] (args : Args) (address : String) (ng : Currency) (bounce : Bool) :
    Mut PyErr Wallet PUnit := do
  let t ← Mut.ofExcept (createSimpleTransfer args address ng bounce)
  let order ← Mut.ofExcept (createOrder t args.sendMode)
  let slice ← Mut.ofExcept (PySlice.create order)
  addOrder slice

/-- One line of the file; the flag is set unless its chunk is empty. -/
def processLine [Python.Unicode] (args : Args) (line : String) : Mut PyErr Wallet PUnit :=
  match line.toList.splitOn ' ' with
  | [command, address, flag, amount] =>
    if command = "SEND".toList then do
      let bounce := !flag.isEmpty
      let ng ← Mut.ofExcept (Currency.fromStr (.ofList amount))
      send args (.ofList address) ng bounce
    else
      throw .assertionError
  | _ => throw .assertionError

def Wallet.start : Wallet where
  orders := PyDictionary.create 16
  orderNumber := 0
  signed := []

/-- Everything that is done with a line before its order is added. -/
def orderOf [Python.Unicode] (args : Args) (line : String) : Except PyErr PySlice :=
  match line.toList.splitOn ' ' with
  | [command, address, flag, amount] =>
    if command = "SEND".toList then do
      let ng ← Currency.fromStr (.ofList amount)
      let t ← createSimpleTransfer args (.ofList address) ng (!flag.isEmpty)
      let order ← createOrder t args.sendMode
      PySlice.create order
    else .error .assertionError
  | _ => .error .assertionError

/-- The turn of the loop for a line adds the order of the line. -/
theorem processLine_eq_bind [Python.Unicode] (args : Args) (line : String) :
    processLine args line = Mut.ofExcept (orderOf args line) >>= addOrder := by
  unfold processLine orderOf
  generalize line.toList.splitOn ' ' = chunks
  rcases chunks with _ | ⟨command, _ | ⟨address, _ | ⟨flag, _ | ⟨amount, _ | ⟨chunk, chunks⟩⟩⟩⟩⟩
  case cons.cons.cons.cons.nil =>
    by_cases hcommand : command = "SEND".toList
    · simp only [if_pos hcommand, Mut.ofExcept_bind, bind_assoc]
      rfl
    · simp only [if_neg hcommand]
      rfl
  all_goals rfl

end Methods

/-! ### Well-formed lines -/

/-- The flag of a well-formed line: nothing, or a digit. -/
inductive Flag where
  | absent
  | zero
  | one
deriving DecidableEq

namespace Flag

def chars : Flag → List Char
  | absent => []
  | zero => ['0']
  | one => ['1']

/-- The flag is set by the digit one. -/
def isSet : Flag → Bool
  | absent => false
  | zero => false
  | one => true

end Flag

/-- A line of four chunks: `SEND`, an account of a workchain, a flag, and an amount that a
message has room for. -/
structure Line [Python.Unicode] where
  text : String
  address : List Char
  flag : Flag
  amount : List Char
  wc : ℤ
  addr : ℕ
  grams : ℕ
  split : text.toList.splitOn ' ' = ["SEND".toList, address, flag.chars, amount]
  parse : parseSmcAddr (.ofList address) = .ok (wc, (addr : ℤ))
  fromStr : Currency.fromStr (.ofList amount) = .ok (Currency.amount grams)
  wc_ge : -128 ≤ wc
  wc_le : wc ≤ 127
  addr_lt : addr < 2 ^ 256
  grams_lt : grams < 2 ^ 120

namespace Line

variable [Python.Unicode]

/-- The message of the line, with either bounce flag. -/
def transfer (line : Line) (bounce : Bool) : IntMsg where
  bounce := bounce
  wc := line.wc
  addr := line.addr
  ng := Currency.amount line.grams
  body := TlB.uint 32 0

/-- The flag of the transfer by the script, for which any chunk but the empty one is set. -/
def scriptBounce (line : Line) (args : Args) : Bool :=
  !line.flag.chars.isEmpty || args.forceBounce && args.allowBounce

/-- The flag of the transfer by `force-bounce or allow-bounce and` of the Fift script, from
left to right. -/
def fiftBounce (line : Line) (args : Args) : Bool :=
  (line.flag.isSet || args.forceBounce) && args.allowBounce

/-- The line comes through the script with its own flag: with leave to bounce a zero needs
the flag to be forced, and without leave there must be no flag. -/
def FlagKept (line : Line) (args : Args) : Prop :=
  if args.allowBounce = true then args.forceBounce = true ∨ line.flag ≠ .zero
  else line.flag = .absent

theorem scriptBounce_eq_iff (line : Line) (args : Args) :
    line.scriptBounce args = line.fiftBounce args ↔ line.FlagKept args := by
  unfold scriptBounce fiftBounce FlagKept
  cases args.allowBounce <;> cases args.forceBounce <;> cases line.flag <;> decide

end Line

/-! ### Orders -/

/-- The body of every transfer. -/
def noBody : Cell := .ordinary ⟨TlB.uint 32 0, (TlB.within_uint 32 0).fits (by decide) (by decide)⟩

/-- A mode in eight bits; one of the documented range is its own value. -/
def ModeLayout (sendMode : ℤ) (mode : List Bool) : Prop :=
  mode.length = 8 ∧ (0 ≤ sendMode → sendMode < 256 → (value mode : ℤ) = sendMode)

/-- The mode, and a message that carries the transfer of the line. -/
def OrderLayout [Python.Unicode] (args : Args) (line : Line) (f : Fragment) : Prop :=
  ∃ (mode : List Bool) (msg : BuilderData) (body : Fragment),
    ModeLayout args.sendMode mode ∧ BodyLayout noBody body ∧
    msg.toFragment =
      headerLayout (line.scriptBounce args) line.wc line.addr line.grams * body ∧
    f = .ofBits mode * .ofRef (.ordinary msg)

theorem OrderLayout.length_bits [Python.Unicode] {args : Args} {line : Line} {f : Fragment}
    (h : OrderLayout args line f) : f.bits.length = 8 := by
  obtain ⟨mode, msg, body, hmode, -, -, rfl⟩ := h
  rw [Fragment.mul_bits, Fragment.ofRef_bits, List.append_nil]
  exact hmode.1

section

variable [NumBigint] [TonTypes] [LawfulNumBigint] [LawfulTonTypes] [LawfulLoad]

omit [LawfulLoad] in
/-- Any mode goes into eight bits. -/
theorem exists_mode_writes (sendMode : ℤ) :
    ∃ mode, ModeLayout sendMode mode ∧
      PyBuilder.BuilderWrites (PyBuilder.i 8 sendMode) (.ofBits mode) := by
  by_cases hrange : 0 ≤ sendMode ∧ sendMode < 256
  · refine ⟨word 8 sendMode.toNat, ⟨length_word _ _, fun h₀ h => ?_⟩, ?_⟩
    · rw [value_word_of_lt (by omega), Int.toNat_of_nonneg h₀]
    · exact PyBuilder.i_writes_uint (by decide) hrange.1 hrange.2
  · obtain ⟨x, w, hw, happ, hi⟩ := PyBuilder.i_appends (show 1 ≤ 8 by decide) sendMode
    refine ⟨w, ⟨hw, fun h₀ h => absurd ⟨h₀, h⟩ hrange⟩, ?_⟩
    rw [hi]
    exact PyBuilder.writes_of_appends happ

omit [LawfulLoad] in
theorem createOrder_eq (c : Cell) (sendMode : ℤ) :
    ∃ (mode : List Bool) (b : BuilderData), ModeLayout sendMode mode ∧
      b.toFragment = .ofBits mode * .ofRef c ∧ createOrder c sendMode = .ok (.ordinary b) := by
  obtain ⟨mode, hmode, hwrites⟩ := exists_mode_writes sendMode
  have hfits : (.ofBits mode * .ofRef c : Fragment).Fits :=
    ((Fragment.within_ofBits mode).mul (Fragment.within_ofRef c)).fits
      (by simp [hmode.1, maxBits]) (by simp [maxRefs])
  have hbuild := PyBuilder.build_eq (hwrites.seq (PyBuilder.r_writes c)) hfits
  refine ⟨mode, ⟨_, hfits⟩, hmode, rfl, ?_⟩
  rw [createOrder, hbuild]
  exact PyBuilder.finalize_eq _

variable [Python.Unicode]

omit [LawfulLoad] in
/-- Every order has a mode and one reference. -/
theorem content_orderOf {args : Args} {line : String} {order : PySlice}
    (h : orderOf args line = .ok order) :
    ∃ (mode : List Bool) (t : Cell), ModeLayout args.sendMode mode ∧
      order.content = .ofBits mode * .ofRef t := by
  unfold orderOf at h
  split at h
  · split_ifs at h
    obtain ⟨ng, -, h⟩ := exists_of_bind_eq_ok h
    obtain ⟨t, -, h⟩ := exists_of_bind_eq_ok h
    obtain ⟨c, hc, h⟩ := exists_of_bind_eq_ok h
    obtain ⟨mode, b, hmode, hb, horder⟩ := createOrder_eq t args.sendMode
    obtain rfl : Cell.ordinary b = c := Except.ok.inj (horder.symm.trans hc)
    obtain ⟨s, hcreate, hcontent⟩ := PyBuilder.create_ordinary_eq b
    obtain rfl : s = order := Except.ok.inj (hcreate.symm.trans h)
    exact ⟨mode, t, hmode, hcontent.trans hb⟩
  · cases h

theorem createSimpleTransfer_eq (args : Args) (line : Line) :
    ∃ (msg : BuilderData) (body : Fragment), BodyLayout noBody body ∧
      msg.toFragment =
        headerLayout (line.scriptBounce args) line.wc line.addr line.grams * body ∧
      createSimpleTransfer args (.ofList line.address) (Currency.amount line.grams)
          (!line.flag.chars.isEmpty) =
        .ok (.ordinary msg) := by
  have hzeros : PyBuilder.BuilderWrites (PyBuilder.i 32 0) (TlB.uint 32 0) :=
    PyBuilder.i_writes_uint (by decide) le_rfl (by positivity)
  have hbuild := PyBuilder.build_eq hzeros ((TlB.within_uint 32 0).fits (by decide) (by decide))
  obtain ⟨body, msg, hbody, hmsg, hrun⟩ := createIntMsg_eq (line.scriptBounce args)
    (PySlice.create_eq (c := noBody) rfl) line.wc_ge line.wc_le line.addr_lt line.grams_lt
  refine ⟨msg, body, hbody, hmsg, ?_⟩
  rw [createSimpleTransfer, line.parse, hbuild]
  change (PyBuilder.finalize _ >>= _) = _
  rw [PyBuilder.finalize_eq]
  exact hrun

/-- A well-formed line makes an order that carries its transfer. -/
theorem orderOf_line (args : Args) (line : Line) :
    ∃ order, orderOf args line.text = .ok order ∧ OrderLayout args line order.content := by
  obtain ⟨msg, body, hbody, hmsg, htransfer⟩ := createSimpleTransfer_eq args line
  obtain ⟨mode, b, hmode, hb, horder⟩ := createOrder_eq (.ordinary msg) args.sendMode
  obtain ⟨order, hcreate, hcontent⟩ := PyBuilder.create_ordinary_eq b
  refine ⟨order, ?_, mode, msg, body, hmode, hbody, hmsg, by rw [hcontent, hb]⟩
  rw [orderOf, line.split]
  simp only [if_true, line.fromStr, ok_bind]
  rw [htransfer, ok_bind, horder, ok_bind, hcreate]

end

/-! ### Reading the orders back -/

section

variable [NumBigint] [TonTypes]

/-- The transfer in the message of an order. -/
def readMessage (c : Cell) : Except PyErr IntMsg := do
  let s ← PySlice.create c
  (IntMsg.read.exec s).1

/-- The mode and the transfer of an order. -/
def readOrder : Mut PyErr PySlice (ℕ × IntMsg) := do
  let mode ← PySlice.u 8
  let c ← PySlice.r
  let msg ← Mut.ofExcept (readMessage c)
  pure (mode, msg)

variable [Python.Unicode]

/-- The slice is the order of the line, under some bounce flag, and nothing else. -/
def IsOrderOf (args : Args) (line : Line) (bounce : Bool) (v : PySlice) : Prop :=
  ∃ mode v', readOrder.exec v = (.ok (mode, line.transfer bounce), v') ∧ v'.content = 1 ∧
    (0 ≤ args.sendMode → args.sendMode < 256 → (mode : ℤ) = args.sendMode)

/-- The order has only one bounce flag. -/
theorem IsOrderOf.bounce_eq {args : Args} {line line' : Line} {bounce bounce' : Bool}
    {v : PySlice} (h : IsOrderOf args line bounce v) (h' : IsOrderOf args line' bounce' v) :
    bounce = bounce' := by
  obtain ⟨mode, v₁, hrun, -⟩ := h
  obtain ⟨mode', v₂, hrun', -⟩ := h'
  have hsame := Except.ok.inj (congrArg Prod.fst (hrun.symm.trans hrun'))
  exact congrArg (fun order => order.2.bounce) hsame

variable [LawfulNumBigint] [LawfulTonTypes]

theorem OrderLayout.isOrderOf {args : Args} {line : Line} {v : PySlice}
    (h : OrderLayout args line v.content) : IsOrderOf args line (line.scriptBounce args) v := by
  obtain ⟨mode, msg, body, hmode, hbody, hmsg, hcontent⟩ := h
  obtain ⟨s, hcreate, hs⟩ := PyBuilder.create_ordinary_eq msg
  rw [hmsg] at hs
  obtain ⟨s', hread⟩ := IntMsg.read_eq (line.scriptBounce args) line.wc_ge line.wc_le
    line.addr_lt line.grams_lt hbody hs
  have hmessage : readMessage (.ordinary msg) = .ok (line.transfer (line.scriptBounce args)) := by
    rw [readMessage, hcreate, ok_bind, hread, noBody, Cell.ordinary_refs]
    rfl
  have hreads := PySlice.u_reads mode
  rw [hmode.1] at hreads
  obtain ⟨v₁, hu, hv₁⟩ := hreads v _ hcontent
  obtain ⟨v₂, hr, hv₂⟩ := PySlice.r_reads (.ordinary msg) v₁ 1 (by rw [hv₁, mul_one])
  refine ⟨value mode, v₂, ?_, hv₂, hmode.2⟩
  rw [readOrder, Mut.exec_bind_ok hu, Mut.exec_bind_ok hr, hmessage, Mut.ofExcept_ok_bind,
    Mut.exec_pure]

end

end HighloadWallet

end EverPlayground
