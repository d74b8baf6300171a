import EverPlayground.HighloadWallet.Collect
import EverPlayground.TonTypes.HashmapReference
import EverPlayground.UniqueCells

/-!
# The highload order run

After the orders of a file have been collected, the dictionary is signed and packed into
an external message. Nothing is signed unless the whole file went through, and then one
message is. The run is compared with what the script says of itself and with the Fift script
that it ports.

## Main definitions

* `run` — the script
* `Collects` — what a run leaves, for any file
* `RunExact` — the documented limit, and the flags of the Fift script

## Main results

* `run_collects` — the state that the script leaves, for any file
* `run_exact_iff` — the run keeps to its limit and its flags, but for files of 255 lines and
  for lines whose flag is lost
-/

set_option autoImplicit false

namespace EverPlayground

open Math.Positional Semantics Semantics.Cursor

/-- `ed25519_sign`: the signature of the data, for a secret key that can be loaded. -/
class Ed25519 where
  sign : (data secret : List UInt8) → Except PyErr (List UInt8)

namespace Reference

/-- Sixty-four bytes of the data and the key, for a key of the right length. -/
scoped instance ed25519 : Ed25519 where
  sign data secret :=
    if secret.length = 32 then .ok (word 64 (value (data ++ secret))) else .error .valueError

end Reference

namespace HighloadWallet

/-! ### Signing -/

def Wallet.sign (data : List UInt8) (self : Wallet) : Wallet :=
  { self with signed := data :: self.signed }

section Methods

variable [NumBigint] [TonTypes] [TonCells] [Ed25519]

def reprHashBytes (c : Cell) : List UInt8 := word 32 (TonCells.reprHash c).toNat

def ed25519Sign (data secret : List UInt8) : Mut PyErr Wallet (List UInt8) := do
  modify (Wallet.sign data)
  Mut.ofExcept (Ed25519.sign data secret)

def now : ℤ := 1684770872

def queryId (args : Args) (ordersCell : Cell) : ℤ :=
  ((now + args.timeout) <<< (32 : ℕ)) + ((TonCells.reprHash ordersCell).toNat &&& 0xffffffff : ℕ)

def signingMessage (args : Args) (orders : PyDictionary) : Except PyErr Cell := do
  let b ← orders.serialize
  let ordersCell ← PyBuilder.finalize b
  let ordersSlice ← PySlice.create ordersCell
  let b ← PyBuilder.build do
    PyBuilder.i 32 args.subwalletId
    PyBuilder.i 64 (queryId args ordersCell)
    PyBuilder.s ordersSlice
  PyBuilder.finalize b

def createExtMsg (args : Args) (signature : List UInt8) (message : Cell) : Except PyErr Cell := do
  let zero ← Currency.create 0
  let grams ← zero.serialize
  let messageSlice ← PySlice.create message
  let b ← PyBuilder.build do
    PyBuilder.ib "1000100"
    PyBuilder.i 8 args.walletWc
    PyBuilder.i 256 args.walletAddr
    PyBuilder.b grams
    PyBuilder.ib "00"
    PyBuilder.y signature
    PyBuilder.s messageSlice
  PyBuilder.finalize b

/-- The message that the script makes of the lines of a file. -/
def run [TonHashmaps] [Python.Unicode] (args : Args) (lines : List String) :
    Mut PyErr Wallet Cell := do
  forM lines (processLine args)
  let w ← get
  let message ← Mut.ofExcept (signingMessage args w.orders)
  let signature ← ed25519Sign (reprHashBytes message) args.walletPk
  Mut.ofExcept (createExtMsg args signature message)

end Methods

/-! ### Any file -/

section

variable [NumBigint] [TonTypes] [LawfulNumBigint] [LawfulTonTypes]

omit [LawfulNumBigint] in
/-- Any dictionary can be put into a message, under any wallet id. -/
theorem signingMessage_returns [TonCells] (args : Args) (orders : PyDictionary) :
    ∃ message, signingMessage args orders = .ok message := by
  obtain ⟨b, hserialize, hb⟩ := PyDictionary.serialize_eq orders
  obtain ⟨ordersCell, ordersSlice, hcell, hcreate, hslice⟩ := PyBuilder.create_finalize_eq b
  rw [hb] at hslice
  obtain ⟨x, u, hu, hx, hid⟩ := PyBuilder.i_appends (show 1 ≤ 32 by decide) args.subwalletId
  obtain ⟨y, v, hv, hy, hquery⟩ :=
    PyBuilder.i_appends (show 1 ≤ 64 by decide) (queryId args ordersCell)
  have hs := (PyBuilder.s_writesExactly ordersSlice).writes
  rw [hslice] at hs
  have hfits : (.ofBits u * (.ofBits v * orders.fragment) : Fragment).Fits := by
    refine ((Fragment.within_ofBits u).mul ((Fragment.within_ofBits v).mul
      orders.within_fragment)).fits ?_ ?_
    · rw [hu, hv]
      norm_num [maxBits]
    · norm_num [maxRefs]
  have hbuild := PyBuilder.build_eq ((PyBuilder.writes_of_appends hx).seq
    ((PyBuilder.writes_of_appends hy).seq hs)) hfits
  refine ⟨Cell.ordinary ⟨_, hfits⟩, ?_⟩
  rw [signingMessage, hserialize, ok_bind, hcell, ok_bind, hcreate, ok_bind, hid, hquery, hbuild,
    ok_bind]
  exact PyBuilder.finalize_eq _

omit [NumBigint] [TonTypes] [LawfulNumBigint] [LawfulTonTypes] in
/-- Whether the key can be loaded or not, the data has been handed over. -/
theorem exec_ed25519Sign [Ed25519] (data secret : List UInt8) (k : List UInt8 → Except PyErr Cell)
    (w : Wallet) :
    ∃ outcome, (ed25519Sign data secret >>= fun signature => Mut.ofExcept (k signature)).exec w =
      (outcome, w.sign data) := by
  cases hsign : Ed25519.sign data secret with
  | error e =>
    refine ⟨.error e, Mut.exec_bind_error ?_⟩
    rw [ed25519Sign, hsign]
    rfl
  | ok signature =>
    have hrun : (ed25519Sign data secret).exec w = (.ok signature, w.sign data) := by
      rw [ed25519Sign, hsign]
      rfl
    exact ⟨k signature, Mut.exec_bind_ok hrun⟩

variable [Python.Unicode] [TonHashmaps] [LawfulTonHashmaps] [TonCells] [Ed25519]

/-- A run either stops in the loop, with nothing signed, or goes through and hands one
message over to be signed. -/
theorem run_cases (args : Args) (lines : List String) :
    ∃ w, Collected (((ordersOf args lines).take 255).map SliceData.content) w ∧
      (((ordersOf args lines).length < lines.length ∨ 255 < lines.length) ∧
          (∃ e, (run args lines).exec Wallet.start = (.error e, w)) ∨
        ((ordersOf args lines).length = lines.length ∧ lines.length ≤ 255) ∧
          ∃ message, signingMessage args w.orders = .ok message ∧
            ∃ outcome, (run args lines).exec Wallet.start =
              (outcome, w.sign (reprHashBytes message))) := by
  obtain ⟨outcome, w, hloop, hw, hiff⟩ :=
    forM_processLine_collected args lines collected_start (Nat.zero_le 255)
  rw [List.nil_append, List.length_nil, Nat.sub_zero] at hw
  rw [List.length_nil, Nat.zero_add] at hiff
  refine ⟨w, hw, ?_⟩
  cases outcome with
  | error e => exact Or.inl ⟨hiff.mp ⟨e, rfl⟩, e, by rw [run, Mut.exec_bind_error hloop]⟩
  | ok _ =>
    have hlength := length_ordersOf_le args lines
    have hthrough : ¬ ((ordersOf args lines).length < lines.length ∨ 255 < lines.length) := by
      intro hstop
      obtain ⟨e, he⟩ := hiff.mpr hstop
      cases he
    -- the signature may still fail, after the data has been handed over
    obtain ⟨message, hmessage⟩ := signingMessage_returns args w.orders
    obtain ⟨outcome, hsign⟩ := exec_ed25519Sign (reprHashBytes message) args.walletPk
      (createExtMsg args · message) w
    refine Or.inr ⟨by omega, message, hmessage, outcome, ?_⟩
    rw [run, Mut.exec_bind_ok hloop, Mut.exec_bind_ok (Mut.exec_get w), hmessage,
      Mut.ofExcept_ok_bind, hsign]

/-- What the script leaves for a file of these lines, and how it ends. -/
structure Collects (args : Args) (lines : List String) (result : Except PyErr Cell × Wallet) :
    Prop where
  orderNumber : result.2.orderNumber = min 255 (ordersOf args lines).length
  get : ∀ key : PySlice, key.bits.length = 16 →
    ∃ found, PyDictionary.get result.2.orders key = .ok found ∧
      found.map SliceData.content =
        (((ordersOf args lines).take 255)[value key.bits]?).map SliceData.content
  signed : (ordersOf args lines).length = lines.length ∧ lines.length ≤ 255 →
    ∃ message, signingMessage args result.2.orders = .ok message ∧
      result.2.signed = [reprHashBytes message]
  raises : (ordersOf args lines).length < lines.length ∨ 255 < lines.length →
    (∃ e, result.1 = .error e) ∧ result.2.signed = []

/-- Whatever the file, the dictionary that the script leaves has under the number `k` the
order of line `k`, for the lines in front of the first one that makes no order and for at
most 255 of them. If these are all lines of the file then one message is handed over to be
signed, the one that contains them; otherwise the script raises and none is. -/
theorem run_collects (args : Args) (lines : List String) :
    Collects args lines ((run args lines).exec Wallet.start) := by
  obtain ⟨w, hw, hcases⟩ := run_cases args lines
  have hnumber : w.orderNumber = min 255 (ordersOf args lines).length := by
    rw [hw.orderNumber, List.length_map, List.length_take]
  have hget : ∀ key : PySlice, key.bits.length = 16 →
      ∃ found, PyDictionary.get w.orders key = .ok found ∧
        found.map SliceData.content =
          (((ordersOf args lines).take 255)[value key.bits]?).map SliceData.content := by
    intro key hkey
    obtain ⟨found, hfound, hcontent⟩ := hw.get_eq hkey
    exact ⟨found, hfound, by rw [hcontent, List.getElem?_map]⟩
  rcases hcases with ⟨hstop, e, hrun⟩ | ⟨hthrough, message, hmessage, outcome, hrun⟩
  · rw [hrun]
    exact ⟨hnumber, hget, fun _ => by omega, fun _ => ⟨⟨e, rfl⟩, hw.signed⟩⟩
  · rw [hrun]
    exact ⟨hnumber, hget, fun _ => ⟨message, hmessage, congrArg (_ :: ·) hw.signed⟩,
      fun _ => by omega⟩

end

/-! ### The limit and the flags -/

section

variable [NumBigint] [TonTypes] [TonHashmaps] [TonCells] [Ed25519] [Python.Unicode]

/-- How the run over these lines ends, and the state that it leaves. -/
def runOn (args : Args) (lines : List Line) : Except PyErr Cell × Wallet :=
  (run args (lines.map Line.text)).exec Wallet.start

/-- The run keeps to its limit and to the flags of the Fift script. -/
structure RunExact (args : Args) (lines : List Line) : Prop where
  stored : lines.length ≤ 254 → ∀ (key : PySlice) line, key.bits.length = 16 →
    lines[value key.bits]? = some line → ∃ v bounce,
      PyDictionary.get (runOn args lines).2.orders key = .ok (some v) ∧
        IsOrderOf args line bounce v
  absent : lines.length ≤ 254 → ∀ key : PySlice, key.bits.length = 16 →
    lines.length ≤ value key.bits →
      PyDictionary.get (runOn args lines).2.orders key = .ok none
  aborts : 254 < lines.length →
    (∃ e, (runOn args lines).1 = .error e) ∧ (runOn args lines).2.signed = []
  bounces : ∀ key v : PySlice, key.bits.length = 16 →
    PyDictionary.get (runOn args lines).2.orders key = .ok (some v) →
      ∃ line, lines[value key.bits]? = some line ∧ IsOrderOf args line (line.fiftBounce args) v

variable [LawfulNumBigint] [LawfulTonTypes] [LawfulLoad] [LawfulTonHashmaps]

/-- How a run over well-formed lines ends, and what the dictionary then has under a key: the
order of the line with its number, for the first 255 lines. -/
theorem runOn_collected (args : Args) (lines : List Line) :
    ((lines.length ≤ 255 ∧ (runOn args lines).2.signed ≠ []) ∨
      (255 < lines.length ∧ (∃ e, (runOn args lines).1 = .error e) ∧
        (runOn args lines).2.signed = [])) ∧
    ∀ key : PySlice, key.bits.length = 16 →
      ((lines.take 255).length ≤ value key.bits ∧
        PyDictionary.get (runOn args lines).2.orders key = .ok none) ∨
      ∃ line v, (lines.take 255)[value key.bits]? = some line ∧
        PyDictionary.get (runOn args lines).2.orders key = .ok (some v) ∧
          IsOrderOf args line (line.scriptBounce args) v := by
  have hrun := run_cases args (lines.map Line.text)
  have horders := ordersOf_lines args lines
  have hlength := horders.length_eq
  rw [List.length_map, ← hlength] at hrun
  obtain ⟨w, hw, hcases⟩ := hrun
  have hdictionary : (runOn args lines).2.orders = w.orders := by
    rcases hcases with ⟨-, e, hrun⟩ | ⟨-, message, -, outcome, hrun⟩
    · rw [runOn, hrun]
    · rw [runOn, hrun]
      rfl
  constructor
  · rcases hcases with ⟨hstop, e, hrun⟩ | ⟨hthrough, message, -, outcome, hrun⟩
    · refine Or.inr ⟨by omega, ⟨e, ?_⟩, ?_⟩
      · rw [runOn, hrun]
      · rw [runOn, hrun, hw.signed]
    · refine Or.inl ⟨hthrough.2, ?_⟩
      rw [runOn, hrun]
      exact List.cons_ne_nil _ _
  · intro key hkey
    rw [hdictionary]
    obtain ⟨found, hget, hfound⟩ := hw.get_eq hkey
    have htaken := List.forall₂_take 255 horders
    rcases Nat.lt_or_ge (value key.bits) (lines.take 255).length with hlt | hge
    · have hlt' : value key.bits < ((ordersOf args (lines.map Line.text)).take 255).length :=
        htaken.length_eq ▸ hlt
      rw [List.getElem?_map, List.getElem?_eq_getElem hlt'] at hfound
      obtain ⟨v, rfl, hv⟩ := Option.map_eq_some_iff.mp hfound
      have hlayout := htaken.get hlt hlt'
      refine Or.inr ⟨_, v, List.getElem?_eq_getElem hlt, hget, OrderLayout.isOrderOf ?_⟩
      rw [hv]
      exact hlayout
    · have hge' : (((ordersOf args (lines.map Line.text)).take 255).map
          SliceData.content).length ≤ value key.bits := by
        rw [List.length_map]
        exact htaken.length_eq ▸ hge
      rw [List.getElem?_eq_none hge', Option.map_eq_none_iff] at hfound
      exact Or.inl ⟨hge, by rw [hget, hfound]⟩

/-- A line among the first 255 has its order under its number. -/
theorem exists_stored (args : Args) {lines : List Line} {k : ℕ} {line : Line}
    (hline : (lines.take 255)[k]? = some line) :
    ∃ key v : PySlice, key.bits = word 16 k ∧
      PyDictionary.get (runOn args lines).2.orders key = .ok (some v) ∧
        IsOrderOf args line (line.scriptBounce args) v := by
  have hlt : k < 255 := by
    rw [List.getElem?_take, Option.ite_none_right_eq_some] at hline
    exact hline.1
  obtain ⟨key, -, hkey⟩ := keyOf_eq (k := k) (by omega)
  have hvalue : value key.bits = k := by rw [hkey, value_word_of_lt (by omega)]
  refine ⟨key, ?_⟩
  rcases (runOn_collected args lines).2 key (by rw [hkey, length_word]) with
    ⟨hge, -⟩ | ⟨line', v, hline', hget, hv⟩
  · rw [hvalue] at hge
    rw [List.getElem?_eq_none hge] at hline
    cases hline
  · rw [hvalue, hline] at hline'
    cases hline'
    exact ⟨v, hkey, hget, hv⟩

/-- The limit is one too high. -/
theorem RunExact.length_ne {args : Args} {lines : List Line} (h : RunExact args lines) :
    lines.length ≠ 255 := by
  intro hlen
  rcases (runOn_collected args lines).1 with ⟨-, hsigned⟩ | ⟨hlt, -⟩
  · exact hsigned (h.aborts (by omega)).2
  · omega

/-- A line that is stored as it should be has kept its flag. -/
theorem RunExact.flagKept {args : Args} {lines : List Line} (h : RunExact args lines) :
    ∀ line ∈ lines.take 255, line.FlagKept args := by
  intro line hline
  obtain ⟨k, hk⟩ := List.mem_iff_getElem?.mp hline
  obtain ⟨key, v, hkey, hget, hv⟩ := exists_stored args hk
  obtain ⟨line', hline', hv'⟩ := h.bounces key v (by rw [hkey, length_word]) hget
  -- the line is the one under this number, and its order has one flag
  rw [List.getElem?_take, Option.ite_none_right_eq_some] at hk
  rw [hkey, value_word_of_lt (by omega), hk.2] at hline'
  cases hline'
  exact (line.scriptBounce_eq_iff args).mp (hv.bounce_eq hv')

/-- The run keeps to its limit and to its flags exactly when the file does not have 255
lines and every line that is stored keeps its flag. -/
theorem run_exact_iff (args : Args) (lines : List Line) :
    RunExact args lines ↔
      lines.length ≠ 255 ∧ ∀ line ∈ lines.take 255, line.FlagKept args := by
  refine ⟨fun h => ⟨h.length_ne, h.flagKept⟩, fun ⟨hlen, hflags⟩ => ?_⟩
  obtain ⟨hends, hdictionary⟩ := runOn_collected args lines
  constructor
  case stored =>
    intro hle key line hkey hline
    rw [List.take_of_length_le (by omega)] at hdictionary
    rcases hdictionary key hkey with ⟨hge, -⟩ | ⟨line', v, hline', hget, hv⟩
    · rw [List.getElem?_eq_none hge] at hline
      cases hline
    · rw [hline] at hline'
      cases hline'
      exact ⟨v, _, hget, hv⟩
  case absent =>
    intro hle key hkey hge
    rw [List.take_of_length_le (by omega)] at hdictionary
    rcases hdictionary key hkey with ⟨-, hget⟩ | ⟨line', v, hline', -⟩
    · exact hget
    · rw [List.getElem?_eq_none hge] at hline'
      cases hline'
  case aborts =>
    intro hlt
    rcases hends with ⟨hle, -⟩ | ⟨-, hraises, hsigned⟩
    · omega
    · exact ⟨hraises, hsigned⟩
  case bounces =>
    intro key v hkey hget
    rcases hdictionary key hkey with ⟨-, hnone⟩ | ⟨line, v', hline, hsome, hv⟩
    · rw [hnone] at hget
      cases hget
    · rw [hsome] at hget
      cases hget
      have hbounce : line.scriptBounce args = line.fiftBounce args :=
        (line.scriptBounce_eq_iff args).mpr (hflags line (List.mem_of_getElem? hline))
      rw [List.getElem?_take, Option.ite_none_right_eq_some] at hline
      exact ⟨line, hline.2, hbounce ▸ hv⟩

end

section Reference

open scoped Reference Python.Ascii

/-- A line that sends one coin, with this flag. -/
def coinLineWith (flag : Flag) (text : String)
    (split : text.toList.splitOn ' ' = ["SEND".toList, ['0', ':', '5'], flag.chars, ['1']]) :
    Line where
  text := text
  address := ['0', ':', '5']
  flag := flag
  amount := ['1']
  wc := 0
  addr := 5
  grams := Currency.factor
  split := split
  parse := rfl
  fromStr := Currency.fromStr_one
  wc_ge := by decide
  wc_le := by decide
  addr_lt := by decide
  grams_lt := by decide

/-- The line sets its flag. -/
def coinLine : Line := coinLineWith .one "SEND 0:5 1 1" rfl

/-- The line writes that its flag is not set. -/
def zeroLine : Line := coinLineWith .zero "SEND 0:5 0 1" rfl

/-- The options of the script, with or without leave to bounce. -/
def exampleArgs (allowBounce : Bool) : Args where
  subwalletId := 27172
  subwalletId_fits := by decide
  allowBounce := allowBounce
  forceBounce := false
  timeout := 60
  sendMode := 3
  walletWc := 0
  walletAddr := 5
  walletPk := List.replicate 32 0

/-- A file whose second line is not an order. -/
theorem run_collects_coin :
    Collects (exampleArgs true) [coinLine.text, "SEND 0:5 1"]
      ((run (exampleArgs true) [coinLine.text, "SEND 0:5 1"]).exec Wallet.start) :=
  run_collects (exampleArgs true) [coinLine.text, "SEND 0:5 1"]

theorem run_exact_iff_coinLine :
    RunExact (exampleArgs true) [coinLine] ↔
      [coinLine].length ≠ 255 ∧ ∀ line ∈ [coinLine].take 255, line.FlagKept (exampleArgs true) :=
  run_exact_iff (exampleArgs true) [coinLine]

/-- An order that bounces although the Fift script would have it not. -/
def BouncesWrongly (args : Args) (line : Line) : Prop :=
  (∃ key v, PyDictionary.get (runOn args [line]).2.orders key = .ok (some v) ∧
    IsOrderOf args line true v) ∧ line.fiftBounce args = false

theorem bouncesWrongly {args : Args} {line : Line} (hscript : line.scriptBounce args = true)
    (hfift : line.fiftBounce args = false) :
    BouncesWrongly args line ∧ ¬ RunExact args [line] := by
  obtain ⟨key, v, -, hget, hv⟩ :=
    exists_stored args (show ([line].take 255)[0]? = some line from rfl)
  rw [hscript] at hv
  refine ⟨⟨⟨key, v, hget, hv⟩, hfift⟩, fun h => ?_⟩
  have hsame := (line.scriptBounce_eq_iff args).mpr (h.flagKept line List.mem_cons_self)
  rw [hscript, hfift] at hsame
  cases hsame

/-- A file of 255 lines is signed, a single line bounces although that is not allowed, and
another one although it says that it should not. -/
theorem run_not_exact :
    ((runOn (exampleArgs true) (List.replicate 255 coinLine)).2.signed ≠ [] ∧
      ¬ RunExact (exampleArgs true) (List.replicate 255 coinLine)) ∧
    (BouncesWrongly (exampleArgs false) coinLine ∧ ¬ RunExact (exampleArgs false) [coinLine]) ∧
    BouncesWrongly (exampleArgs true) zeroLine ∧ ¬ RunExact (exampleArgs true) [zeroLine] := by
  have hlength : (List.replicate 255 coinLine).length = 255 := List.length_replicate
  refine ⟨⟨?_, fun h => h.length_ne hlength⟩, bouncesWrongly rfl rfl, bouncesWrongly rfl rfl⟩
  rcases (runOn_collected (exampleArgs true) (List.replicate 255 coinLine)).1 with
    ⟨-, hsigned⟩ | ⟨hlt, -⟩
  · exact hsigned
  · omega

end Reference

end HighloadWallet

end EverPlayground
