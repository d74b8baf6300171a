import EverPlayground.Address.Loaded
import EverPlayground.HighloadWallet.Delivery

/-!
# The highload wallet from its files

The script loads the address of the wallet and its key from two files next to each other.
The workchain of the wallet is read without its sign and written into a field that it does
not fit in; the two slips cancel each other on the masterchain, and nowhere else.

## Main definitions

* `main` — the script from its options on
* `Options.Files` — what the two files have

## Main results

* `main_delivers` — the message goes to the wallet of the files exactly when its workchain is
  the masterchain or not negative; everything else in it is as it should be in any case
-/

set_option autoImplicit false

namespace EverPlayground

open Math.Positional Math.TwosComplement Semantics Semantics.Cursor

/-- `ed25519_secret_to_public`: the public key of a secret key that can be loaded. -/
class Ed25519Keys where
  secretToPublic : List UInt8 → Except PyErr (List UInt8)

namespace Reference

scoped instance ed25519Keys : Ed25519Keys where
  secretToPublic secret := if secret.length = 32 then .ok secret else .error .valueError

end Reference

/-- The public key and the secret one. -/
def loadKeypair [Ed25519Keys] (files : String → Except PyErr (List UInt8)) (filename : String) :
    Except PyErr (List UInt8 × List UInt8) := do
  let secret ← files filename
  let pub ← Ed25519Keys.secretToPublic secret
  .ok (pub, secret)

namespace HighloadWallet

/-- The options that the script accepts. -/
structure Options where
  fileBase : String
  subwalletId : ℤ
  subwalletId_fits : bitLength subwalletId ≤ 32
  allowBounce : Bool
  forceBounce : Bool
  timeout : ℤ
  sendMode : ℤ

namespace Options

def addrFile (o : Options) : String := o.fileBase ++ toString o.subwalletId ++ ".addr"

def keyFile (o : Options) : String := o.fileBase ++ ".pk"

/-- The options together with a wallet. -/
def args (o : Options) (walletWc walletAddr : ℤ) (walletPk : List UInt8) : Args where
  subwalletId := o.subwalletId
  subwalletId_fits := o.subwalletId_fits
  allowBounce := o.allowBounce
  forceBounce := o.forceBounce
  timeout := o.timeout
  sendMode := o.sendMode
  walletWc := walletWc
  walletAddr := walletAddr
  walletPk := walletPk

/-- The files of a wallet: its address, and a key that can be loaded. -/
structure Files [Ed25519Keys] (o : Options) (files : String → Except PyErr (List UInt8))
    (wc : ℤ) (addr : ℕ) (secret : List UInt8) : Prop where
  addr : ∃ bytes, files o.addrFile = .ok bytes ∧ IsAddressFile wc addr bytes
  key : files o.keyFile = .ok secret
  publicKey : ∃ pub, Ed25519Keys.secretToPublic secret = .ok pub

end Options

section

variable [NumBigint] [TonTypes] [TonHashmaps] [TonCells] [Ed25519] [Ed25519Keys] [Python.Unicode]

/-- The script, over the lines of its order file. -/
def main (files : String → Except PyErr (List UInt8)) (o : Options) (lines : List String) :
    Mut PyErr Wallet Cell := do
  let (walletWc, walletAddr) ← Mut.ofExcept (loadAddress files o.addrFile)
  let (_, walletPk) ← Mut.ofExcept (loadKeypair files o.keyFile)
  run (o.args walletWc walletAddr walletPk) lines

theorem main_eq {files : String → Except PyErr (List UInt8)} {o : Options} {wc : ℤ} {addr : ℕ}
    {secret : List UInt8} (h : o.Files files wc addr secret) (haddr : addr < 2 ^ 256)
    (lines : List String) :
    main files o lines = run (o.args (wc % 2 ^ 32) addr secret) lines := by
  obtain ⟨bytes, hfile, hbytes⟩ := h.addr
  obtain ⟨pub, hpub⟩ := h.publicKey
  have hkeys : loadKeypair files o.keyFile = .ok (pub, secret) := by
    rw [loadKeypair, h.key, ok_bind, hpub, ok_bind]
  rw [main, loadAddress_eq haddr hbytes hfile, hkeys]
  rfl

/-! ### The workchain of the wallet -/

variable [LawfulTonTypes]

omit [TonHashmaps] [TonCells] [Ed25519] [Ed25519Keys] [Python.Unicode] in
/-- The workchain shows in the message by its field only. -/
theorem createExtMsg_congr (o : Options) {wc wc' : ℤ} {w : List Bool} (hw : w.length = 8)
    (h : PyBuilder.BuilderWrites (PyBuilder.i 8 wc) (.ofBits w))
    (h' : PyBuilder.BuilderWrites (PyBuilder.i 8 wc') (.ofBits w)) (addr : ℤ)
    (secret signature : List UInt8) (message : Cell) :
    createExtMsg (o.args wc addr secret) signature message =
      createExtMsg (o.args wc' addr secret) signature message := by
  have htag : PyBuilder.BuilderWrites (PyBuilder.ib "1000100") (TlB.uint 7 0b1000100) := by
    apply ib_writes_uint
    · exact List.all_eq_true.mp rfl
    · decide
  obtain ⟨b, hrun, hb⟩ := htag .new (by
    rw [BuilderData.new_toFragment, one_mul]
    exact (TlB.within_uint 7 _).fits (by decide) (by decide))
  have hfits : (b.toFragment * .ofBits w).Fits := by
    rw [hb, BuilderData.new_toFragment, one_mul]
    exact ((TlB.within_uint 7 _).mul (Fragment.within_ofBits w)).fits
      (by rw [hw]; decide) (by decide)
  have hbuild : ∀ k : Unit → Mut PyErr PyBuilder Unit,
      PyBuilder.build (PyBuilder.ib "1000100" >>= fun _ => PyBuilder.i 8 wc >>= k) =
        PyBuilder.build (PyBuilder.ib "1000100" >>= fun _ => PyBuilder.i 8 wc' >>= k) := by
    intro k
    rw [PyBuilder.build, PyBuilder.build, Mut.result, Mut.result, Mut.exec_bind_ok hrun,
      Mut.exec_bind_ok hrun, h.exec_bind_congr h' hfits]
  simp only [createExtMsg, Options.args, hbuild]

variable [LawfulNumBigint]

omit [Ed25519Keys] in
/-- The rest of the script does not look at the workchain. -/
theorem run_congr (o : Options) {wc : ℤ} (h : -128 ≤ wc ∧ wc ≤ 127) (addr : ℤ)
    (secret : List UInt8) (lines : List String) :
    run (o.args (wc % 2 ^ 32) addr secret) lines = run (o.args (sentWc wc) addr secret) lines := by
  have hcreate := createExtMsg_congr o (length_twos 8 (sentWc wc)) (PyBuilder.i_writes_loaded h)
    (PyBuilder.i_writes (by decide) (representable_sentWc h)) addr secret
  unfold run
  simp only [hcreate]
  rfl

omit [TonHashmaps] [TonCells] [Ed25519] [Ed25519Keys] [LawfulTonTypes] [LawfulNumBigint] in
theorem ordersOf_congr (o : Options) (wc wc' addr : ℤ) (secret : List UInt8)
    (lines : List String) :
    ordersOf (o.args wc addr secret) lines = ordersOf (o.args wc' addr secret) lines := by
  have horder : orderOf (o.args wc addr secret) = orderOf (o.args wc' addr secret) := rfl
  induction lines with
  | nil => rfl
  | cons line lines ih => rw [ordersOf, ordersOf, horder, ih]

/-! ### The message -/

variable [LawfulTonHashmaps]

/-- When the options have room, the key signs, and the lines make at most 255 orders, the
script returns a message that can be read to its end. It has the options, the orders and the
signature as they should be. It is for the account of the wallet, on its workchain exactly
when that is the masterchain or not negative, and on the masterchain otherwise. -/
theorem main_delivers {files : String → Except PyErr (List UInt8)} {o : Options} {wc : ℤ}
    {addr : ℕ} {secret : List UInt8} (hfiles : o.Files files wc addr secret)
    (h : (o.args wc addr secret).Deliverable)
    (hkey : ∀ data, ∃ signature, Ed25519.sign data secret = .ok signature ∧
      signature.length = 64) {lines : List String}
    (hlines : (ordersOf (o.args wc addr secret) lines).length = lines.length)
    (hle : lines.length ≤ 255) :
    ∃ ext w s r s', (main files o lines).exec Wallet.start = (.ok ext, w) ∧
      PySlice.create ext = .ok s ∧ Request.read.exec s = (.ok r, s') ∧ s'.content = 1 ∧
      r.Delivers (o.args (sentWc wc) addr secret) (ordersOf (o.args wc addr secret) lines) ∧
      w.signed = [reprHashBytes r.signed] ∧ (r.header.wc = wc ↔ -1 ≤ wc) := by
  have hwc : -128 ≤ wc ∧ wc ≤ 127 := h.wc
  have haddr : addr < 2 ^ 256 := by
    have hlt : (addr : ℤ) < 2 ^ 256 := h.addr.2
    exact_mod_cast hlt
  have hsent : (o.args (sentWc wc) addr secret).Deliverable :=
    { subwalletId_ge := h.subwalletId_ge
      expiry_ge := h.expiry_ge
      expiry_lt := h.expiry_lt
      wc := sentWc_range hwc
      addr := h.addr }
  rw [ordersOf_congr o wc (sentWc wc)] at hlines ⊢
  obtain ⟨ext, w, s, r, s', hrun, hcreate, hread, hs', hdelivers, hsigned⟩ :=
    run_delivers hsent hkey hlines hle
  refine ⟨ext, w, s, r, s', ?_, hcreate, hread, hs', hdelivers, hsigned, ?_⟩
  · rw [main_eq hfiles haddr, run_congr o hwc]
    exact hrun
  · rw [hdelivers.header]
    exact sentWc_eq_iff wc

end

section Reference

open scoped Reference Python.Ascii

/-- The options of `exampleArgs`. -/
def exampleOptions : Options where
  fileBase := "sample"
  subwalletId := 27172
  subwalletId_fits := (exampleArgs true).subwalletId_fits
  allowBounce := true
  forceBounce := false
  timeout := 60
  sendMode := 3

/-- Account zero of a workchain, and a key. -/
def sampleFiles (wc : ℤ) (filename : String) : Except PyErr (List UInt8) :=
  if filename = exampleOptions.addrFile then .ok (addressBytes wc 0)
  else .ok (List.replicate 32 0)

theorem sampleFiles_files (wc : ℤ) :
    exampleOptions.Files (sampleFiles wc) wc 0 (List.replicate 32 0) where
  addr := ⟨_, if_pos rfl, Or.inl rfl⟩
  key := if_neg (by decide)
  publicKey := ⟨_, rfl⟩

/-- A wallet on the masterchain gets its message. -/
theorem main_delivers_masterchain :
    ∃ ext w s r s', (main (sampleFiles (-1)) exampleOptions [coinLine.text]).exec Wallet.start =
        (.ok ext, w) ∧
      PySlice.create ext = .ok s ∧ Request.read.exec s = (.ok r, s') ∧ s'.content = 1 ∧
      r.Delivers (exampleOptions.args (sentWc (-1)) (0 : ℕ) (List.replicate 32 0))
        (ordersOf (exampleOptions.args (-1) (0 : ℕ) (List.replicate 32 0)) [coinLine.text]) ∧
      w.signed = [reprHashBytes r.signed] ∧ (r.header.wc = -1 ↔ (-1 : ℤ) ≤ -1) := by
  have hlines := ordersOf_lines (exampleOptions.args (-1) (0 : ℕ) (List.replicate 32 0)) [coinLine]
  exact main_delivers (sampleFiles_files (-1)) (by constructor <;> decide)
    (fun _ => ⟨_, rfl, length_word 64 _⟩) hlines.length_eq.symm (by decide)

end Reference

end HighloadWallet

end EverPlayground
