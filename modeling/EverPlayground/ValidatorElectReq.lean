import EverPlayground.Address.Adnl
import EverPlayground.Currency
import EverPlayground.Semantics.Mutation

/-!
# Requests to take part in validator elections

The script checks its arguments and writes them into a string of bytes of fixed length, which
is signed later. The wallet may be given as text or as a file, and the stake factor is a
rational that is rounded down to a multiple of `2 ^ -16`.

## Main definitions

* `run` — the script, up to the bytes that it saves
* `Request`, `Request.bytes` — the numbers that are signed, and the bytes
* `Accepts` — the arguments stand for the request

## Main results

* `run_eq_bytes_iff` — which arguments are accepted
* `request_eq_of_run` — the bytes determine the request
-/

set_option autoImplicit false

namespace EverPlayground

open Math.Positional Semantics

namespace ValidatorElectReq

/-- The arguments on the command line. -/
structure Args where
  walletAddr : String
  electUtime : String
  maxFactor : String
  adnlAddr : String

def abortIf (p : Prop) [Decidable p] (message : String) : Except PyErr PUnit :=
  if p then .error (.exception message) else .ok ⟨⟩

/-- The first four bytes. -/
def electTag : ℕ := 0x654c5074

/-- `v.to_bytes(len, "big")`. -/
def bb (len : ℕ) (v : ℤ) : Except PyErr (List UInt8) :=
  (Python.toBytes len v).elim (.error .overflowError) .ok

/-- What the arguments are read as. -/
structure Numbers where
  srcAddr : ℤ
  electTime : ℤ
  maxFactor : ℤ
  adnlAddr : ℤ

def bytesOf (n : Numbers) : Except PyErr (List UInt8) := do
  let tag ← bb 4 electTag
  let time ← bb 4 n.electTime
  let factor ← bb 4 n.maxFactor
  let src ← bb 32 n.srcAddr
  let adnl ← bb 32 n.adnlAddr
  .ok (tag ++ time ++ factor ++ src ++ adnl)

section

variable [Python.Unicode]

def parseArgs (files : String → Except PyErr (List UInt8)) (args : Args) :
    Except PyErr Numbers := do
  let (srcWc, srcAddr) ← parseLoadAddress files args.walletAddr
  abortIf (srcWc ≠ -1) "only masterchain smartcontracts may participate in validator elections"
  let electTime ← (Python.int 10 args.electUtime.toList).elim (.error .valueError) .ok
  abortIf (electTime < 0) "<elect-utime> must be a positive integer"
  let fraction ← (Python.fraction args.maxFactor.toList).mapError fractionErr
  let maxFactor := Python.truncate (fraction * 2 ^ 16)
  abortIf (¬ (65536 ≤ maxFactor ∧ maxFactor ≤ 6553600))
    "<max-factor> must be a real number 1..100"
  let adnlAddr ← parseAdnlAddress args.adnlAddr
  .ok { srcAddr, electTime, maxFactor, adnlAddr }

def run (files : String → Except PyErr (List UInt8)) (args : Args) :
    Except PyErr (List UInt8) := do
  let n ← parseArgs files args
  bytesOf n

end

/-! ### Requests -/

/-- The numbers have room for their bytes, and the factor is from 1 to 100. -/
@[ext] structure Request where
  electTime : ℕ
  maxFactor : ℕ
  srcAddr : ℕ
  adnlAddr : ℕ
  electTime_lt : electTime < 2 ^ 32
  le_maxFactor : 65536 ≤ maxFactor
  maxFactor_le : maxFactor ≤ 6553600
  srcAddr_lt : srcAddr < 2 ^ 256
  adnlAddr_lt : adnlAddr < 2 ^ 256

namespace Request

def bytes (r : Request) : List UInt8 :=
  word 4 electTag ++ word 4 r.electTime ++ word 4 r.maxFactor ++ word 32 r.srcAddr ++
    word 32 r.adnlAddr

theorem length_bytes (r : Request) : r.bytes.length = 76 := by
  simp only [bytes, List.length_append, length_word]

/-- No two requests are written alike. -/
theorem bytes_injective : Function.Injective bytes := by
  intro r r' h
  have hword : ∀ {w m n : ℕ}, m < 256 ^ w → n < 256 ^ w →
      (word w m : List UInt8) = word w n → m = n := by
    intro w m n hm hn heq
    rw [← value_word_of_lt (α := UInt8) hm, heq, value_word_of_lt hn]
  obtain ⟨h, hadnl⟩ := List.append_inj' h (by simp only [length_word])
  obtain ⟨h, hsrc⟩ := List.append_inj' h (by simp only [length_word])
  obtain ⟨h, hfactor⟩ := List.append_inj' h (by simp only [length_word])
  obtain ⟨-, htime⟩ := List.append_inj' h (by simp only [length_word])
  have hfactor_lt : ∀ r : Request, r.maxFactor < 256 ^ 4 := fun r =>
    r.maxFactor_le.trans_lt (by decide)
  apply Request.ext
  · exact hword (r.electTime_lt.trans_eq (by decide)) (r'.electTime_lt.trans_eq (by decide)) htime
  · exact hword (hfactor_lt r) (hfactor_lt r') hfactor
  · exact hword (r.srcAddr_lt.trans_eq (by decide)) (r'.srcAddr_lt.trans_eq (by decide)) hsrc
  · exact hword (r.adnlAddr_lt.trans_eq (by decide)) (r'.adnlAddr_lt.trans_eq (by decide)) hadnl

end Request

/-! ### What is accepted -/

theorem abortIf_eq_ok_iff {p : Prop} [Decidable p] {message : String} {a : PUnit} :
    abortIf p message = .ok a ↔ ¬ p := by
  unfold abortIf
  split_ifs with h
  · exact iff_of_false nofun (not_not_intro h)
  · exact iff_of_true rfl h

theorem bb_eq_ok_iff {len : ℕ} {v : ℤ} {bytes : List UInt8} :
    bb len v = .ok bytes ↔ ∃ m : ℕ, m < 256 ^ len ∧ v = m ∧ bytes = word len m := by
  rw [← Python.toBytes_eq_some_iff, bb]
  cases Python.toBytes len v <;> simp

/-- The numbers of a request, and no others, are written. -/
theorem bytesOf_eq_ok_iff {n : Numbers} {bytes : List UInt8}
    (h : 65536 ≤ n.maxFactor ∧ n.maxFactor ≤ 6553600) :
    bytesOf n = .ok bytes ↔ ∃ r : Request, n = ⟨r.srcAddr, r.electTime, r.maxFactor, r.adnlAddr⟩ ∧
      bytes = r.bytes := by
  obtain ⟨srcAddr, electTime, maxFactor, adnlAddr⟩ := n
  have htag : bb 4 electTag = .ok (word 4 electTag) :=
    bb_eq_ok_iff.mpr ⟨electTag, by decide, rfl, rfl⟩
  rw [bytesOf, htag, ok_bind]
  constructor
  · intro hrun
    obtain ⟨time, htime, hrun⟩ := bind_eq_ok_iff.mp hrun
    obtain ⟨factor, hfactor, hrun⟩ := bind_eq_ok_iff.mp hrun
    obtain ⟨src, hsrc, hrun⟩ := bind_eq_ok_iff.mp hrun
    obtain ⟨adnl, hadnl, hrun⟩ := bind_eq_ok_iff.mp hrun
    obtain ⟨m₁, hm₁, h₁, hword₁⟩ := bb_eq_ok_iff.mp htime
    obtain ⟨m₂, -, h₂, hword₂⟩ := bb_eq_ok_iff.mp hfactor
    obtain ⟨m₃, hm₃, h₃, hword₃⟩ := bb_eq_ok_iff.mp hsrc
    obtain ⟨m₄, hm₄, h₄, hword₄⟩ := bb_eq_ok_iff.mp hadnl
    have hbytes : bytes = word 4 electTag ++ word 4 m₁ ++ word 4 m₂ ++ word 32 m₃ ++
        word 32 m₄ := by
      rw [← Except.ok.inj hrun, hword₁, hword₂, hword₃, hword₄]
    dsimp only at h h₁ h₂ h₃ h₄
    subst h₁ h₂ h₃ h₄
    exact ⟨{ electTime := m₁, maxFactor := m₂, srcAddr := m₃, adnlAddr := m₄
             electTime_lt := hm₁.trans_eq (by norm_num)
             le_maxFactor := by exact_mod_cast h.1
             maxFactor_le := by exact_mod_cast h.2
             srcAddr_lt := hm₃.trans_eq (by norm_num)
             adnlAddr_lt := hm₄.trans_eq (by norm_num) }, rfl, hbytes⟩
  · rintro ⟨r, hr, rfl⟩
    cases hr
    refine bind_eq_ok_iff.mpr ⟨_, bb_eq_ok_iff.mpr
      ⟨r.electTime, r.electTime_lt.trans_eq (by norm_num), rfl, rfl⟩, ?_⟩
    refine bind_eq_ok_iff.mpr ⟨_, bb_eq_ok_iff.mpr
      ⟨r.maxFactor, r.maxFactor_le.trans_lt (by norm_num), rfl, rfl⟩, ?_⟩
    refine bind_eq_ok_iff.mpr ⟨_, bb_eq_ok_iff.mpr
      ⟨r.srcAddr, r.srcAddr_lt.trans_eq (by norm_num), rfl, rfl⟩, ?_⟩
    refine bind_eq_ok_iff.mpr ⟨_, bb_eq_ok_iff.mpr
      ⟨r.adnlAddr, r.adnlAddr_lt.trans_eq (by norm_num), rfl, rfl⟩, ?_⟩
    rfl

/-- The check of the rounded factor is one of the factor. -/
theorem maxFactor_check_iff (q : ℚ) :
    (65536 ≤ Python.truncate (q * 2 ^ 16) ∧ Python.truncate (q * 2 ^ 16) ≤ 6553600) ↔
      1 ≤ q ∧ q < 100 + 1 / 65536 := by
  have hlo := Python.truncate_lt_iff (q * 2 ^ 16) (n := 65536) (by decide)
  have hhi := Python.truncate_lt_iff (q * 2 ^ 16) (n := 6553601) (by decide)
  have hlo' : q * 2 ^ 16 < ((65536 : ℤ) : ℚ) ↔ q < 1 := by
    constructor <;> intro h <;> norm_num at h ⊢ <;> linarith
  have hhi' : q * 2 ^ 16 < ((6553601 : ℤ) : ℚ) ↔ q < 100 + 1 / 65536 := by
    constructor <;> intro h <;> norm_num at h ⊢ <;> linarith
  rw [← hhi', ← hhi, ← not_lt (a := q), ← hlo', ← hlo]
  omega

section

variable [Python.Unicode]

/-- A workchain that is read from a file is never the masterchain. -/
theorem parseLoadAddress_masterchain_iff {files : String → Except PyErr (List UInt8)}
    {addr : String} {account : ℤ} :
    parseLoadAddress files addr = .ok (-1, account) ↔
      addr.toList.head? ≠ some '@' ∧ parseSmcAddr addr = .ok (-1, account) := by
  unfold parseLoadAddress
  split
  · next filename hfilename =>
    refine iff_of_false (fun h => ?_) fun h => h.1 (by rw [hfilename, List.head?_cons])
    -- big-endian bytes without a sign
    obtain ⟨data, -, h⟩ := bind_eq_ok_iff.mp h
    have hwc : ((if data.length > 32 then Python.fromBytes (data.drop 32) else 0 : ℕ) : ℤ) = -1 :=
      congrArg Prod.fst (Except.ok.inj h)
    omega
  · next hnot =>
    refine (and_iff_right fun h => ?_).symm
    obtain ⟨filename, hfilename⟩ := List.head?_eq_some_iff.mp h
    exact hnot filename hfilename

/-- The arguments are accepted as these numbers: the wallet is given as text and on the
masterchain, and the factor is rounded down. -/
structure Accepts (args : Args) (n : Numbers) : Prop where
  not_file : args.walletAddr.toList.head? ≠ some '@'
  wallet : parseSmcAddr args.walletAddr = .ok (-1, n.srcAddr)
  electTime : Python.int 10 args.electUtime.toList = some n.electTime ∧ 0 ≤ n.electTime
  maxFactor : ∃ q : ℚ, Python.fraction args.maxFactor.toList = .ok q ∧
    (1 ≤ q ∧ q < 100 + 1 / 65536) ∧ n.maxFactor = ⌊q * 2 ^ 16⌋
  adnlAddr : parseAdnlAddress args.adnlAddr = .ok n.adnlAddr

theorem parseArgs_eq_ok_iff (files : String → Except PyErr (List UInt8)) (args : Args)
    (n : Numbers) : parseArgs files args = .ok n ↔ Accepts args n := by
  have htruncate : ∀ {q : ℚ}, 1 ≤ q ∧ q < 100 + 1 / 65536 →
      Python.truncate (q * 2 ^ 16) = ⌊q * 2 ^ 16⌋ := by
    rintro q ⟨hq, -⟩
    exact Python.truncate_eq_floor (by positivity)
  constructor
  · intro hrun
    obtain ⟨⟨srcWc, srcAddr⟩, hwallet, hrun⟩ := bind_eq_ok_iff.mp hrun
    obtain ⟨_, hmaster, hrun⟩ := bind_eq_ok_iff.mp hrun
    obtain ⟨electTime, htime, hrun⟩ := bind_eq_ok_iff.mp hrun
    obtain ⟨_, hnonneg, hrun⟩ := bind_eq_ok_iff.mp hrun
    obtain ⟨q, hq, hrun⟩ := bind_eq_ok_iff.mp hrun
    obtain ⟨_, hfactor, hrun⟩ := bind_eq_ok_iff.mp hrun
    obtain ⟨adnlAddr, hadnl, hrun⟩ := bind_eq_ok_iff.mp hrun
    cases hrun
    obtain rfl : srcWc = -1 := not_not.mp (abortIf_eq_ok_iff.mp hmaster)
    have hq' := (maxFactor_check_iff q).mp (not_not.mp (abortIf_eq_ok_iff.mp hfactor))
    obtain ⟨hnot, hsmc⟩ := parseLoadAddress_masterchain_iff.mp hwallet
    exact
      { not_file := hnot
        wallet := hsmc
        electTime := ⟨elim_eq_ok_iff.mp htime, not_lt.mp (abortIf_eq_ok_iff.mp hnonneg)⟩
        maxFactor := ⟨q, mapError_eq_ok_iff.mp hq, hq', htruncate hq'⟩
        adnlAddr := hadnl }
  · intro h
    obtain ⟨q, hq, hq', hfloor⟩ := h.maxFactor
    have hmax : n.maxFactor = Python.truncate (q * 2 ^ 16) := hfloor.trans (htruncate hq').symm
    refine bind_eq_ok_iff.mpr
      ⟨_, parseLoadAddress_masterchain_iff.mpr ⟨h.not_file, h.wallet⟩, ?_⟩
    refine bind_eq_ok_iff.mpr ⟨⟨⟩, abortIf_eq_ok_iff.mpr (not_not_intro rfl), ?_⟩
    refine bind_eq_ok_iff.mpr ⟨_, elim_eq_ok_iff.mpr h.electTime.1, ?_⟩
    refine bind_eq_ok_iff.mpr ⟨⟨⟩, abortIf_eq_ok_iff.mpr (not_lt.mpr h.electTime.2), ?_⟩
    refine bind_eq_ok_iff.mpr ⟨_, mapError_eq_ok_iff.mpr hq, ?_⟩
    refine bind_eq_ok_iff.mpr ⟨⟨⟩, abortIf_eq_ok_iff.mpr (not_not_intro
      ((maxFactor_check_iff q).mpr hq')), ?_⟩
    refine bind_eq_ok_iff.mpr ⟨_, h.adnlAddr, ?_⟩
    rw [← hmax]

theorem Accepts.maxFactor_range {args : Args} {n : Numbers} (h : Accepts args n) :
    65536 ≤ n.maxFactor ∧ n.maxFactor ≤ 6553600 := by
  obtain ⟨q, -, hq, hfloor⟩ := h.maxFactor
  have hrange := (maxFactor_check_iff q).mpr hq
  have hq₀ := hq.1
  rwa [Python.truncate_eq_floor (by positivity), ← hfloor] at hrange

/-- The numbers of a request. -/
def Request.numbers (r : Request) : Numbers := ⟨r.srcAddr, r.electTime, r.maxFactor, r.adnlAddr⟩

/-- The script accepts the arguments that stand for a request, and writes its bytes. No
wallet that is given as a file is among them. -/
theorem run_eq_bytes_iff (files : String → Except PyErr (List UInt8)) (args : Args)
    (bytes : List UInt8) :
    run files args = .ok bytes ↔ ∃ r : Request, Accepts args r.numbers ∧ bytes = r.bytes := by
  rw [run, bind_eq_ok_iff]
  constructor
  · rintro ⟨n, hparse, hbytes⟩
    have h := (parseArgs_eq_ok_iff files args n).mp hparse
    obtain ⟨r, rfl, rfl⟩ := (bytesOf_eq_ok_iff h.maxFactor_range).mp hbytes
    exact ⟨r, h, rfl⟩
  · rintro ⟨r, h, rfl⟩
    exact ⟨_, (parseArgs_eq_ok_iff files args _).mpr h,
      (bytesOf_eq_ok_iff h.maxFactor_range).mpr ⟨r, rfl, rfl⟩⟩

/-- What is signed for one list of arguments is not for another that stands for something
else. -/
theorem request_eq_of_run {files files' : String → Except PyErr (List UInt8)} {args args' : Args}
    {bytes : List UInt8} (h : run files args = .ok bytes) (h' : run files' args' = .ok bytes) :
    bytes.length = 76 ∧
      ∃ n, parseArgs files args = .ok n ∧ parseArgs files' args' = .ok n := by
  obtain ⟨n, hn, hbytes⟩ := bind_eq_ok_iff.mp h
  obtain ⟨n', hn', hbytes'⟩ := bind_eq_ok_iff.mp h'
  have hrange := ((parseArgs_eq_ok_iff files args n).mp hn).maxFactor_range
  have hrange' := ((parseArgs_eq_ok_iff files' args' n').mp hn').maxFactor_range
  obtain ⟨r, rfl, hr⟩ := (bytesOf_eq_ok_iff hrange).mp hbytes
  obtain ⟨r', rfl, hr'⟩ := (bytesOf_eq_ok_iff hrange').mp hbytes'
  obtain rfl : r = r' := Request.bytes_injective (hr.symm.trans hr')
  exact ⟨by rw [hr, r.length_bytes], _, hn, hn'⟩

end

section Reference

open scoped Python.Ascii

/-- A stake factor of three halves, for the account zero of the masterchain. -/
def exampleArgs : Args := ⟨addressText (-1) zeroAccount, "1700000000", "3/2", zeroAccount⟩

def exampleRequest : Request where
  electTime := 1700000000
  maxFactor := 98304
  srcAddr := 0
  adnlAddr := 0
  electTime_lt := by decide
  le_maxFactor := by decide
  maxFactor_le := by decide
  srcAddr_lt := by decide
  adnlAddr_lt := by decide

theorem fraction_exampleArgs : Python.fraction exampleArgs.maxFactor.toList = .ok (3 / 2) := by
  have hmatch : Python.matchRational "3/2".toList = some ⟨false, ['3'], ['2'], [], []⟩ := rfl
  have hnum : Python.groupInt ['3'] = .ok 3 := rfl
  have hdenom : Python.groupInt ['2'] = .ok 2 := rfl
  rw [exampleArgs, Python.fraction, hmatch]
  change Python.Groups.value _ = _
  rw [Python.value_ratio false (by decide) hnum hdenom (by decide)]
  norm_num

theorem exampleArgs_accepts : Accepts exampleArgs exampleRequest.numbers := by
  have hint : Python.int 16 zeroAccount.toList = some 0 := by
    have hne : zeroAccount.toList ≠ [] := by
      rw [toList_zeroAccount]
      decide
    have hword := Python.int_word (by decide) hne zeroAccount_spells
    rwa [value_word_of_lt (by decide)] at hword
  constructor
  case not_file =>
    rw [exampleArgs, toList_addressText]
    decide
  case wallet => exact parseSmcAddr_eq (by decide) (by decide) (by decide) zeroAccount_spells
  case electTime => exact ⟨rfl, by decide⟩
  case maxFactor =>
    refine ⟨3 / 2, fraction_exampleArgs, by norm_num, ?_⟩
    have hfloor : ⌊(3 / 2 : ℚ) * 2 ^ 16⌋ = 98304 := by norm_num
    rw [hfloor]
    rfl
  case adnlAddr =>
    refine parseAdnlAddress_eq_ok_iff.mpr ⟨?_, hint⟩
    rw [exampleArgs, ← String.length_toList, toList_zeroAccount, List.length_replicate]

theorem run_exampleArgs (files : String → Except PyErr (List UInt8)) :
    run files exampleArgs = .ok exampleRequest.bytes :=
  bind_eq_ok_iff.mpr ⟨_, (parseArgs_eq_ok_iff files exampleArgs _).mpr exampleArgs_accepts,
    (bytesOf_eq_ok_iff exampleArgs_accepts.maxFactor_range).mpr ⟨exampleRequest, rfl, rfl⟩⟩

theorem request_eq_of_run_exampleArgs :
    exampleRequest.bytes.length = 76 ∧
      ∃ n, parseArgs (walletFile 0) exampleArgs = .ok n ∧
        parseArgs (walletFile (-1)) exampleArgs = .ok n :=
  request_eq_of_run (run_exampleArgs (walletFile 0)) (run_exampleArgs (walletFile (-1)))

end Reference

end ValidatorElectReq

end EverPlayground
