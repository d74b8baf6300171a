import EverPlayground.Python.Int
import EverPlayground.Utils

/-!
# Addresses

An account is given on the command line as `<workchain>:<hex>`, or as `@<file>` with the
account and the workchain in big-endian bytes. The two readers agree on the account.
They agree on the workchain only where its four bytes are the same number with and
without a sign: the file reader has no sign.

## Main results

* `parseLoadAddress_text`, `parseLoadAddress_file` — what either form is read as
* `parseLoadAddress_eq_iff` — both are read as the address written exactly when the
  workchain is not negative
-/

set_option autoImplicit false

namespace EverPlayground

open Math.Positional

section Methods

variable [Python.Unicode]

def parseSmcAddr (addrString : String) : Except PyErr (ℤ × ℤ) :=
  match addrString.toList.splitOn ':' with
  | [wc, addr] => do
    let wc ← (Python.int 10 wc).elim (.error .valueError) .ok
    let addr ← (Python.int 16 addr).elim (.error .valueError) .ok
    .ok (wc, addr)
  | _ => .error .assertionError

/-- `files` is the file system: the bytes of a file, or what `open` raises. -/
def loadAddress (files : String → Except PyErr (List UInt8)) (filename : String) :
    Except PyErr (ℤ × ℤ) := do
  let data ← files filename
  let addr := Python.fromBytes (data.take 32)
  let wc := if data.length > 32 then Python.fromBytes (data.drop 32) else 0
  .ok (wc, addr)

def parseLoadAddress (files : String → Except PyErr (List UInt8)) (addr : String) :
    Except PyErr (ℤ × ℤ) :=
  match addr.toList with
  | '@' :: filename => loadAddress files (.ofList filename)
  | _ => parseSmcAddr addr

end Methods

/-! ### Writing an address -/

/-- The account as 32 bytes, then the workchain as four bytes in two's complement. -/
def addressBytes (wc : ℤ) (addr : ℕ) : List UInt8 :=
  word 32 addr ++ word 4 (wc % 2 ^ 32).toNat

/-- The text is the account in 64 hexadecimal digits. -/
def SpellsAccount (text : String) (addr : ℕ) : Prop :=
  text.toList.map (Python.digitValue 16) =
    (word 64 addr : List (Fin 16)).map fun d => some d.val

def addressText (wc : ℤ) (account : String) : String := toString wc ++ ":" ++ account

theorem SpellsAccount.length {text : String} {addr : ℕ} (h : SpellsAccount text addr) :
    text.toList.length = 64 := by
  have hlen := congrArg List.length h
  rwa [List.length_map, List.length_map, length_word] at hlen

/-- Characters that are not hexadecimal digits do not occur. -/
theorem SpellsAccount.not_mem {text : String} {addr : ℕ} (h : SpellsAccount text addr)
    {c : Char} (hc : Python.digitValue 16 c = none) : c ∉ text.toList := by
  intro hmem
  have hmap : Python.digitValue 16 c ∈ (word 64 addr : List (Fin 16)).map fun d => some d.val :=
    h ▸ List.mem_map_of_mem hmem
  obtain ⟨d, -, hd⟩ := List.mem_map.mp hmap
  rw [hc] at hd
  exact absurd hd (Option.some_ne_none _)

theorem mem_toString {n : ℤ} {c : Char} (h : c ∈ (toString n).toList) :
    c = '-' ∨ c.isDigit = true := by
  rw [Python.toList_toString] at h
  rcases List.mem_append.mp h with h | h
  · by_cases hneg : n < 0
    · rw [if_pos hneg] at h
      exact Or.inl (List.mem_singleton.mp h)
    · rw [if_neg hneg] at h
      exact absurd h List.not_mem_nil
  · exact Or.inr (Nat.isDigit_of_mem_toDigits (by decide) le_rfl h)

section

variable [Python.Unicode] [Python.LawfulUnicode]

/-! ### Reading it back -/

omit [Python.Unicode] [Python.LawfulUnicode] in
theorem toList_addressText (wc : ℤ) (account : String) :
    (addressText wc account).toList = (toString wc).toList ++ ':' :: account.toList := by
  rw [addressText, String.toList_append, String.toList_append, List.append_assoc]
  rfl

theorem parseSmcAddr_eq {wc : ℤ} {addr : ℕ} {account : String} (hlo : -(2 ^ 31) ≤ wc)
    (hhi : wc < 2 ^ 31) (haddr : addr < 2 ^ 256) (haccount : SpellsAccount account addr) :
    parseSmcAddr (addressText wc account) = .ok (wc, (addr : ℤ)) := by
  -- the only colon is the one between the two numbers
  have hcolon : ':' ∉ (toString wc).toList := by
    intro hmem
    rcases mem_toString hmem with h | h
    · exact absurd h (by decide)
    · exact absurd h (by decide)
  have hsplit : (addressText wc account).toList.splitOn ':' =
      [(toString wc).toList, account.toList] := by
    rw [toList_addressText, List.splitOn_append_cons_self_of_not_mem hcolon,
      List.splitOn_eq_singleton (haccount.not_mem (by decide))]
  -- the workchain is not too long to be converted
  have hwc : Python.int 10 (toString wc).toList = some wc := by
    apply Python.int_toString
    have hten : (Nat.toDigits 10 wc.natAbs).length ≤ 10 :=
      (Nat.length_toDigits_le_iff (by decide) (by decide)).mpr (by omega)
    exact hten.trans (by decide)
  have hhex : Python.int 16 account.toList = some (addr : ℤ) := by
    have hlen := haccount.length
    have hne : account.toList ≠ [] := List.ne_nil_of_length_pos (by omega)
    have hint := Python.int_word (by decide) hne haccount
    rwa [value_word_of_lt (haddr.trans_eq (by norm_num))] at hint
  simp only [parseSmcAddr, hsplit, hwc, hhex]
  rfl

/-- The text form is read as it was written, also on negative workchains. -/
theorem parseLoadAddress_text (files : String → Except PyErr (List UInt8)) {wc : ℤ} {addr : ℕ}
    {account : String} (hlo : -(2 ^ 31) ≤ wc) (hhi : wc < 2 ^ 31) (haddr : addr < 2 ^ 256)
    (haccount : SpellsAccount account addr) :
    parseLoadAddress files (addressText wc account) = .ok (wc, (addr : ℤ)) := by
  have hparse := parseSmcAddr_eq hlo hhi haddr haccount
  unfold parseLoadAddress
  split
  · next filename hfilename =>
    -- the first character is a sign or a digit, or the colon
    rw [toList_addressText] at hfilename
    cases htext : (toString wc).toList with
    | nil =>
      rw [htext] at hfilename
      exact absurd (List.cons.inj hfilename).1 (by decide)
    | cons c cs =>
      rw [htext] at hfilename
      have hc : c = '@' := (List.cons.inj hfilename).1
      have hmem : c ∈ (toString wc).toList := htext ▸ List.mem_cons_self
      rw [hc] at hmem
      rcases mem_toString hmem with h | h
      · exact absurd h (by decide)
      · exact absurd h (by decide)
  · exact hparse

omit [Python.LawfulUnicode] in
/-- The file form is read without the sign of the workchain. -/
theorem parseLoadAddress_file {files : String → Except PyErr (List UInt8)} {file : String}
    {wc : ℤ} {addr : ℕ} (haddr : addr < 2 ^ 256)
    (hfile : files file = .ok (addressBytes wc addr)) :
    parseLoadAddress files ("@" ++ file) = .ok (wc % 2 ^ 32, (addr : ℤ)) := by
  have hlist : ("@" ++ file).toList = '@' :: file.toList := by
    rw [String.toList_append]
    rfl
  have hwc : ((value (word 4 (wc % 2 ^ 32).toNat : List UInt8) : ℕ) : ℤ) = wc % 2 ^ 32 := by
    have hpos := Int.emod_nonneg wc (b := 2 ^ 32) (by decide)
    have hlt := Int.emod_lt_of_pos wc (b := 2 ^ 32) (by decide)
    rw [value_word_of_lt (by omega)]
    omega
  have haddr' : value (word 32 addr : List UInt8) = addr :=
    value_word_of_lt (haddr.trans_eq (by norm_num))
  have htake : (addressBytes wc addr).take 32 = word 32 addr :=
    List.take_left' (length_word 32 addr)
  have hdrop : (addressBytes wc addr).drop 32 = word 4 (wc % 2 ^ 32).toNat :=
    List.drop_left' (length_word 32 addr)
  -- a file of 32 bytes would be of the workchain zero
  have hlen : (addressBytes wc addr).length > 32 := by
    rw [addressBytes, List.length_append, length_word, length_word]
    decide
  simp only [parseLoadAddress, hlist, loadAddress, String.ofList_toList, hfile,
    Python.fromBytes_eq_value]
  change Except.ok _ = _
  rw [htake, hdrop, if_pos hlen, haddr', hwc]

/-- For a 32-bit workchain and a 256-bit account, both forms are read as the address
they were written for exactly when the workchain is not negative. -/
theorem parseLoadAddress_eq_iff {files : String → Except PyErr (List UInt8)}
    {file account : String} {wc : ℤ} {addr : ℕ} (hlo : -(2 ^ 31) ≤ wc) (hhi : wc < 2 ^ 31)
    (haddr : addr < 2 ^ 256) (hfile : files file = .ok (addressBytes wc addr))
    (haccount : SpellsAccount account addr) :
    (parseLoadAddress files ("@" ++ file) = .ok (wc, (addr : ℤ)) ∧
      parseLoadAddress files (addressText wc account) = .ok (wc, (addr : ℤ))) ↔ 0 ≤ wc := by
  rw [parseLoadAddress_file haddr hfile, parseLoadAddress_text files hlo hhi haddr haccount]
  constructor
  · rintro ⟨h, -⟩
    -- what the file form is read as is never negative
    have hwc : wc % 2 ^ 32 = wc := congrArg Prod.fst (Except.ok.inj h)
    rw [← hwc]
    exact Int.emod_nonneg wc (by decide)
  · intro h
    rw [Int.emod_eq_of_lt h (hhi.trans (by decide))]
    exact ⟨rfl, rfl⟩

end

section Ascii

open scoped Python.Ascii

/-- Account zero of a workchain, in a file `wallet.addr`. -/
def walletFile (wc : ℤ) (filename : String) : Except PyErr (List UInt8) :=
  if filename = "wallet.addr" then .ok (addressBytes wc 0)
  else .error (.fileNotFoundError filename)

def zeroAccount : String := .ofList (List.replicate 64 '0')

theorem toList_zeroAccount : zeroAccount.toList = List.replicate 64 '0' := String.toList_ofList

theorem zeroAccount_spells : SpellsAccount zeroAccount 0 := by
  have hdigits : (word 64 0 : List (Fin 16)) = List.replicate 64 0 := by
    rfl
  have hdigit : Python.digitValue 16 '0' = some 0 := by
    decide
  calc zeroAccount.toList.map (Python.digitValue 16)
      = (List.replicate 64 '0').map (Python.digitValue 16) := by
        rw [toList_zeroAccount]
    _ = List.replicate 64 (some 0) := by
        rw [List.map_replicate, hdigit]
    _ = (word 64 0 : List (Fin 16)).map fun d => some d.val := by
        rw [hdigits, List.map_replicate]
        rfl

theorem walletFile_eq (wc : ℤ) : walletFile wc "wallet.addr" = .ok (addressBytes wc 0) :=
  if_pos rfl

theorem parseLoadAddress_eq_iff_basechain :
    (parseLoadAddress (walletFile 0) ("@" ++ "wallet.addr") = .ok (0, 0) ∧
      parseLoadAddress (walletFile 0) (addressText 0 zeroAccount) = .ok (0, 0)) ↔
        (0 : ℤ) ≤ 0 :=
  parseLoadAddress_eq_iff (by decide) (by decide) (by decide) (walletFile_eq 0) zeroAccount_spells

/-- On the masterchain the two forms differ. -/
theorem parseLoadAddress_masterchain :
    parseLoadAddress (walletFile (-1)) ("@" ++ "wallet.addr") = .ok (4294967295, 0) ∧
      parseLoadAddress (walletFile (-1)) (addressText (-1) zeroAccount) = .ok (-1, 0) ∧
      parseLoadAddress (walletFile (-1)) ("@" ++ "wallet.addr") ≠
        parseLoadAddress (walletFile (-1)) (addressText (-1) zeroAccount) := by
  have hfile : parseLoadAddress (walletFile (-1)) ("@" ++ "wallet.addr") = .ok (4294967295, 0) :=
    parseLoadAddress_file (by decide) (walletFile_eq (-1))
  have htext : parseLoadAddress (walletFile (-1)) (addressText (-1) zeroAccount) = .ok (-1, 0) :=
    parseLoadAddress_text _ (by decide) (by decide) (by decide) zeroAccount_spells
  refine ⟨hfile, htext, fun h => ?_⟩
  rw [hfile, htext] at h
  exact absurd (congrArg Prod.fst (Except.ok.inj h)) (by decide)

end Ascii

end EverPlayground
