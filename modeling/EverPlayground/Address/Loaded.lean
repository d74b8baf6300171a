import EverPlayground.Address
import EverPlayground.Builder

/-!
# Addresses from files in messages

`load_address` reads the workchain of a file without its sign, and the scripts write what it
gives into a field of eight bits. A number that is too large for the field is cut off behind
its highest byte there, so that the masterchain is written as itself after all. Every other
negative workchain is written as the masterchain.

## Main definitions

* `IsAddressFile` — the two forms of an address file
* `sentWc` — the workchain that the field has

## Main results

* `loadAddress_eq` — what is read from either form
* `PyBuilder.i_writes_loaded` — what is written of it
-/

set_option autoImplicit false

namespace EverPlayground

open Math.Positional Math.TwosComplement Semantics Semantics.Cursor

/-- The workchain stands behind the account, or is left out when it is zero. -/
def IsAddressFile (wc : ℤ) (addr : ℕ) (bytes : List UInt8) : Prop :=
  bytes = addressBytes wc addr ∨ wc = 0 ∧ bytes = word 32 addr

def sentWc (wc : ℤ) : ℤ := max wc (-1)

theorem sentWc_eq_iff (wc : ℤ) : sentWc wc = wc ↔ -1 ≤ wc := max_eq_left_iff

theorem sentWc_range {wc : ℤ} (h : -128 ≤ wc ∧ wc ≤ 127) : -128 ≤ sentWc wc ∧ sentWc wc ≤ 127 := by
  rw [sentWc]
  omega

theorem representable_sentWc {wc : ℤ} (h : -128 ≤ wc ∧ wc ≤ 127) : Representable 8 (sentWc wc) := by
  obtain ⟨hlo, hhi⟩ := sentWc_range h
  exact ⟨hlo, by omega⟩

/-! ### Reading -/

theorem parseLoadAddress_at [Python.Unicode] (files : String → Except PyErr (List UInt8))
    (file : String) : parseLoadAddress files ("@" ++ file) = loadAddress files file := by
  have hlist : ("@" ++ file).toList = '@' :: file.toList := by
    rw [String.toList_append]
    rfl
  simp only [parseLoadAddress, hlist, String.ofList_toList]

open scoped Python.Ascii in
/-- Both forms are read without the sign of the workchain. -/
theorem loadAddress_eq {files : String → Except PyErr (List UInt8)} {file : String}
    {bytes : List UInt8} {wc : ℤ} {addr : ℕ} (haddr : addr < 2 ^ 256)
    (hbytes : IsAddressFile wc addr bytes) (hfile : files file = .ok bytes) :
    loadAddress files file = .ok (wc % 2 ^ 32, (addr : ℤ)) := by
  rcases hbytes with hbytes | ⟨hwc, hbytes⟩
  · rw [hbytes] at hfile
    have hload := parseLoadAddress_file haddr hfile
    rwa [parseLoadAddress_at] at hload
  · have hlen : bytes.length = 32 := by
      rw [hbytes, length_word]
    have haddr' : value bytes = addr := by
      rw [hbytes]
      exact value_word_of_lt (haddr.trans_eq (by norm_num))
    have hshort : ¬ bytes.length > 32 := by omega
    rw [loadAddress, hfile, ok_bind, List.take_of_length_le hlen.le, Python.fromBytes_eq_value,
      haddr', if_neg hshort, hwc]
    rfl

/-! ### Writing -/

namespace PyBuilder

variable [NumBigint] [LawfulNumBigint]

/-- The shortest buffer for a number has one byte more than the largest power of 256 in it. -/
theorem minimalLength_eq {l n : ℕ} (hlo : 256 ^ l ≤ n) (hhi : n < 256 ^ (l + 1)) :
    max (minimalLength n) 1 = l + 1 := by
  have hpow : ∀ k : ℕ, (2 : ℤ) ^ (8 * k) = ((256 ^ k : ℕ) : ℤ) := fun k => by
    rw [pow_mul]
    norm_num
  have hle : minimalLength n ≤ l + 1 := by
    rw [minimalLength_le_iff l.succ_pos, representable_iff (by omega), hpow]
    omega
  cases l with
  | zero => exact max_eq_right hle
  | succ l =>
    have hlt : ¬ minimalLength n ≤ l + 1 := by
      rw [minimalLength_le_iff l.succ_pos, representable_iff (by omega), hpow]
      omega
    omega

variable [TonTypes] [LawfulTonTypes]

/-- In a field of eight bits only the highest byte of a number is kept. -/
theorem i_byte_writes {l n : ℕ} (hlo : 256 ^ l ≤ n) (hhi : n < 256 ^ (l + 1)) :
    BuilderWrites (i 8 n) (TlB.uint 8 (n / 256 ^ l)) := by
  obtain ⟨buf, hbuf, hlen, hbits⟩ := intSerialize_denotes n 8
  have hpadding : padding 8 = 0 := rfl
  have hone : bitsToBytes 8 = 1 := rfl
  rw [hpadding, pow_zero, mul_one] at hlen hbits
  rw [hone, minimalLength_eq hlo hhi] at hlen
  have hfront : (bytesToBits buf).take 8 = word 8 (n / 256 ^ l) := by
    have hvalue : value (bytesToBits buf) = n := by
      zify
      rw [hbits, hlen]
      refine value_twos_of_nonneg (Int.natCast_nonneg n) ?_
      rw [pow_mul]
      exact_mod_cast hhi
    have hlength : (bytesToBits buf).length = 8 + 8 * l := by
      rw [length_bytesToBits, hlen]
      ring
    have htake : ((bytesToBits buf).take 8).length = 8 := by
      rw [List.length_take, hlength]
      omega
    have hshift := value_append_shiftRight ((bytesToBits buf).take 8) ((bytesToBits buf).drop 8)
    rw [List.take_append_drop, hvalue, List.length_drop, hlength, Nat.add_sub_cancel_left,
      Nat.shiftRight_eq_div_pow, pow_mul] at hshift
    rw [← word_value ((bytesToBits buf).take 8), htake, ← hshift]
    rfl
  have happ := writes_of_appends (LawfulTonTypes.appendRaw buf 8 (by omega))
  rw [hfront] at happ
  rw [i_eq_appendRaw (by decide) hbuf]
  exact happ

/-- The field has the workchain of the file, unless that is negative and not the masterchain. -/
theorem i_writes_loaded {wc : ℤ} (h : -128 ≤ wc ∧ wc ≤ 127) :
    BuilderWrites (i 8 (wc % 2 ^ 32)) (.ofBits (twos 8 (sentWc wc))) := by
  rcases lt_or_ge wc 0 with hneg | hnonneg
  · -- without its sign the workchain takes four bytes, and the highest of them is 255
    obtain ⟨n, hn⟩ := Int.eq_ofNat_of_zero_le (Int.emod_nonneg wc (b := 2 ^ 32) (by decide))
    have hmod : wc % 2 ^ 32 = wc + 2 ^ 32 := by
      rw [← Int.add_emod_right]
      exact Int.emod_eq_of_lt (by omega) (by omega)
    have htop : n / 256 ^ 3 = 255 := by omega
    have hwrites := i_byte_writes (l := 3) (n := n) (by omega) (by omega)
    have hsent : sentWc wc = -1 := by
      rw [sentWc]
      omega
    rw [hn, hsent]
    rw [htop] at hwrites
    exact hwrites
  · have hsent : sentWc wc = wc := by
      rw [sentWc_eq_iff]
      omega
    rw [Int.emod_eq_of_lt hnonneg (by omega), hsent]
    exact i_writes (by decide) ⟨h.1, by omega⟩

omit [NumBigint] [LawfulNumBigint] [TonTypes] [LawfulTonTypes] in
/-- Two calls that write the same can be exchanged in front of any others. -/
theorem BuilderWrites.exec_bind_congr {x y : Mut PyErr PyBuilder Unit} {f : Fragment}
    (hx : BuilderWrites x f) (hy : BuilderWrites y f) {b : PyBuilder}
    (hfits : (b.toFragment * f).Fits) (k : Unit → Mut PyErr PyBuilder Unit) :
    (x >>= k).exec b = (y >>= k).exec b := by
  obtain ⟨b₁, hx₁, hb₁⟩ := hx b hfits
  obtain ⟨b₂, hy₂, hb₂⟩ := hy b hfits
  obtain rfl : b₁ = b₂ := BuilderData.eq_of_toFragment_eq (hb₁.trans hb₂.symm)
  rw [Mut.exec_bind_ok hx₁, Mut.exec_bind_ok hy₂]

end PyBuilder

end EverPlayground
