import EverPlayground.HighloadWallet.Message

/-!
# External messages

The scripts send what they made to an account from outside of the chain. Such a message
begins with a header of fixed fields, without a source, without an import fee and without a
state; what the account is to read follows in the same cell.

## Main definitions

* `extHeaderLayout` — the header that the scripts write
* `ExtHeader.read` — its reader

## Main results

* `extHeader_writes`, `ExtHeader.read_reads` — the scripts write the layout, and the reader
  recovers the account
-/

set_option autoImplicit false

namespace EverPlayground

open Math.Positional Math.TwosComplement Semantics Semantics.Cursor
open HighloadWallet (ib_writes_uint)
open HighloadWallet.IntMsg (expect expect_reads)

/-- `ext_in_msg_info$10 src:addr_none$00`, an account of a workchain, no import fee, no state
and a body in the same cell. -/
def extHeaderLayout (wc : ℤ) (addr : ℕ) : Fragment :=
  TlB.uint 7 0b1000100 * (.ofBits (twos 8 wc) * (TlB.uint 256 addr *
    (Currency.encoding (Currency.amount 0).byteLength 0 * TlB.uint 2 0b00)))

/-- The fields of the header that have more than one value. -/
@[ext] structure ExtHeader where
  wc : ℤ
  addr : ℤ
  importFee : Currency

theorem length_extHeaderLayout (wc : ℤ) (addr : ℕ) :
    (extHeaderLayout wc addr).bits.length = 277 := by
  have hfee : (Currency.encoding (Currency.amount 0).byteLength 0).bits.length = 4 :=
    Currency.length_encoding _ 0
  simp only [extHeaderLayout, TlB.uint, Fragment.mul_bits, Fragment.ofBits_bits,
    List.length_append, length_word, length_twos, hfee]

theorem within_extHeaderLayout (wc : ℤ) (addr : ℕ) : (extHeaderLayout wc addr).Within 277 0 :=
  ⟨(length_extHeaderLayout wc addr).le, le_rfl⟩

section

variable [NumBigint] [TonTypes]

def ExtHeader.read : Mut PyErr PySlice ExtHeader := do
  expect 7 0b1000100
  let wc ← PySlice.i 8
  let addr ← PySlice.u 256
  let importFee ← Mut.withNew ⟨0⟩ Currency.deserialize
  expect 2 0b00
  pure { wc, addr, importFee }

variable [LawfulNumBigint] [LawfulTonTypes]

/-- The header is written in front of whatever follows. -/
theorem extHeader_writes {wc : ℤ} {addr : ℕ} {grams : PyBuilder} {x : Mut PyErr PyBuilder Unit}
    {f : Fragment} (hwc : -128 ≤ wc ∧ wc ≤ 127) (haddr : addr < 2 ^ 256)
    (hgrams : grams.toFragment = Currency.encoding (Currency.amount 0).byteLength 0)
    (hx : PyBuilder.BuilderWrites x f) :
    PyBuilder.BuilderWrites
      (do
        PyBuilder.ib "1000100"
        PyBuilder.i 8 wc
        PyBuilder.i 256 addr
        PyBuilder.b grams
        PyBuilder.ib "00"
        x)
      (extHeaderLayout wc addr * f) := by
  have hwc' : Representable 8 wc := ⟨hwc.1, by omega⟩
  have haddr' : PyBuilder.BuilderWrites (PyBuilder.i 256 addr) (TlB.uint 256 addr) :=
    PyBuilder.i_writes_uint (by decide) (Int.natCast_nonneg addr) (by exact_mod_cast haddr)
  have hfee := PyBuilder.b_writes grams
  rw [hgrams] at hfee
  have htag : PyBuilder.BuilderWrites (PyBuilder.ib "1000100") (TlB.uint 7 0b1000100) := by
    apply ib_writes_uint
    · exact List.all_eq_true.mp rfl
    · decide
  have hstate : PyBuilder.BuilderWrites (PyBuilder.ib "00") (TlB.uint 2 0b00) := by
    apply ib_writes_uint
    · exact List.all_eq_true.mp rfl
    · decide
  simp only [extHeaderLayout, mul_assoc]
  exact htag.seq ((PyBuilder.i_writes (by decide) hwc').seq
    (haddr'.seq (hfee.seq (hstate.seq hx))))

/-- What is read is the account that was written, whatever follows. -/
theorem ExtHeader.read_reads {wc : ℤ} {addr : ℕ} (hwc : -128 ≤ wc ∧ wc ≤ 127)
    (haddr : addr < 2 ^ 256) :
    Reads SliceData.content read (extHeaderLayout wc addr) ⟨wc, addr, Currency.amount 0⟩ := by
  have hwc' : Reads SliceData.content (PySlice.i 8) (.ofBits (twos 8 wc)) wc := by
    have hreads := PySlice.i_reads (twos 8 wc)
    rwa [length_twos, signed_twos (by omega)] at hreads
  have hfee := (Currency.deserialize_decodes (Currency.byteLength_lt (m := 0) (by positivity))
    (Currency.lt_of_byteLength 0) ⟨0⟩).withNew
  refine (expect_reads (by decide)).bind (hwc'.bind ((PySlice.u_reads_uint haddr).bind
    (hfee.bind ?_)))
  have hlast := (expect_reads (show 0b00 < 2 ^ 2 by decide)).bind (g := 1)
    (k := fun _ => pure (⟨wc, addr, Currency.amount 0⟩ : ExtHeader)) (Reads.pure _)
  rwa [mul_one] at hlast

end

end EverPlayground
