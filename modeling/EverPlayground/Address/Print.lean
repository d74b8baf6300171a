import EverPlayground.Address
import EverPlayground.Python.Format

/-!
# Printed addresses

The scripts print an address as the workchain and, behind a colon, the account in at least
64 hexadecimal digits. A text that is accepted as an address may be spelled in many ways, with
signs, blanks, underscores, prefixes and zeros; what is printed of it is accepted too, and is
one text for every address.

## Main definitions

* `printAddress` — the text that the scripts print

## Main results

* `printAddress_exact` — it is read as the address that it was printed for, and tells
  addresses apart
-/

set_option autoImplicit false

namespace EverPlayground

open Semantics

/-- `f"{wc}:{addr:064x}"`. -/
def printAddress (wc addr : ℤ) : String :=
  toString wc ++ ":" ++ .ofList (Python.hexText 64 addr)

section

theorem toList_printAddress (wc addr : ℤ) :
    (printAddress wc addr).toList = (toString wc).toList ++ ':' :: Python.hexText 64 addr := by
  rw [printAddress, String.toList_append, String.toList_append, List.append_assoc]
  exact congrArg ((toString wc).toList ++ ':' :: ·) String.toList_ofList

/-- The only colon is the one between the two numbers. -/
theorem splitOn_printAddress (wc addr : ℤ) :
    (printAddress wc addr).toList.splitOn ':' =
      [(toString wc).toList, Python.hexText 64 addr] := by
  have hwc : ':' ∉ (toString wc).toList := by
    intro hmem
    rcases mem_toString hmem with h | h
    · exact absurd h (by decide)
    · exact absurd h (by decide)
  have haddr : ':' ∉ Python.hexText 64 addr := by
    intro hmem
    rcases Python.mem_hexText hmem with h | ⟨value, h⟩
    · exact absurd h (by decide)
    · exact absurd h (by simp [Python.digitValue])
  rw [toList_printAddress, List.splitOn_append_cons_self_of_not_mem hwc,
    List.splitOn_eq_singleton haddr]

theorem head_printAddress (wc addr : ℤ) : (printAddress wc addr).toList.head? ≠ some '@' := by
  intro h
  rw [toList_printAddress] at h
  cases htext : (toString wc).toList with
  | nil =>
    rw [htext] at h
    exact absurd (Option.some.inj h) (by decide)
  | cons c cs =>
    rw [htext] at h
    have hc : c = '@' := Option.some.inj h
    have hmem : c ∈ (toString wc).toList := htext ▸ List.mem_cons_self
    rw [hc] at hmem
    rcases mem_toString hmem with h | h
    · exact absurd h (by decide)
    · exact absurd h (by decide)

variable [Python.Unicode]

theorem parseSmcAddr_eq_ok_iff {text : String} {wc addr : ℤ} :
    parseSmcAddr text = .ok (wc, addr) ↔ ∃ wcText addrText,
      text.toList.splitOn ':' = [wcText, addrText] ∧
        Python.int 10 wcText = some wc ∧ Python.int 16 addrText = some addr := by
  unfold parseSmcAddr
  split
  · next wcText addrText hsplit =>
    simp only [bind_eq_ok_iff, elim_eq_ok_iff]
    constructor
    · rintro ⟨_, hwc, _, haddr, h⟩
      cases h
      exact ⟨_, _, hsplit, hwc, haddr⟩
    · rintro ⟨_, _, hpair, hwc, haddr⟩
      rw [hsplit] at hpair
      cases hpair
      exact ⟨_, hwc, _, haddr, rfl⟩
  · next hsplit =>
    refine iff_of_false nofun ?_
    rintro ⟨wcText, addrText, hpair, -⟩
    exact hsplit _ _ hpair

variable [Python.LawfulUnicode]

/-- What is printed of an accepted text is accepted, and is read as the same address. -/
theorem parseSmcAddr_printAddress {text : String} {wc addr : ℤ}
    (h : parseSmcAddr text = .ok (wc, addr)) :
    parseSmcAddr (printAddress wc addr) = .ok (wc, addr) := by
  obtain ⟨wcText, addrText, -, hwc, -⟩ := parseSmcAddr_eq_ok_iff.mp h
  exact parseSmcAddr_eq_ok_iff.mpr
    ⟨_, _, splitOn_printAddress wc addr, Python.int_toString_of_int hwc, Python.int_hexText 64 addr⟩

/-- The printed text of an address that has been read is read as that address again, also
where a file could be given, and no other address that can be read is printed so. -/
theorem printAddress_exact {text : String} {wc addr : ℤ}
    (h : parseSmcAddr text = .ok (wc, addr)) :
    (∀ files, parseLoadAddress files (printAddress wc addr) = .ok (wc, addr)) ∧
      ∀ (text' : String) (wc' addr' : ℤ), parseSmcAddr text' = .ok (wc', addr') →
        (printAddress wc' addr' = printAddress wc addr ↔ wc' = wc ∧ addr' = addr) := by
  have hparse := parseSmcAddr_printAddress h
  refine ⟨fun files => ?_, fun text' wc' addr' h' => ⟨fun heq => ?_, ?_⟩⟩
  · rw [parseLoadAddress]
    split
    · next filename hfilename =>
      exact absurd (congrArg List.head? hfilename) (head_printAddress wc addr)
    · exact hparse
  · have hparse' := parseSmcAddr_printAddress h'
    rw [heq, hparse] at hparse'
    have hpair := Prod.mk.inj (Except.ok.inj hparse')
    exact ⟨hpair.1.symm, hpair.2.symm⟩
  · rintro ⟨rfl, rfl⟩
    rfl

end

section Ascii

open scoped Python.Ascii

/-- A short spelling with a prefix and a sign. -/
theorem printAddress_exact_short :
    (∀ files, parseLoadAddress files (printAddress (-1) (-31)) = .ok (-1, -31)) ∧
      ∀ (text' : String) (wc' addr' : ℤ), parseSmcAddr text' = .ok (wc', addr') →
        (printAddress wc' addr' = printAddress (-1) (-31) ↔ wc' = -1 ∧ addr' = -31) :=
  printAddress_exact (show parseSmcAddr " -1:-0x1F" = .ok (-1, -31) from rfl)

end Ascii

end EverPlayground
