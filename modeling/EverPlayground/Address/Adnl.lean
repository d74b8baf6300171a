import EverPlayground.Address
import EverPlayground.Python.Literal

/-!
# ADNL addresses

`parse_adnl_address` counts characters and leaves the rest to `int(addr, 16)`. The count is
that of a text of 64 hexadecimal digits, but the reader takes more than digits: a literal
whose sign, prefix, underscores or blanks make up for missing digits has the same length.

## Main definitions

* `IsAdnl` — exactly 64 hexadecimal characters
* `AdnlExact` — the text is accepted where it is of that form, and read as its digits
* `IsDisguised` — a literal of 64 characters that are not all hexadecimal

## Main results

* `parseAdnlAddress_exact_iff` — the parser is exact on every other text
-/

set_option autoImplicit false

namespace EverPlayground

open Math.Positional

section

variable [Python.Unicode]

def parseAdnlAddress (addr : String) : Except PyErr ℤ :=
  if addr.length ≠ 64 then
    .error (.exception "ADNL address must consist of exactly 64 hexadecimal characters")
  else
    (Python.int 16 addr.toList).elim (.error .valueError) .ok

/-- The text consists of exactly 64 hexadecimal characters. -/
def IsAdnl (addr : String) : Prop :=
  addr.length = 64 ∧ ∀ c ∈ addr.toList, c.isHexDigit = true

/-- The parser accepts the text exactly when it consists of 64 hexadecimal characters, and
then returns the number that these spell, most significant digit first. -/
def AdnlExact (addr : String) : Prop :=
  ((∃ v, parseAdnlAddress addr = .ok v) ↔ IsAdnl addr) ∧
    ∀ v, parseAdnlAddress addr = .ok v →
      ∃ n : ℕ, n < 2 ^ 256 ∧ v = n ∧ SpellsAccount addr n

/-- A hexadecimal literal of 64 characters, not all of them hexadecimal: there is a blank, a
sign, a prefix or an underscore among them, or a digit of another script. -/
def IsDisguised (addr : String) : Prop :=
  addr.length = 64 ∧ (∃ c ∈ addr.toList, c.isHexDigit = false) ∧
    ∃ negative values, Python.Literal 16 (addr.toList.map Python.toAscii) negative values

end

/-! ### What the parser accepts -/

/-- A text of hexadecimal characters spells the number of their digits. -/
theorem exists_word {cs : List Char} (h : ∀ c ∈ cs, c.isHexDigit = true) :
    ∃ ds : List (Fin 16), cs.map (Python.digitValue 16) = ds.map fun d => some d.val := by
  induction cs with
  | nil => exact ⟨[], rfl⟩
  | cons c cs ih =>
    obtain ⟨value, hvalue⟩ := (Python.isHexDigit_iff_digitValue c).mp (h c List.mem_cons_self)
    obtain ⟨ds, hds⟩ := ih fun c' hc' => h c' (List.mem_cons_of_mem _ hc')
    refine ⟨⟨value, Python.digitValue_lt hvalue⟩ :: ds, ?_⟩
    rw [List.map_cons, List.map_cons, hvalue, hds]

section

variable [Python.Unicode]

theorem parseAdnlAddress_eq_ok_iff {addr : String} {v : ℤ} :
    parseAdnlAddress addr = .ok v ↔ addr.length = 64 ∧ Python.int 16 addr.toList = some v := by
  unfold parseAdnlAddress
  by_cases hlen : addr.length = 64
  · rw [if_neg (not_not_intro hlen), and_iff_right hlen]
    cases Python.int 16 addr.toList <;> simp
  · rw [if_pos hlen]
    exact iff_of_false nofun fun h => hlen h.1

variable [Python.LawfulUnicode]

/-- Text of the right form is read as the number it spells. -/
theorem parseAdnlAddress_eq {addr : String} (h : IsAdnl addr) :
    ∃ n : ℕ, n < 2 ^ 256 ∧ parseAdnlAddress addr = .ok n ∧ SpellsAccount addr n := by
  obtain ⟨hlen, hhex⟩ := h
  obtain ⟨ds, hds⟩ := exists_word hhex
  have hlist : addr.toList.length = 64 := String.length_toList.trans hlen
  have hcount : ds.length = 64 := by
    have hmap := congrArg List.length hds
    rwa [List.length_map, List.length_map, hlist, eq_comm] at hmap
  have hne : addr.toList ≠ [] := List.ne_nil_of_length_pos (by omega)
  refine ⟨value ds, ?_, parseAdnlAddress_eq_ok_iff.mpr ⟨hlen, ?_⟩, ?_⟩
  · exact (value_lt ds).trans_eq (by rw [hcount]; norm_num)
  · exact Python.int_word (by decide) hne hds
  · rw [SpellsAccount, hds, ← hcount, word_value]

/-- The parser is exact on every text but the disguised ones, which it accepts. -/
theorem parseAdnlAddress_exact_iff (addr : String) : AdnlExact addr ↔ ¬ IsDisguised addr := by
  constructor
  · rintro ⟨haccepts, -⟩ ⟨hlen, ⟨c, hc, hnot⟩, negative, values, hliteral⟩
    -- the literal is accepted although one of its characters is not hexadecimal
    have hint := (Python.int_eq_some_iff (by decide)).mpr ⟨negative, values, hliteral, rfl⟩
    have hadnl := haccepts.mp ⟨_, parseAdnlAddress_eq_ok_iff.mpr ⟨hlen, hint⟩⟩
    rw [hadnl.2 c hc] at hnot
    exact absurd hnot (by decide)
  · intro hplain
    have hadnl : ∀ v, parseAdnlAddress addr = .ok v → IsAdnl addr := by
      intro v hrun
      obtain ⟨hlen, hint⟩ := parseAdnlAddress_eq_ok_iff.mp hrun
      obtain ⟨negative, values, hliteral, -⟩ := (Python.int_eq_some_iff (by decide)).mp hint
      refine ⟨hlen, fun c hc => ?_⟩
      by_contra hnot
      exact hplain ⟨hlen, ⟨c, hc, Bool.eq_false_of_not_eq_true hnot⟩, negative, values, hliteral⟩
    refine ⟨⟨fun ⟨v, hrun⟩ => hadnl v hrun, fun h => ?_⟩, fun v hrun => ?_⟩
    · obtain ⟨n, -, hrun, -⟩ := parseAdnlAddress_eq h
      exact ⟨n, hrun⟩
    · obtain ⟨n, hn, hrun', hspells⟩ := parseAdnlAddress_eq (hadnl v hrun)
      rw [hrun] at hrun'
      exact ⟨n, hn, Except.ok.inj hrun', hspells⟩

end

section Ascii

open scoped Python.Ascii

theorem parseAdnlAddress_exact_iff_zeroAccount :
    AdnlExact zeroAccount ↔ ¬ IsDisguised zeroAccount :=
  parseAdnlAddress_exact_iff zeroAccount

/-- The number one with its leading zeros, behind a minus sign. -/
def minusOne : String := .ofList ('-' :: (List.replicate 62 '0' ++ ['1']))

theorem toList_minusOne : minusOne.toList = ['-'] ++ (List.replicate 62 '0' ++ ['1']) :=
  String.toList_ofList

/-- The sign takes the place of a digit, and the result is out of range. -/
theorem parseAdnlAddress_minusOne :
    parseAdnlAddress minusOne = .ok (-1) ∧ ¬ IsAdnl minusOne ∧ ¬ AdnlExact minusOne := by
  have hlen : minusOne.length = 64 := by
    rw [← String.length_toList, toList_minusOne]
    rfl
  have hdigits : (List.replicate 62 '0' ++ ['1']).map (Python.digitValue 16) =
      (List.replicate 62 0 ++ [1]).map some := by
    rfl
  have hint : Python.int 16 minusOne.toList = some (-1) := by
    rw [toList_minusOne]
    exact Python.int_digits true (by decide) (by decide) hdigits
  have hrun := parseAdnlAddress_eq_ok_iff.mpr ⟨hlen, hint⟩
  have hnot : ¬ IsAdnl minusOne := by
    intro h
    have hsign := h.2 '-' (by rw [toList_minusOne]; exact List.mem_cons_self)
    exact absurd hsign (by decide)
  exact ⟨hrun, hnot, fun hexact => hnot (hexact.1.mp ⟨_, hrun⟩)⟩

end Ascii

end EverPlayground
