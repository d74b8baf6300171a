import EverPlayground.Currency

/-!
# Amounts from text

`Currency.from_str` reads a rational, scales it to the smallest unit and drops what is
left behind the point; the constructor then checks the integer. Dropping goes towards
zero, so a debt of less than one unit has become zero before its sign is looked at.

## Main definitions

* `Currency.FromStrExact` — the text is accepted where it denotes an amount, and then it is
  the amount rounded down

## Main results

* `Currency.fromStr_exact_iff` — that fails for the negative rationals of less than one
  unit, and for no others
-/

set_option autoImplicit false

namespace EverPlayground

namespace Currency

section

variable [Python.Unicode]

/-- `q` is what the text denotes. -/
def FromStrExact (text : String) (q : ℚ) : Prop :=
  ((∃ currency, fromStr text = .ok currency) ↔ 0 ≤ q ∧ ⌊q * factor⌋ < 2 ^ 128) ∧
    ∀ currency, fromStr text = .ok currency → currency.value = ⌊q * factor⌋

theorem fromStr_eq {text : String} {q : ℚ} (h : Python.fraction text.toList = .ok q) :
    fromStr text = create (Python.truncate (q * factor)) := by
  rw [fromStr, h]
  rfl

omit [Python.Unicode] in
/-- The constructor returns an integer of its range unchanged, and no other. -/
theorem create_returns_iff (v : ℤ) :
    (∃ currency, create v = .ok currency) ↔ 0 ≤ v ∧ v < 2 ^ 128 := by
  constructor
  · rintro ⟨currency, h⟩
    obtain ⟨m, hm, rfl, -⟩ := create_eq_ok_iff.mp h
    exact ⟨Int.natCast_nonneg m, by exact_mod_cast hm⟩
  · rintro ⟨h₀, hv⟩
    obtain ⟨m, rfl⟩ := Int.eq_ofNat_of_zero_le h₀
    exact ⟨amount m, create_eq_ok_iff.mpr ⟨m, by exact_mod_cast hv, rfl, rfl⟩⟩

omit [Python.Unicode] in
theorem value_of_create {v : ℤ} {currency : Currency} (h : create v = .ok currency) :
    currency.value = v := by
  obtain ⟨m, -, rfl, rfl⟩ := create_eq_ok_iff.mp h
  rfl

/-- The check after the truncation is the check of the rational, but for the negative
rationals of less than one unit. -/
theorem fromStr_exact_iff {text : String} {q : ℚ} (h : Python.fraction text.toList = .ok q) :
    FromStrExact text q ↔ ¬ (-1 < q * factor ∧ q * factor < 0) := by
  have hfactor : (0 : ℚ) < factor := by norm_num [factor]
  have hsign : 0 ≤ q ↔ 0 ≤ q * factor := (mul_nonneg_iff_of_pos_right hfactor).symm
  unfold FromStrExact
  rw [fromStr_eq h, create_returns_iff, hsign]
  generalize q * factor = x
  rcases le_or_gt 0 x with hx | hx
  · -- rounded down, as it should be
    rw [Python.truncate_eq_floor hx, Int.floor_nonneg]
    exact iff_of_true ⟨Iff.rfl, fun _ => value_of_create⟩ fun hsmall => not_lt.mpr hx hsmall.2
  · rw [Python.truncate_eq_ceil hx.le]
    rcases le_or_gt x (-1) with hdebt | hsmall
    · -- rounded up, but not to zero
      have hceil : ⌈x⌉ ≤ -1 := Int.ceil_le.mpr (by exact_mod_cast hdebt)
      refine iff_of_true ⟨iff_of_false ?_ ?_, fun currency hrun => ?_⟩ ?_
      · intro hrange
        omega
      · intro hrange
        exact not_lt.mpr hrange.1 hx
      · have hreturns := (create_returns_iff _).mp ⟨currency, hrun⟩
        omega
      · exact fun hsmall => not_lt.mpr hdebt hsmall.1
    · -- rounded up to zero, which the constructor accepts
      have hceil : ⌈x⌉ = 0 := Int.ceil_eq_iff.mpr ⟨by simpa using hsmall, by simpa using hx.le⟩
      rw [hceil]
      refine iff_of_false (fun hexact => ?_) (not_not_intro ⟨hsmall, hx⟩)
      have hnonneg := hexact.1.mp ⟨le_rfl, by decide⟩
      exact not_lt.mpr hnonneg.1 hx

end

section Reference

open scoped Python.Ascii

theorem fromStr_exact_iff_coin :
    FromStrExact "1" 1 ↔ ¬ (-1 < (1 : ℚ) * factor ∧ (1 : ℚ) * factor < 0) := by
  have htext : toString (1 : ℤ) = "1" := rfl
  have hfraction := Python.fraction_toString (n := 1) (by decide)
  rw [htext, Int.cast_one] at hfraction
  exact fromStr_exact_iff hfraction

/-- A debt of a tenth of a unit is accepted, as the amount zero. -/
theorem fromStr_accepts_debt :
    Python.fraction "-1/10000000000".toList = .ok (-(1 / 10000000000)) ∧
      fromStr "-1/10000000000" = .ok (amount 0) ∧
      ¬ FromStrExact "-1/10000000000" (-(1 / 10000000000)) := by
  have hmatch : Python.matchRational "-1/10000000000".toList =
      some ⟨true, ['1'], "10000000000".toList, [], []⟩ := rfl
  have hnum : Python.groupInt ['1'] = .ok 1 := rfl
  have hdenom : Python.groupInt "10000000000".toList = .ok 10000000000 := rfl
  have hfraction : Python.fraction "-1/10000000000".toList = .ok (-(1 / 10000000000)) := by
    rw [Python.fraction, hmatch]
    change Python.Groups.value _ = _
    rw [Python.value_ratio true (by decide) hnum hdenom (by decide)]
    norm_num
  have hceil : ⌈(-(1 / 10000000000) : ℚ) * factor⌉ = 0 := by
    rw [Int.ceil_eq_iff]
    norm_num [factor]
  have hrun : fromStr "-1/10000000000" = .ok (amount 0) := by
    rw [fromStr_eq hfraction, Python.truncate_eq_ceil (by norm_num [factor]), hceil]
    rfl
  refine ⟨hfraction, hrun, fun hexact => ?_⟩
  have hnonneg := (hexact.1.mp ⟨_, hrun⟩).1
  norm_num at hnonneg

end Reference

end Currency

end EverPlayground
