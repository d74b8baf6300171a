import EverPlayground.StateInit

/-!
# Deserializing into a used `StateInit`

`deserialize` assigns a field when its part is present. When the part is absent it resets
the flags of the special part, and leaves the other fields as they are. What two objects
become on one slice therefore differs where a part is absent and the objects differed
before.

## Main definitions

* `StateInit.presence` — the presence bits of a slice
* `StateInit.AgreeOnAbsent` — two objects have the same values where a part is absent

## Main results

* `StateInit.deserialize_eq_iff` — when two objects become equal on one slice
-/

set_option autoImplicit false

namespace EverPlayground.StateInit

open Semantics Semantics.Cursor

/-- Which of the parts that have no default are present. -/
@[ext] structure Presence where
  splitDepth : Bool
  code : Bool
  data : Bool
  library : Bool

/-- The presence bits of a slice. A split depth takes five more bits, a special part two;
code and data are references. -/
def presence (s : PySlice) : Presence :=
  let afterDepth := s.bits.drop (if s.bits.headD false then 6 else 1)
  let afterSpecial := afterDepth.drop (if afterDepth.headD false then 3 else 1)
  { splitDepth := s.bits.headD false
    code := afterSpecial.headD false
    data := (afterSpecial.drop 1).headD false
    library := (afterSpecial.drop 2).headD false }

/-- The objects have the same values in the fields whose part is absent. -/
structure AgreeOnAbsent (p : Presence) (t₁ t₂ : StateInit) : Prop where
  splitDepth : p.splitDepth = false → t₁.splitDepth = t₂.splitDepth
  code : p.code = false → t₁.code = t₂.code
  data : p.data = false → t₁.data = t₂.data
  library : p.library = false → t₁.library = t₂.library

/-! ### Presence bits -/

/-- The parts of an object that are present. -/
def parts (init : StateInit) : Presence where
  splitDepth := init.splitDepth.isSome
  code := init.code.isSome
  data := init.data.isSome
  library := init.library.isSome

theorem headD_maybe {α : Type} (enc : α → Fragment) (o : Option α) (rest : List Bool) :
    ((TlB.maybe enc o).bits ++ rest).headD false = o.isSome := by
  cases o <;> rfl

theorem drop_maybe {α : Type} {enc : α → Fragment} {k : ℕ}
    (h : ∀ a, (enc a).bits.length = k) (o : Option α) (rest : List Bool) :
    ((TlB.maybe enc o).bits ++ rest).drop (if o.isSome then k + 1 else 1) = rest := by
  cases o with
  | none => rfl
  | some a =>
    have hbits : (TlB.maybe enc (some a)).bits = true :: (enc a).bits := rfl
    rw [hbits, List.cons_append, Option.isSome_some, if_pos rfl, List.drop_succ_cons, ← h a]
    exact List.drop_left

/-- The presence bits of an encoding are those of the object. -/
theorem presence_eq {s : PySlice} {special : Option (Bool × Bool)} {init : StateInit}
    {rest : Fragment} (h : s.content = encoding special init * rest) :
    presence s = parts init := by
  have hdepth (d : ℤ) : (TlB.uint 5 d.toNat).bits.length = 5 := Math.Positional.length_word _ _
  have hspecial (flags : Bool × Bool) : (TlB.tickTock flags).bits.length = 2 := rfl
  have href (c : Cell) : (Fragment.ofRef c).bits.length = 0 := rfl
  have hbits : s.bits = (encoding special init * rest).bits := congrArg Fragment.bits h
  simp only [encoding, header, Fragment.mul_bits, List.append_assoc] at hbits
  -- from part to part, the presence bit is read and the part is dropped
  have hcode := drop_maybe href init.code
  have hdata := drop_maybe href init.data
  simp only [Nat.zero_add, ite_self] at hcode hdata
  apply Presence.ext
  · simp only [presence, hbits, headD_maybe, parts]
  · simp only [presence, hbits, headD_maybe, drop_maybe hdepth, drop_maybe hspecial, parts]
  · simp only [presence, hbits, headD_maybe, drop_maybe hdepth, drop_maybe hspecial, hcode, parts]
  · have htwo (w : List Bool) : w.drop 2 = (w.drop 1).drop 1 := by
      rw [List.drop_drop]
    simp only [presence, hbits, headD_maybe, drop_maybe hdepth, drop_maybe hspecial, htwo, hcode,
      hdata, parts]

/-! ### Two runs -/

theorem or_eq_or_iff {α : Type} (o a b : Option α) :
    o.or a = o.or b ↔ (o.isSome = false → a = b) := by
  cases o with
  | none => exact ⟨fun h _ => h, fun h => h rfl⟩
  | some _ => exact iff_of_true rfl nofun

/-- Overwritten by the same object, two objects are equal where nothing was assigned. -/
theorem overwrite_eq_iff (special : Option (Bool × Bool)) (init t₁ t₂ : StateInit) :
    overwrite special init t₁ = overwrite special init t₂ ↔
      AgreeOnAbsent init.parts t₁ t₂ := by
  constructor
  · intro h
    exact
      { splitDepth := (or_eq_or_iff _ _ _).mp (congrArg StateInit.splitDepth h)
        code := (or_eq_or_iff _ _ _).mp (congrArg StateInit.code h)
        data := (or_eq_or_iff _ _ _).mp (congrArg StateInit.data h)
        library := (or_eq_or_iff _ _ _).mp (congrArg StateInit.library h) }
  · intro h
    apply StateInit.ext
    · exact (or_eq_or_iff _ _ _).mpr h.splitDepth
    · rfl
    · rfl
    · exact (or_eq_or_iff _ _ _).mpr h.code
    · exact (or_eq_or_iff _ _ _).mpr h.data
    · exact (or_eq_or_iff _ _ _).mpr h.library

/-- What is accepted for one object is accepted for every other, with the same rest. The two
become equal exactly when they agree on the fields whose part is absent. -/
theorem deserialize_eq_iff [NumBigint] [TonTypes] [LawfulNumBigint] [LawfulTonTypes]
    {t₁ t₁' : StateInit} {s s' : PySlice}
    (h : deserialize.exec (t₁, s) = (.ok (), (t₁', s'))) (t₂ : StateInit) :
    ∃ t₂' s'', deserialize.exec (t₂, s) = (.ok (), (t₂', s'')) ∧ s''.content = s'.content ∧
      (t₁' = t₂' ↔ AgreeOnAbsent (presence s) t₁ t₂) := by
  obtain ⟨f, hf, special, init, rfl, hwf, rfl⟩ := deserialize_parses t₁ s t₁' s' () h
  obtain ⟨s'', hrun, hrest⟩ := deserialize_decodes hwf special t₂ s s'.content hf
  refine ⟨_, s'', hrun, hrest, ?_⟩
  rw [presence_eq hf]
  exact overwrite_eq_iff special init t₁ t₂

section Reference

open scoped Reference

/-- Five bits: all parts are absent. -/
def noParts : PySlice := Reference.sliceOfBits [false, false, false, false, false] (by decide)

def codeOnly : StateInit := { code := some (.ordinary .new) }

/-- What is left of the slice when all five bits are read. -/
def noPartsRead : PySlice := { noParts with bitStart := 5, bit_le := by decide }

theorem noParts_run_fresh : deserialize.exec ({}, noParts) = (.ok (), ({}, noPartsRead)) := by
  rfl

theorem noParts_run_codeOnly :
    deserialize.exec (codeOnly, noParts) = (.ok (), (codeOnly, noPartsRead)) := by
  rfl

theorem deserialize_eq_iff_noParts :
    ∃ t₂' s'', deserialize.exec (codeOnly, noParts) = (.ok (), (t₂', s'')) ∧
      s''.content = noPartsRead.content ∧
      (({} : StateInit) = t₂' ↔ AgreeOnAbsent (presence noParts) {} codeOnly) :=
  deserialize_eq_iff noParts_run_fresh codeOnly

/-- An object that was given a code keeps it where a fresh one has none. -/
theorem deserialize_keeps_code :
    ∃ t₁' t₂' s', deserialize.exec ({}, noParts) = (.ok (), (t₁', s')) ∧
      deserialize.exec (codeOnly, noParts) = (.ok (), (t₂', s')) ∧
      t₁'.code = none ∧ t₂'.code = some (.ordinary .new) ∧ t₁' ≠ t₂' := by
  refine ⟨_, _, _, noParts_run_fresh, noParts_run_codeOnly, rfl, rfl, fun h => ?_⟩
  exact absurd (congrArg StateInit.code h).symm (Option.some_ne_none _)

end Reference

end EverPlayground.StateInit
