import EverPlayground.Builder.Append
import EverPlayground.PyCell

/-!
# The two ways to make a cell

A cell is made by its constructor, or with a builder that takes the data and then the
references one by one. The constructor looks at the number of its arguments first, takes the
data over as a whole and must check that the other arguments are cells.

## Main definitions

* `PyCell.buildWith` — the chain of calls on a builder

## Main results

* `PyCell.create_eq_ok_iff_buildWith` — the constructor makes a cell when its arguments are
  cells and the chain makes one, and it is the same cell
-/

set_option autoImplicit false

namespace EverPlayground

open Semantics Semantics.Cursor

namespace PyCell

/-- `Builder().x(bitstring).r(…)….finalize()`. -/
def buildWith [TonTypes] (bitstring : String) (cells : List Cell) : Except PyErr Cell := do
  let b ← PyBuilder.build do
    PyBuilder.x bitstring
    forM cells PyBuilder.r
  PyBuilder.finalize b

section

variable [TonTypes] [LawfulTonTypes]

omit [TonTypes] [LawfulTonTypes] in
theorem prod_ofRef (cells : List Cell) : (cells.map Fragment.ofRef).prod = ⟨[], cells⟩ := by
  induction cells with
  | nil => rfl
  | cons cell cells ih =>
    rw [List.map_cons, List.prod_cons, ih]
    rfl

/-- A run of references is taken exactly when there is room for all of them. -/
theorem forM_r_writesExactly (cells : List Cell) :
    PyBuilder.BuilderWritesExactly (forM cells PyBuilder.r) ⟨[], cells⟩ := by
  have hrun := WritesExactly.forM BuilderData.fits Fragment.Fits.left cells
    fun cell _ => PyBuilder.r_writesExactly cell
  rwa [prod_ofRef] at hrun

omit [LawfulTonTypes] in
theorem forM_appendArg_cells (cells : List Cell) :
    (forM (cells.map Arg.cell) appendArg : Mut PyErr PyBuilder PUnit) = forM cells PyBuilder.r := by
  induction cells with
  | nil => rfl
  | cons cell cells ih =>
    rw [List.map_cons, List.forM_cons, List.forM_cons, ih]
    rfl

omit [LawfulTonTypes] in
/-- An argument that is not a cell stops the constructor, if nothing before it does. -/
theorem forM_appendArg_other {args : List Arg} (h : ¬ ∃ cells : List Cell, args = cells.map .cell)
    (b : PyBuilder) : ∃ e b', (forM args appendArg).exec b = (.error e, b') := by
  induction args generalizing b with
  | nil => exact absurd ⟨[], rfl⟩ h
  | cons arg args ih =>
    rw [List.forM_cons]
    cases arg with
    | other => exact ⟨.typeError, b, Mut.exec_bind_error rfl⟩
    | cell cell =>
      have hrest : ¬ ∃ cells : List Cell, args = cells.map .cell := by
        rintro ⟨cells, rfl⟩
        exact h ⟨cell :: cells, rfl⟩
      rcases hrun : (appendArg (.cell cell)).exec b with ⟨e | _, b'⟩
      · exact ⟨e, b', Mut.exec_bind_error hrun⟩
      · obtain ⟨e, b'', hloop⟩ := ih hrest b'
        exact ⟨e, b'', (Mut.exec_bind_ok hrun).trans hloop⟩

omit [TonTypes] [LawfulTonTypes] in
/-- The builder that an exact append leaves. -/
theorem result_eq_ok_iff {x : Mut PyErr PyBuilder Unit} {f : Fragment}
    (hx : PyBuilder.BuilderWritesExactly x f) (b b' : PyBuilder) :
    Mut.result x b = .ok b' ↔ ∃ h : (b.toFragment * f).Fits, b' = ⟨_, h⟩ := by
  by_cases hfits : (b.toFragment * f).Fits
  · obtain ⟨b₁, hrun, hb₁⟩ := hx.writes b hfits
    obtain rfl : b₁ = ⟨_, hfits⟩ := BuilderData.eq_of_toFragment_eq hb₁
    rw [Mut.result_eq hrun, Except.ok.injEq, eq_comm]
    constructor
    · intro h
      exact ⟨hfits, h⟩
    · rintro ⟨_, h⟩
      exact h
  · obtain ⟨e, s, hrun⟩ := hx.raises b hfits
    rw [Mut.result, hrun]
    constructor
    · intro h
      cases h
    · rintro ⟨h, -⟩
      exact absurd h hfits

/-- The data can be read, and it fits into the cell together with the references. -/
def Makes (bitstring : String) (cells : List Cell) (c : Cell) : Prop :=
  ∃ slice, TonTypes.fromString bitstring = .ok slice ∧
    ∃ h : (slice.content * ⟨[], cells⟩).Fits, c = .ordinary ⟨_, h⟩

theorem create_cells_eq_ok_iff (bitstring : String) (cells : List Cell) (c : Cell) :
    create bitstring (cells.map .cell) = .ok c ↔ Makes bitstring cells c := by
  by_cases hlen : (cells.map Arg.cell).length > 4
  · -- a fifth reference does not fit, whatever the data
    rw [create, if_pos hlen]
    constructor
    · intro h
      cases h
    · rintro ⟨slice, -, hfits, -⟩
      have hrefs : (slice.content.refs ++ cells).length ≤ maxRefs := hfits.2
      rw [List.length_append, maxRefs] at hrefs
      rw [List.length_map] at hlen
      omega
  · rw [create, if_neg hlen, bind_eq_ok_iff]
    refine exists_congr fun slice => and_congr mapError_eq_ok_iff ?_
    rw [bind_eq_ok_iff, forM_appendArg_cells]
    simp only [result_eq_ok_iff (forM_r_writesExactly cells), LawfulTonTypes.asBuilder,
      LawfulTonTypes.intoCell, mapError_eq_ok_iff, Except.ok.injEq]
    constructor
    · rintro ⟨b, ⟨h, hb⟩, hc⟩
      exact ⟨h, hc.symm.trans (congrArg _ hb)⟩
    · rintro ⟨h, hc⟩
      exact ⟨_, ⟨h, rfl⟩, hc.symm⟩

theorem buildWith_eq_ok_iff (bitstring : String) (cells : List Cell) (c : Cell) :
    buildWith bitstring cells = .ok c ↔ Makes bitstring cells c := by
  have hfinalize : buildWith bitstring cells = .ok c ↔
      ∃ b, PyBuilder.build (do PyBuilder.x bitstring; forM cells PyBuilder.r) = .ok b ∧
        c = .ordinary b := by
    rw [buildWith, bind_eq_ok_iff]
    simp only [PyBuilder.finalize_eq, Except.ok.injEq, eq_comm]
  rw [hfinalize]
  cases hstring : TonTypes.fromString bitstring with
  | error e =>
    refine iff_of_false ?_ ?_
    · rintro ⟨b, hb, -⟩
      rw [PyBuilder.build, PyBuilder.x, hstring] at hb
      cases hb
    · rintro ⟨slice, hslice, -⟩
      rw [hstring] at hslice
      cases hslice
  | ok slice =>
    have hwrites := (PyBuilder.s_writesExactly slice).seq Fragment.Fits.left
      (forM_r_writesExactly cells)
    rw [PyBuilder.x_eq_s hstring, PyBuilder.build]
    simp only [result_eq_ok_iff hwrites, BuilderData.new_toFragment, one_mul]
    constructor
    · rintro ⟨b, ⟨h, hb⟩, hc⟩
      exact ⟨slice, hstring, h, hc.trans (congrArg _ hb)⟩
    · rintro ⟨slice', hslice, h, hc⟩
      obtain rfl : slice = slice' := Except.ok.inj (hstring.symm.trans hslice)
      exact ⟨_, ⟨h, rfl⟩, hc⟩

/-- The constructor makes a cell exactly when its arguments are cells and the chain of calls
on a builder makes one of them, and then it makes the same cell. -/
theorem create_eq_ok_iff_buildWith (bitstring : String) (args : List Arg) (c : Cell) :
    create bitstring args = .ok c ↔
      ∃ cells : List Cell, args = cells.map .cell ∧ buildWith bitstring cells = .ok c := by
  simp only [buildWith_eq_ok_iff]
  constructor
  · intro h
    by_cases hcells : ∃ cells : List Cell, args = cells.map .cell
    · obtain ⟨cells, rfl⟩ := hcells
      exact ⟨cells, rfl, (create_cells_eq_ok_iff bitstring cells c).mp h⟩
    · rw [create] at h
      split_ifs at h
      obtain ⟨slice, -, h⟩ := exists_of_bind_eq_ok h
      obtain ⟨e, b, hrun⟩ := forM_appendArg_other hcells (TonTypes.asBuilder slice)
      rw [Mut.result, hrun] at h
      cases h
  · rintro ⟨cells, rfl, h⟩
    exact (create_cells_eq_ok_iff bitstring cells c).mpr h

end

section Reference

open scoped Reference

theorem create_eq_ok_iff_buildWith_twoLeaves :
    create "b_" [.cell (.ordinary .new), .cell (.ordinary .new)] = .ok twoLeaves ↔
      ∃ cells : List Cell, [.cell (.ordinary .new), .cell (.ordinary .new)] = cells.map Arg.cell ∧
        buildWith "b_" cells = .ok twoLeaves :=
  create_eq_ok_iff_buildWith "b_" [.cell (.ordinary .new), .cell (.ordinary .new)] twoLeaves

end Reference

end PyCell

end EverPlayground
