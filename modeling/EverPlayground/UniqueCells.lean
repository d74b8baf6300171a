import Mathlib.Data.Set.Card
import EverPlayground.DumpCell
import EverPlayground.Semantics.Worklist
import EverPlayground.Utils

/-!
# Counting cells

Cells are shared: the same cell may be reached over many references. `cells_count` counts
the nodes of the tree that the references unfold to; `unique_cells_count` walks over the
cells with a stack and a set of hashes and counts every hash once.

## Main definitions

* `Cell.occurrences` — the cells of the unfolded tree, once for every path to them
* `TonCells`, `LawfulTonCells` — the hash and the counter of `ton_types`
* `PyCell.uniqueCellsCount` — the loop

## Main results

* `PyCell.uniqueCellsCount_eq` — the loop ends with the number of distinct hashes
-/

set_option autoImplicit false

namespace EverPlayground

open Semantics

/-! ### The unfolded tree -/

namespace Cell

/-- The cells of the unfolded tree, in preorder. -/
def occurrences : Cell → List Cell
  | mk exotic data data_le count child =>
    mk exotic data data_le count child :: (List.ofFn fun i => (child i).occurrences).flatten

theorem occurrences_eq (c : Cell) : c.occurrences = c :: c.refs.flatMap occurrences := by
  obtain ⟨exotic, data, data_le, count, child⟩ := c
  rw [occurrences, refs, List.flatMap_def, List.map_ofFn]
  rfl

theorem length_occurrences (c : Cell) : c.occurrences.length = c.size := by
  induction c using Cell.induction with
  | h c ih =>
    rw [occurrences_eq, List.length_cons, List.length_flatMap, size_eq, Nat.add_comm]
    exact congrArg (1 + List.sum ·) (List.map_congr_left ih)

/-- The cells of the unfolded tree are those that references lead to. -/
theorem mem_occurrences_iff {c d : Cell} :
    d ∈ c.occurrences ↔ Worklist.Reaches refs c d := by
  constructor
  · intro h
    induction c using Cell.induction with
    | h c ih =>
      rw [occurrences_eq, List.mem_cons, List.mem_flatMap] at h
      rcases h with rfl | ⟨r, hr, hd⟩
      · exact Relation.ReflTransGen.refl
      · exact Relation.ReflTransGen.head hr (ih r hr hd)
  · intro h
    induction h using Relation.ReflTransGen.head_induction_on with
    | refl =>
      rw [occurrences_eq]
      exact List.mem_cons_self
    | head hr _ ih =>
      rw [occurrences_eq]
      exact List.mem_cons_of_mem _ (List.mem_flatMap.mpr ⟨_, hr, ih⟩)

end Cell

/-! ### The crate -/

/-- The functions on cells of `ton_types` that the counters call. -/
class TonCells where
  reprHash : Cell → BitVec 256
  countCells : Cell → (max : ℕ) → Except Error ℕ

/-- The counter counts occurrences, up to a limit. -/
class LawfulTonCells [TonCells] : Prop where
  countCells : ∀ (c : Cell) max, c.occurrences.length ≤ max →
    TonCells.countCells c max = .ok c.occurrences.length
  countCells_limit : ∀ (c : Cell) max, max < c.occurrences.length →
    ∃ e, TonCells.countCells c max = .error e

namespace PyCell

section

variable [TonCells]

def cellsCount (self : Cell) : Except PyErr ℕ :=
  (TonCells.countCells self (2 ^ 64 - 1)).mapError runtimeErr

/-- The set of hashes, the stack and the count before the loop. -/
def uniqueStart (self : Cell) : Worklist.State Cell (BitVec 256) ℕ :=
  { visited := ∅, stack := [self], acc := 0 }

/-- The count at the end of the loop, if it ends within that many turns. -/
def uniqueCellsCount (turns : ℕ) (self : Cell) : Option ℕ :=
  Worklist.run TonCells.reprHash Cell.refs (fun _ uniqueCount => uniqueCount + 1) turns
    (uniqueStart self)

/-- The cells whose references the loop pushes. -/
def expandedCells (turns : ℕ) (self : Cell) : List Cell :=
  Worklist.expansions TonCells.reprHash Cell.refs (fun _ uniqueCount => uniqueCount + 1) turns
    (uniqueStart self)

/-- The hash tells apart the cells that are reached from the root. -/
def HashSeparates (root : Cell) : Prop :=
  Worklist.Separates TonCells.reprHash Cell.refs root

/-- The counter returns the number of occurrences when it is a machine word. -/
theorem cellsCount_eq_ok_iff [LawfulTonCells] {self : Cell} {n : ℕ} :
    cellsCount self = .ok n ↔ n = self.occurrences.length ∧ self.occurrences.length < 2 ^ 64 := by
  rw [cellsCount, mapError_eq_ok_iff]
  rcases Nat.lt_or_ge (2 ^ 64 - 1) self.occurrences.length with hlt | hle
  · obtain ⟨e, he⟩ := LawfulTonCells.countCells_limit self _ hlt
    rw [he]
    refine iff_of_false (fun h => by cases h) ?_
    omega
  · rw [LawfulTonCells.countCells self _ hle, Except.ok.injEq, eq_comm, iff_self_and]
    omega

omit [TonCells] in
theorem sum_size_refs_lt (c : Cell) : (c.refs.map Cell.size).sum < c.size := by
  rw [Cell.size_eq]
  omega

omit [TonCells] in
theorem weight_uniqueStart (self : Cell) :
    Worklist.weight Cell.size (uniqueStart self) = self.occurrences.length := by
  rw [Cell.length_occurrences]
  exact Nat.add_zero _

/-- One turn for every occurrence is enough, and the count is the number of cells that
were expanded. -/
theorem uniqueCellsCount_eq_length {self : Cell} {turns : ℕ}
    (h : self.occurrences.length < turns) :
    uniqueCellsCount turns self = some (expandedCells turns self).length := by
  have hrun : uniqueCellsCount turns self =
      some ((expandedCells turns self).foldl (fun uniqueCount _ => uniqueCount + 1) 0) :=
    Worklist.run_eq _ sum_size_refs_lt (by rwa [weight_uniqueStart])
  have hcount : ∀ (cells : List Cell) (start : ℕ),
      cells.foldl (fun uniqueCount _ => uniqueCount + 1) start = start + cells.length := by
    intro cells
    induction cells with
    | nil => exact fun start => rfl
    | cons c cells ih =>
      intro start
      rw [List.foldl_cons, ih, List.length_cons]
      omega
  rw [hrun, hcount, Nat.zero_add]

/-- Every cell is expanded once. -/
theorem expandedCells_spec {self : Cell} (hhash : HashSeparates self) {turns : ℕ}
    (h : self.occurrences.length < turns) :
    (∀ c, c ∈ expandedCells turns self ↔ Worklist.Reaches Cell.refs self c) ∧
      ((expandedCells turns self).map TonCells.reprHash).Nodup := by
  rw [← weight_uniqueStart] at h
  obtain ⟨hmem, hnodup⟩ := Worklist.expansions_spec (fun _ uniqueCount => uniqueCount + 1)
    sum_size_refs_lt hhash (Worklist.invariant_init self 0) h
  refine ⟨fun c => (hmem c).trans ?_, hnodup⟩
  exact and_iff_left (Finset.notMem_empty _)

/-- For every root whose cells the hash tells apart the loop ends, in at most one turn for
every occurrence of a cell and a last one. The count is the number of distinct hashes of
the cells reached, each of which was expanded once. It is at most the number of occurrences,
and equal to it when no cell occurs twice; and `cells_count` is the number of occurrences, as
long as that is a machine word. -/
theorem uniqueCellsCount_eq [LawfulTonCells] (root : Cell) (hhash : HashSeparates root) :
    ∃ count, (∀ turns, root.occurrences.length < turns →
        uniqueCellsCount turns root = some count ∧
        (∀ c, c ∈ expandedCells turns root ↔ Worklist.Reaches Cell.refs root c) ∧
        ((expandedCells turns root).map TonCells.reprHash).Nodup) ∧
      count = {hash | ∃ c, Worklist.Reaches Cell.refs root c ∧ TonCells.reprHash c = hash}.ncard ∧
      (count ≤ root.occurrences.length ∧
        (count = root.occurrences.length ↔ root.occurrences.Nodup)) ∧
      ∀ n, cellsCount root = .ok n ↔
        n = root.occurrences.length ∧ root.occurrences.length < 2 ^ 64 := by
  have hturns : root.occurrences.length < root.occurrences.length + 1 := Nat.lt_succ_self _
  obtain ⟨hmem, hnodup⟩ := expandedCells_spec hhash hturns
  generalize hcells : expandedCells (root.occurrences.length + 1) root = cells at hmem hnodup
  -- the hashes of the cells that are reached, without repetition
  have hhashes : {hash | ∃ c, Worklist.Reaches Cell.refs root c ∧ TonCells.reprHash c = hash} =
      ((cells.map TonCells.reprHash).toFinset : Set (BitVec 256)) := by
    ext hash
    simp [hmem]
  have hcount : cells.length =
      {hash | ∃ c, Worklist.Reaches Cell.refs root c ∧ TonCells.reprHash c = hash}.ncard := by
    rw [hhashes, Set.ncard_coe_finset, List.toFinset_card_of_nodup hnodup, List.length_map]
  have hcellsNodup : cells.Nodup := hnodup.of_map _
  -- no cell is expanded more often than it occurs
  have hsubperm : cells.Subperm root.occurrences :=
    List.subperm_of_subset hcellsNodup fun c hc => Cell.mem_occurrences_iff.mpr ((hmem c).mp hc)
  refine ⟨cells.length, fun turns h => ?_, hcount, ⟨hsubperm.length_le, ?_, ?_⟩,
    fun n => cellsCount_eq_ok_iff⟩
  · obtain ⟨hmem', hnodup'⟩ := expandedCells_spec hhash h
    -- the same cells are expanded, whatever the number of turns
    have hperm : (expandedCells turns root).Perm cells :=
      (List.perm_ext_iff_of_nodup (hnodup'.of_map _) hcellsNodup).mpr fun c =>
        (hmem' c).trans (hmem c).symm
    exact ⟨by rw [uniqueCellsCount_eq_length h, hperm.length_eq], hmem', hnodup'⟩
  · intro heq
    exact (hsubperm.perm_of_length_le heq.ge).nodup_iff.mp hcellsNodup
  · intro hoccur
    have hperm : cells.Perm root.occurrences :=
      (List.perm_ext_iff_of_nodup hcellsNodup hoccur).mpr fun c =>
        (hmem c).trans Cell.mem_occurrences_iff.symm
    exact hperm.length_eq

end

end PyCell

namespace Reference

open Math.Positional

/-- A number that depends on all bits and on the numbers of the children. -/
def number : Cell → ℕ
  | .mk exotic data _ _ child =>
    (List.ofFn fun i => number (child i)).foldl (fun acc n => acc * 1000003 + n)
      (value (true :: exotic :: data))

scoped instance tonCells : TonCells where
  reprHash c := BitVec.ofNat 256 (number c)
  countCells c max :=
    if c.occurrences.length ≤ max then .ok c.occurrences.length
    else .error ⟨"too many cells"⟩

scoped instance lawfulTonCells : LawfulTonCells where
  countCells _ _ h := if_pos h
  countCells_limit _ _ h := ⟨_, if_neg (not_le.mpr h)⟩

end Reference

namespace PyCell

section Reference

open scoped Reference

def oneLeaf : Cell := .ordinary ⟨.ofBits [true, true], by decide⟩

/-- A cell with two references to the same leaf. -/
def sharedLeaf : Cell := .ordinary ⟨⟨[], [oneLeaf, oneLeaf]⟩, by decide⟩

theorem sharedLeaf_occurrences : sharedLeaf.occurrences = [sharedLeaf, oneLeaf, oneLeaf] := by
  rw [Cell.occurrences_eq]
  rfl

theorem sharedLeaf_hashSeparates : HashSeparates sharedLeaf := by
  have hmem : ∀ c, Worklist.Reaches Cell.refs sharedLeaf c → c = sharedLeaf ∨ c = oneLeaf := by
    intro c hc
    rw [← Cell.mem_occurrences_iff, sharedLeaf_occurrences] at hc
    simpa using hc
  have hne : TonCells.reprHash sharedLeaf ≠ TonCells.reprHash oneLeaf := by decide
  intro c d hc hd heq
  rcases hmem c hc with rfl | rfl
  · rcases hmem d hd with rfl | rfl
    · rfl
    · exact absurd heq hne
  · rcases hmem d hd with rfl | rfl
    · exact absurd heq.symm hne
    · rfl

/-- The leaf is pushed twice and counted once. -/
theorem uniqueCellsCount_eq_sharedLeaf :
    ∃ count, uniqueCellsCount 4 sharedLeaf = some count ∧
      count = {hash | ∃ c, Worklist.Reaches Cell.refs sharedLeaf c ∧
        TonCells.reprHash c = hash}.ncard ∧
      (count ≤ sharedLeaf.occurrences.length ∧
        (count = sharedLeaf.occurrences.length ↔ sharedLeaf.occurrences.Nodup)) ∧
      ∀ n, cellsCount sharedLeaf = .ok n ↔
        n = sharedLeaf.occurrences.length ∧ sharedLeaf.occurrences.length < 2 ^ 64 := by
  obtain ⟨count, hrun, hcount, hle⟩ := uniqueCellsCount_eq sharedLeaf sharedLeaf_hashSeparates
  exact ⟨count, (hrun 4 (by rw [sharedLeaf_occurrences]; decide)).1, hcount, hle⟩

example : uniqueCellsCount 4 sharedLeaf = some 2 := by decide

end Reference

end PyCell

end EverPlayground
