import Mathlib.Algebra.BigOperators.Group.List.Basic
import Mathlib.Algebra.Ring.Nat
import Mathlib.Data.Finset.Card
import Mathlib.Logic.Relation

/-!
# Worklist traversals

A stack of pending nodes is emptied from the top. A node whose key was met before is
dropped; otherwise the key is recorded, the node is *expanded* by pushing its successors
one after another, and an accumulator is updated. A node can be pending several times: it
is only checked when it is popped.

The traversal terminates on graphs whose unfolding is finite, and when keys tell nodes
apart it expands every reachable node exactly once.

## Main definitions

* `State`, `step` — one turn of the loop
* `run` — the loop, with the number of turns as fuel
* `expansions` — the nodes it expands, in order
* `Reaches` — the reflexive transitive closure of the successor relation
* `Invariant` — what holds at the head of the loop

## Main results

* `run_eq` — enough fuel gives a result, which the expansions determine
* `expansions_spec` — the nodes that are still to be expanded, from any state of the loop
-/

set_option autoImplicit false

namespace Semantics
namespace Worklist

universe u v w

variable {ν : Type u} {κ : Type v} {σ : Type w} [DecidableEq κ]

/-- The keys met so far, the pending nodes with the next one in front, and the
accumulator. -/
structure State (ν : Type u) (κ : Type v) (σ : Type w) where
  visited : Finset κ
  stack : List ν
  acc : σ

variable (key : ν → κ) (next : ν → List ν) (visit : ν → σ → σ)

/-- One turn of the loop; there is none when nothing is pending. -/
def step (s : State ν κ σ) : Option (State ν κ σ) :=
  match s.stack with
  | [] => none
  | n :: stack =>
    if key n ∈ s.visited then
      some { s with stack := stack }
    else
      some { visited := insert (key n) s.visited
             stack := (next n).foldl (fun stack m => m :: stack) stack
             acc := visit n s.acc }

/-- The accumulator when nothing is pending any more. -/
def run : ℕ → State ν κ σ → Option σ
  | 0, _ => none
  | fuel + 1, s =>
    match step key next visit s with
    | none => some s.acc
    | some s' => run fuel s'

/-- The node that the next turn expands, if it does. -/
def expanded (s : State ν κ σ) : List ν :=
  match s.stack with
  | [] => []
  | n :: _ => if key n ∈ s.visited then [] else [n]

/-- The nodes that are expanded, in order. -/
def expansions : ℕ → State ν κ σ → List ν
  | 0, _ => []
  | fuel + 1, s =>
    match step key next visit s with
    | none => []
    | some s' => expanded key s ++ expansions fuel s'

theorem foldl_push (ns stack : List ν) :
    ns.foldl (fun stack m => m :: stack) stack = ns.reverse ++ stack := by
  induction ns generalizing stack with
  | nil => rfl
  | cons n ns ih => rw [List.foldl_cons, ih, List.reverse_cons, List.append_assoc,
      List.singleton_append]

/-- A turn ends the loop, drops a node, or expands one. -/
theorem step_cases (s : State ν κ σ) :
    (s.stack = [] ∧ step key next visit s = none) ∨
    (∃ n stack, s.stack = n :: stack ∧ key n ∈ s.visited ∧ expanded key s = [] ∧
      step key next visit s = some { s with stack := stack }) ∨
    ∃ n stack, s.stack = n :: stack ∧ key n ∉ s.visited ∧ expanded key s = [n] ∧
      step key next visit s =
        some ⟨insert (key n) s.visited, (next n).reverse ++ stack, visit n s.acc⟩ := by
  obtain ⟨visited, stack, acc⟩ := s
  cases stack with
  | nil => exact Or.inl ⟨rfl, rfl⟩
  | cons n stack =>
    by_cases hn : key n ∈ visited
    · refine Or.inr (Or.inl ⟨n, stack, rfl, hn, ?_, ?_⟩)
      · simp only [expanded, if_pos hn]
      · simp only [step, if_pos hn]
    · refine Or.inr (Or.inr ⟨n, stack, rfl, hn, ?_, ?_⟩)
      · simp only [expanded, if_neg hn]
      · simp only [step, if_neg hn, foldl_push]

variable {key next visit}

/-! ### Termination -/

section Termination

variable {size : ν → ℕ}

/-- The pending nodes, each with the size of its unfolding. -/
def weight (size : ν → ℕ) (s : State ν κ σ) : ℕ := (s.stack.map size).sum

/-- The stack may grow, but not in weight. -/
theorem weight_lt_of_step (hsize : ∀ n, ((next n).map size).sum < size n) {s s' : State ν κ σ}
    (h : step key next visit s = some s') : weight size s' < weight size s := by
  rcases step_cases key next visit s with
    ⟨-, hnone⟩ | ⟨n, stack, hstack, -, -, hsome⟩ | ⟨n, stack, hstack, -, -, hsome⟩
  · rw [h] at hnone
    cases hnone
  · obtain rfl := Option.some.inj (h.symm.trans hsome)
    have hn := hsize n
    change (stack.map size).sum < (s.stack.map size).sum
    rw [hstack, List.map_cons, List.sum_cons]
    omega
  · obtain rfl := Option.some.inj (h.symm.trans hsome)
    have hn := hsize n
    change (((next n).reverse ++ stack).map size).sum < (s.stack.map size).sum
    rw [hstack, List.map_append, List.map_reverse, List.sum_append, List.sum_reverse,
      List.map_cons, List.sum_cons]
    omega

/-- With one turn for every unit of weight the loop ends, and has updated the accumulator
once for every node that it expanded. -/
theorem run_eq (visit : ν → σ → σ) (hsize : ∀ n, ((next n).map size).sum < size n) {fuel : ℕ}
    {s : State ν κ σ} (h : weight size s < fuel) :
    run key next visit fuel s =
      some ((expansions key next visit fuel s).foldl (fun acc n => visit n acc) s.acc) := by
  induction fuel generalizing s with
  | zero => omega
  | succ fuel ih =>
    cases hstep : step key next visit s with
    | none => simp only [run, expansions, hstep, List.foldl_nil]
    | some s' =>
      have hlt := weight_lt_of_step hsize hstep
      simp only [run, expansions, hstep, List.foldl_append]
      -- the turn has updated the accumulator if it expanded a node
      have hacc : (expanded key s).foldl (fun acc n => visit n acc) s.acc = s'.acc := by
        rcases step_cases key next visit s with
          ⟨-, hnone⟩ | ⟨n, stack, -, -, hexp, hsome⟩ | ⟨n, stack, -, -, hexp, hsome⟩
        · rw [hstep] at hnone
          cases hnone
        · obtain rfl := Option.some.inj (hstep.symm.trans hsome)
          rw [hexp, List.foldl_nil]
        · obtain rfl := Option.some.inj (hstep.symm.trans hsome)
          rw [hexp, List.foldl_cons, List.foldl_nil]
      rw [hacc]
      exact ih (by omega)

end Termination

/-! ### Coverage -/

/-- A path of successors leads from one node to the other. -/
def Reaches (next : ν → List ν) : ν → ν → Prop := Relation.ReflTransGen fun m n => n ∈ next m

/-- The key of the node was met, or the node is pending. -/
def Covered (key : ν → κ) (s : State ν κ σ) (n : ν) : Prop := key n ∈ s.visited ∨ n ∈ s.stack

/-- What holds at the head of the loop. -/
structure Invariant (key : ν → κ) (next : ν → List ν) (root : ν) (s : State ν κ σ) : Prop where
  sound : ∀ n ∈ s.stack, Reaches next root n
  root_covered : Covered key s root
  closed : ∀ m, Reaches next root m → key m ∈ s.visited → ∀ n ∈ next m, Covered key s n

omit [DecidableEq κ] in
theorem invariant_init (root : ν) (acc : σ) :
    Invariant key next root ⟨∅, [root], acc⟩ where
  sound n hn := by
    rw [List.mem_singleton.mp hn]
    exact Relation.ReflTransGen.refl
  root_covered := Or.inr List.mem_cons_self
  closed m _ hm := absurd hm (Finset.notMem_empty _)

variable {root : ν}

/-- Keys tell the reachable nodes apart. -/
def Separates (key : ν → κ) (next : ν → List ν) (root : ν) : Prop :=
  ∀ m n, Reaches next root m → Reaches next root n → key m = key n → m = n

omit [DecidableEq κ] in
/-- Nothing is lost when a node is dropped: its key was met. -/
theorem Invariant.drop {s : State ν κ σ} (hinv : Invariant key next root s) {n : ν}
    {stack : List ν} (hstack : s.stack = n :: stack) (hn : key n ∈ s.visited) :
    Invariant key next root { s with stack := stack } := by
  have hcovered : ∀ m, Covered key s m → Covered key { s with stack := stack } m := by
    intro m hm
    rcases hm with hm | hm
    · exact Or.inl hm
    · rw [hstack] at hm
      rcases List.mem_cons.mp hm with rfl | hm
      · exact Or.inl hn
      · exact Or.inr hm
  refine ⟨fun m hm => hinv.sound m ?_, hcovered root hinv.root_covered,
    fun m hreach hm m' hm' => hcovered m' (hinv.closed m hreach hm m' hm')⟩
  rw [hstack]
  exact List.mem_cons_of_mem n hm

/-- The successors of an expanded node are pending. -/
theorem Invariant.expand (hkey : Separates key next root) {s : State ν κ σ}
    (hinv : Invariant key next root s) {n : ν} {stack : List ν} (hstack : s.stack = n :: stack)
    (acc : σ) :
    Invariant key next root ⟨insert (key n) s.visited, (next n).reverse ++ stack, acc⟩ := by
  have hreach : Reaches next root n := hinv.sound n (by rw [hstack]; exact List.mem_cons_self)
  have hcovered : ∀ m, Covered key s m →
      Covered key ⟨insert (key n) s.visited, (next n).reverse ++ stack, acc⟩ m := by
    intro m hm
    rcases hm with hm | hm
    · exact Or.inl (Finset.mem_insert_of_mem hm)
    · rw [hstack] at hm
      rcases List.mem_cons.mp hm with rfl | hm
      · exact Or.inl (Finset.mem_insert_self _ _)
      · exact Or.inr (List.mem_append_right _ hm)
  refine ⟨fun m hm => ?_, hcovered root hinv.root_covered, fun m hm hvisited m' hm' => ?_⟩
  · rcases List.mem_append.mp hm with hm | hm
    · exact hreach.tail (List.mem_reverse.mp hm)
    · exact hinv.sound m (by rw [hstack]; exact List.mem_cons_of_mem n hm)
  · rcases Finset.mem_insert.mp hvisited with heq | hvisited
    · -- the node with this key is the one that was expanded
      obtain rfl := hkey m n hm hreach heq
      exact Or.inr (List.mem_append_left _ (List.mem_reverse.mpr hm'))
    · exact hcovered m' (hinv.closed m hm hvisited m' hm')

omit [DecidableEq κ] in
/-- When nothing is pending, the keys of all reachable nodes were met. -/
theorem Invariant.complete {s : State ν κ σ} (hinv : Invariant key next root s)
    (hstack : s.stack = []) {n : ν} (hn : Reaches next root n) : key n ∈ s.visited := by
  have hvisited : ∀ m, Covered key s m → key m ∈ s.visited := by
    intro m hm
    rcases hm with hm | hm
    · exact hm
    · rw [hstack] at hm
      exact absurd hm List.not_mem_nil
  induction hn with
  | refl => exact hvisited root hinv.root_covered
  | tail hm hn ih => exact hvisited _ (hinv.closed _ hm ih _ hn)

section Expansions

variable {size : ν → ℕ}

/-- From any state of the loop, the nodes that will still be expanded are the reachable
ones whose keys were not met yet, and no key is met twice. -/
theorem expansions_spec (visit : ν → σ → σ) (hsize : ∀ n, ((next n).map size).sum < size n)
    (hkey : Separates key next root) {fuel : ℕ} {s : State ν κ σ}
    (hinv : Invariant key next root s) (h : weight size s < fuel) :
    (∀ n, n ∈ expansions key next visit fuel s ↔ Reaches next root n ∧ key n ∉ s.visited) ∧
      ((expansions key next visit fuel s).map key).Nodup := by
  induction fuel generalizing s with
  | zero => omega
  | succ fuel ih =>
    rcases step_cases key next visit s with
      ⟨hstack, hnone⟩ | ⟨n, stack, hstack, hn, hexp, hsome⟩ | ⟨n, stack, hstack, hn, hexp, hsome⟩
    · simp only [expansions, hnone, List.map_nil, List.nodup_nil, and_true]
      exact fun n => iff_of_false List.not_mem_nil fun hn => hn.2 (hinv.complete hstack hn.1)
    · have hlt := weight_lt_of_step hsize hsome
      simp only [expansions, hsome, hexp, List.nil_append]
      exact ih (hinv.drop hstack hn) (by omega)
    · have hlt := weight_lt_of_step hsize hsome
      obtain ⟨hmem, hnodup⟩ := ih (hinv.expand hkey hstack (visit n s.acc)) (by omega)
      have hreach : Reaches next root n := hinv.sound n (by rw [hstack]; exact List.mem_cons_self)
      simp only [expansions, hsome, hexp, List.singleton_append]
      constructor
      · intro m
        rw [List.mem_cons, hmem, Finset.mem_insert, not_or]
        constructor
        · intro hm
          rcases hm with rfl | ⟨hm, -, hnot⟩
          · exact ⟨hreach, hn⟩
          · exact ⟨hm, hnot⟩
        · rintro ⟨hm, hnot⟩
          by_cases heq : key m = key n
          · exact Or.inl (hkey m n hm hreach heq)
          · exact Or.inr ⟨hm, heq, hnot⟩
      · rw [List.map_cons, List.nodup_cons]
        refine ⟨fun hin => ?_, hnodup⟩
        -- later nodes have keys that are new after this turn
        obtain ⟨m, hm, heq⟩ := List.mem_map.mp hin
        exact ((hmem m).mp hm).2 (heq ▸ Finset.mem_insert_self _ _)

end Expansions

end Worklist
end Semantics
