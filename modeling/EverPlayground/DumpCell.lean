import Mathlib.Algebra.BigOperators.Group.List.Basic
import EverPlayground.TonTypes.Interface

/-!
# Printing a cell

`dump_cell` walks over a tree of cells with an explicit stack. A cell on the stack is
still to be opened; a closing bracket waits below the children of its cell. A separator
is written when, after a bracket, another cell is on top.

## Main definitions

* `dumpLoop` — the loop, on a stack of phases
* `render` — the text of a tree by recursion, written out for itself

## Main results

* `dumpLoop_pre` — a cell on top of the stack contributes its rendering, and the loop goes
  on below it
* `dumpCellGeneric_eq_render` — the loop prints the rendering of the tree
-/

set_option autoImplicit false

namespace EverPlayground

/-- The number of cells in a tree. -/
def Cell.size : Cell → ℕ
  | mk _ _ _ _ child => 1 + (List.ofFn fun i => size (child i)).sum

theorem Cell.size_eq (c : Cell) : c.size = 1 + (c.refs.map size).sum := by
  obtain ⟨_, _, _, count, child⟩ := c
  rw [size, refs, List.map_ofFn]
  rfl

/-! ### The loop -/

/-- `pre` dumps indentation, the heading and the data string; `post` dumps a closing
bracket. -/
inductive Phase where
  | pre (cell : Cell) (indent : ℕ)
  | post

/-- A cell is opened once and closed once. -/
def Phase.weight : Phase → ℕ
  | pre cell _ => 2 * cell.size
  | post => 1

/-- The cells of a list are pushed in reverse, so that the first is on top. -/
def pushChildren (cells : List Cell) (indent : ℕ) (stack : List Phase) : List Phase :=
  cells.foldr (fun child stack => .pre child indent :: stack) stack

theorem weight_pushChildren (cells : List Cell) (indent : ℕ) (stack : List Phase) :
    ((pushChildren cells indent stack).map Phase.weight).sum =
      2 * (cells.map Cell.size).sum + (stack.map Phase.weight).sum := by
  induction cells with
  | nil => simp [pushChildren]
  | cons cell cells ih =>
    have hcons : pushChildren (cell :: cells) indent stack =
        .pre cell indent :: pushChildren cells indent stack := rfl
    rw [hcons, List.map_cons, List.sum_cons, ih, List.map_cons, List.sum_cons, Phase.weight]
    ring

/-- What is written after a closing bracket, by what is then on top of the stack. -/
def separator : List Phase → String
  | .pre _ _ :: _ => ",\n"
  | _ => ""

/-- `tab.repeat(indent)`. -/
def indentation (tab : String) (indent : ℕ) : String := String.join (List.replicate indent tab)

section

variable [TonTypes]

/-- Indentation, heading and data string. -/
def heading (ctorName tab : String) (cell : Cell) (indent : ℕ) : String :=
  indentation tab indent ++ ctorName ++ "(\"" ++ TonTypes.toHexString cell true ++ "\""

def dumpLoop (ctorName tab : String) : List Phase → String → String
  | [], output => output
  | .pre cell indent :: stack, output =>
    dumpLoop ctorName tab (pushChildren cell.refs (indent + 1) (.post :: stack))
      (output ++ heading ctorName tab cell indent ++
        if cell.referencesCount > 0 then ",\n" else "")
  | .post :: stack, output => dumpLoop ctorName tab stack (output ++ ")" ++ separator stack)
termination_by stack => (stack.map Phase.weight).sum
decreasing_by
  -- an opened cell leaves its bracket and its children, which weigh one less
  · rw [weight_pushChildren]
    simp only [List.map_cons, List.sum_cons, Phase.weight, Cell.size_eq cell]
    omega
  · simp [Phase.weight]

def dumpCellGeneric (cell : Cell) (ctorName tab : String) : String :=
  dumpLoop ctorName tab [.pre cell 0] ""

def dumpCell (cell : Cell) : String := dumpCellGeneric cell "C" "    "

/-! ### The text of a tree -/

/-- The text of a tree of cells at a given depth, by recursion over the tree: the tab as often
as the depth says, the constructor name, an opening bracket, the quoted data, the children,
each after a comma and a line end, and a closing bracket. -/
def render (ctorName tab : String) : Cell → ℕ → String
  | .mk exotic data data_le count child, depth =>
    String.join (List.replicate depth tab) ++ ctorName ++ "(" ++
      ("\"" ++ TonTypes.toHexString (.mk exotic data data_le count child) true ++ "\"") ++
      (if count = 0 then ""
      else ",\n" ++ ",\n".intercalate
        (List.ofFn fun i => render ctorName tab (child i) (depth + 1))) ++ ")"

/-- What the loop writes when it opens a cell. -/
theorem heading_eq (ctorName tab : String) (c : Cell) (indent : ℕ) :
    heading ctorName tab c indent =
      String.join (List.replicate indent tab) ++ ctorName ++ "(" ++
        ("\"" ++ TonTypes.toHexString c true ++ "\"") := by
  have hopen : "(\"" = "(" ++ "\"" := rfl
  rw [heading, indentation, hopen]
  simp only [String.append_assoc]

theorem render_eq (ctorName tab : String) (c : Cell) (indent : ℕ) :
    render ctorName tab c indent =
      heading ctorName tab c indent ++
        (if c.refs = [] then ""
        else ",\n" ++ ",\n".intercalate
          (c.refs.map fun r => render ctorName tab r (indent + 1))) ++ ")" := by
  -- children given by a function of their index, as the list of references
  obtain ⟨exotic, data, data_le, count, child⟩ := c
  have hchildren : (Cell.refs (.mk exotic data data_le count child)).map
      (render ctorName tab · (indent + 1)) =
      List.ofFn fun i => render ctorName tab (child i) (indent + 1) := by
    rw [Cell.refs, List.map_ofFn]
    rfl
  have hcount : count = 0 ↔ Cell.refs (.mk exotic data data_le count child) = [] := by
    rw [← List.length_eq_zero_iff, Cell.refs, List.length_ofFn, Fin.ext_iff]
    rfl
  rw [render, heading_eq, hchildren]
  simp only [hcount]

/-- The children of a cell are rendered in order, with separators between them. -/
theorem dumpLoop_children {ctorName tab : String} {indent : ℕ} {cells : List Cell}
    (h : ∀ c ∈ cells, ∀ stack output, dumpLoop ctorName tab (.pre c indent :: stack) output =
      dumpLoop ctorName tab stack (output ++ render ctorName tab c indent ++ separator stack))
    (stack : List Phase) (output : String) :
    dumpLoop ctorName tab (pushChildren cells indent (.post :: stack)) output =
      dumpLoop ctorName tab (.post :: stack)
        (output ++ ",\n".intercalate (cells.map (render ctorName tab · indent))) := by
  induction cells generalizing output with
  | nil => simp [pushChildren]
  | cons c cells ih =>
    have hpush : pushChildren (c :: cells) indent (.post :: stack) =
        .pre c indent :: pushChildren cells indent (.post :: stack) := rfl
    rw [hpush, h c List.mem_cons_self, ih fun c' hc' => h c' (List.mem_cons_of_mem c hc')]
    -- the separator after a child depends on whether another child is on top
    cases cells with
    | nil => simp [pushChildren, separator]
    | cons c' cells =>
      have hseparator : separator (pushChildren (c' :: cells) indent (.post :: stack)) = ",\n" :=
        rfl
      simp only [hseparator, List.map_cons, String.intercalate_cons_cons, String.append_assoc]

/-- A cell on top of the stack contributes its rendering. -/
theorem dumpLoop_pre (ctorName tab : String) (c : Cell) (indent : ℕ) (stack : List Phase)
    (output : String) :
    dumpLoop ctorName tab (.pre c indent :: stack) output =
      dumpLoop ctorName tab stack
        (output ++ render ctorName tab c indent ++ separator stack) := by
  induction c using Cell.induction generalizing indent stack output with
  | h c ih =>
    rw [dumpLoop, dumpLoop_children fun r hr stack output => ih r hr (indent + 1) stack output,
      dumpLoop, render_eq]
    have hrefs : c.referencesCount > 0 ↔ ¬ c.refs = [] := by
      rw [Cell.referencesCount, gt_iff_lt, List.length_pos_iff]
    -- a cell without children is closed on the line it is opened on
    by_cases hempty : c.refs = []
    · simp [hrefs, hempty, String.append_assoc]
    · simp [hrefs, hempty, String.append_assoc]

/-- A single cell on the stack, with nothing written yet. -/
theorem dumpLoop_single (ctorName tab : String) (c : Cell) :
    dumpLoop ctorName tab [.pre c 0] "" = render ctorName tab c 0 := by
  rw [dumpLoop_pre, dumpLoop]
  simp only [separator, String.empty_append, String.append_empty]

/-- The iterative printer writes what the recursion over the tree does, for every
constructor name and tab string. -/
theorem dumpCellGeneric_eq_render (cell : Cell) (ctorName tab : String) :
    dumpCellGeneric cell ctorName tab = render ctorName tab cell 0 :=
  dumpLoop_single ctorName tab cell

end

end EverPlayground
