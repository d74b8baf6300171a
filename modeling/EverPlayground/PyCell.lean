import EverPlayground.Builder
import EverPlayground.DumpCell
import EverPlayground.Python.Call
import EverPlayground.TonTypes.Reference

/-!
# The `Cell` class

Making a cell from the spelling of its data and from its references, and printing it. The
printed text is a Python expression that makes the cell again, under the customary
`from ever_playground import Cell as C`.

## Main definitions

* `PyCell.create` — the constructor
* `PyCell.eval` — the value of a call expression in which `C` is the constructor
* `Cell.OrdinaryTree` — no cell of the tree is exotic

## Main results

* `PyCell.eval_dumpCell` — the printed text of an ordinary tree is a call expression whose
  value is the tree; so different trees have different texts
-/

set_option autoImplicit false

namespace EverPlayground

open Semantics Semantics.Cursor

namespace PyCell

/-- A positional argument: a cell, or an object of another class. -/
inductive Arg where
  | cell (cell : Cell)
  | other

def Arg.extract : Arg → Except PyErr Cell
  | .cell c => .ok c
  | .other => .error .typeError

section Methods

variable [TonTypes]

def appendArg (arg : Arg) : Mut PyErr PyBuilder Unit := do
  let cell ← Mut.ofExcept arg.extract
  (TonTypes.checkedAppendReference cell).mapErr runtimeErr

def create (bitstring : String) (args : List Arg) : Except PyErr Cell :=
  if args.length > 4 then
    .error (.runtimeError "cell can't contain more than 4 references")
  else do
    let slice ← (TonTypes.fromString bitstring).mapError fun _ =>
      .runtimeError ("invalid bitstring \"" ++ bitstring ++ "\"")
    let b ← Mut.result (forM args appendArg) (TonTypes.asBuilder slice)
    (TonTypes.intoCell b).mapError runtimeErr

mutual

/-- The value of a call expression; the arguments are evaluated from left to right. -/
def eval : Python.Call → Except PyErr Cell
  | .mk name literal args =>
    if name = ['C'] then do
      let cells ← evalArgs args
      create (.ofList literal) (cells.map .cell)
    else
      .error .nameError

def evalArgs : List Python.Call → Except PyErr (List Cell)
  | [] => .ok []
  | arg :: args => do
    let cell ← eval arg
    let cells ← evalArgs args
    .ok (cell :: cells)

end

end Methods

end PyCell

/-- No cell of the tree is exotic. -/
def Cell.OrdinaryTree : Cell → Prop
  | mk exotic _ _ _ child => exotic = false ∧ ∀ i, (child i).OrdinaryTree

theorem Cell.OrdinaryTree.refs {c : Cell} (h : c.OrdinaryTree) : ∀ r ∈ c.refs, r.OrdinaryTree := by
  obtain ⟨_, _, _, count, child⟩ := c
  intro r hr
  obtain ⟨i, rfl⟩ := (List.mem_ofFn' child r).mp hr
  exact h.2 i

theorem Cell.OrdinaryTree.exotic_eq {c : Cell} (h : c.OrdinaryTree) : c.exotic = false := by
  obtain ⟨_, _, _, _, _⟩ := c
  exact h.1

theorem Cell.ordinaryTree_ordinary {b : BuilderData} (h : ∀ r ∈ b.refs, r.OrdinaryTree) :
    (Cell.ordinary b).OrdinaryTree :=
  ⟨rfl, fun _ => h _ (List.getElem_mem _)⟩

namespace PyCell

section

variable [TonTypes]

/-- The call that makes a tree of cells. -/
def callOf : Cell → Python.Call
  | .mk exotic data data_le count child =>
    .mk ['C'] (TonTypes.toHexString (.mk exotic data data_le count child) true).toList
      (List.ofFn fun i => callOf (child i))

theorem callOf_eq (c : Cell) :
    callOf c = .mk ['C'] (TonTypes.toHexString c true).toList (c.refs.map callOf) := by
  obtain ⟨_, _, _, count, child⟩ := c
  rw [callOf, Cell.refs, List.map_ofFn]
  rfl

/-! ### The text of a tree is its call -/

section

open Python

omit [TonTypes] in
theorem lexes_indentation (indent : ℕ) : Lexes (indentation "    " indent).toList [] := by
  have hblank : Lexes [' '] [] := lexes_punctuation rfl
  have htab : Lexes "    ".toList [] := hblank.append (hblank.append (hblank.append hblank))
  rw [indentation, String.toList_join]
  induction indent with
  | zero => exact Lexes.nil
  | succ indent ih => exact htab.append ih

omit [TonTypes] in
/-- Separators between the children are commas in front of them. -/
theorem intercalate_eq_join (sep : String) (texts : List String) :
    (if texts = [] then "" else sep ++ sep.intercalate texts) =
      String.join (texts.map (sep ++ ·)) := by
  induction texts with
  | nil => rfl
  | cons text texts ih =>
    cases texts with
    | nil => simp
    | cons text' texts =>
      rw [if_neg (List.cons_ne_nil _ _)] at ih ⊢
      rw [String.intercalate_cons_cons, List.map_cons, String.join_cons, ← ih]
      simp only [String.append_assoc]

variable [LawfulTonTypes]

theorem toHexString_printable (c : Cell) :
    ∀ ch ∈ (TonTypes.toHexString c true).toList, ch ≠ '"' ∧ ch ≠ '\\' ∧ ch ≠ '\n' := by
  intro ch hch
  rcases LawfulTonTypes.toHexString_chars c ch hch with h | h
  · refine ⟨?_, ?_, ?_⟩ <;> rintro rfl <;> exact absurd h (by decide)
  · subst h
    decide

theorem lexes_heading (c : Cell) (indent : ℕ) :
    Lexes (heading "C" "    " c indent).toList
      [.name ['C'], .leftParen, .literal (TonTypes.toHexString c true).toList] := by
  have hname : ∀ ch ∈ ['C'], isNameChar ch = true := List.forall_mem_singleton.mpr rfl
  have hhead := lexes_head (List.cons_ne_nil 'C' []) hname (toHexString_printable c)
  have htext : (heading "C" "    " c indent).toList =
      (indentation "    " indent).toList ++
        (['C'] ++ ['(', '"'] ++ (TonTypes.toHexString c true).toList ++ ['"']) := by
    simp only [heading, String.toList_append, List.append_assoc]
    rfl
  rw [htext]
  exact (lexes_indentation indent).append hhead

/-- The text of a tree lexes to the tokens of its call. -/
theorem lexes_render (c : Cell) (indent : ℕ) :
    Lexes (render "C" "    " c indent).toList (callOf c).tokens := by
  induction c using Cell.induction generalizing indent with
  | h c ih =>
    -- the line end of a separator is a blank to the tokenizer
    have hcomma : Lexes ",\n".toList [.comma] :=
      (lexes_punctuation (c := ',') rfl).append (lexes_punctuation (c := '\n') rfl)
    -- the children, each after its separator, and the closing bracket
    have hargs : ∀ cells : List Cell, (∀ r ∈ cells, r ∈ c.refs) →
        Lexes (String.join ((cells.map (render "C" "    " · (indent + 1))).map (",\n" ++ ·)) ++
          ")").toList (argsTokens (cells.map callOf)) := by
      intro cells hcells
      induction cells with
      | nil =>
        rw [List.map_nil, List.map_nil, String.join_nil, String.empty_append]
        exact lexes_punctuation (c := ')') rfl
      | cons r cells ihcells =>
        have hr := ih r (hcells r List.mem_cons_self) (indent + 1)
        have hrest := ihcells fun r' hr' => hcells r' (List.mem_cons_of_mem r hr')
        have hall := hcomma.append (hr.append hrest)
        simp only [List.map_cons, String.join_cons, String.toList_append, List.append_assoc,
          argsTokens] at hall ⊢
        exact hall
    have hempty : c.refs = [] ↔ c.refs.map (render "C" "    " · (indent + 1)) = [] :=
      List.map_eq_nil_iff.symm
    rw [render_eq, callOf_eq, Call.tokens]
    simp only [hempty, intercalate_eq_join, String.append_assoc]
    rw [String.toList_append]
    exact (lexes_heading c indent).append (hargs c.refs fun _ hr => hr)

theorem parse_dumpCell (c : Cell) : parse (dumpCell c).toList = some (callOf c) := by
  rw [dumpCell, dumpCellGeneric, dumpLoop_single]
  exact parse_eq_some (lexes_render c 0)

end

/-! ### The value of the call is the tree -/

variable [LawfulTonTypes]

theorem appendArg_writes (cell : Cell) :
    PyBuilder.BuilderWrites (appendArg (.cell cell)) (.ofRef cell) :=
  PyBuilder.r_writes cell

theorem forM_appendArg_writes (cells : List Cell) :
    PyBuilder.BuilderWrites (forM (cells.map .cell) appendArg) ⟨[], cells⟩ := by
  induction cells with
  | nil => exact Writes.pure ()
  | cons cell cells ih =>
    rw [List.map_cons, List.forM_cons]
    exact (appendArg_writes cell).seq ih

/-- The constructor undoes the spelling of the data. -/
theorem create_eq {c : Cell} (h : c.exotic = false) :
    create (TonTypes.toHexString c true) (c.refs.map .cell) = .ok c := by
  obtain ⟨s, hs, hcontent⟩ := LawfulTonTypes.fromString_toHexString c
  have hlen : ¬ (c.refs.map Arg.cell).length > 4 := by
    rw [List.length_map]
    exact not_lt.mpr c.refs_length_le
  -- the data of the builder, followed by the references, is the content of the cell
  have hcell : (TonTypes.asBuilder s).toFragment * ⟨[], c.refs⟩ = ⟨c.data, c.refs⟩ := by
    rw [LawfulTonTypes.asBuilder, hcontent]
    exact Fragment.ext (List.append_nil c.data) rfl
  have hfits : ((TonTypes.asBuilder s).toFragment * ⟨[], c.refs⟩).Fits := by
    rw [hcell]
    exact ⟨c.data_length_le, c.refs_length_le⟩
  obtain ⟨b, hrun, hb⟩ := forM_appendArg_writes c.refs _ hfits
  rw [hcell] at hb
  -- the constructor makes ordinary cells only
  have hordinary : Cell.ordinary b = c := by
    apply Cell.ext
    · rw [Cell.ordinary_exotic, h]
    · rw [Cell.ordinary_data, hb]
    · rw [Cell.ordinary_refs, hb]
  rw [create, if_neg hlen, hs]
  change (Mut.result _ _ >>= _) = _
  rw [Mut.result_eq hrun]
  change (TonTypes.intoCell b).mapError runtimeErr = _
  rw [LawfulTonTypes.intoCell, hordinary]
  rfl

theorem eval_callOf {c : Cell} (h : c.OrdinaryTree) : eval (callOf c) = .ok c := by
  induction c using Cell.induction with
  | h c ih =>
    -- any list of children, so that the list can be taken apart
    have hargs : ∀ cells : List Cell, (∀ r ∈ cells, r ∈ c.refs) →
        evalArgs (cells.map callOf) = .ok cells := by
      intro cells hcells
      induction cells with
      | nil => rfl
      | cons r cells ihcells =>
        have hmem := hcells r List.mem_cons_self
        have hr := ih r hmem (h.refs r hmem)
        have hrest := ihcells fun r' hr' => hcells r' (List.mem_cons_of_mem r hr')
        rw [List.map_cons, evalArgs, hr, hrest]
        rfl
    rw [callOf_eq, eval, if_pos rfl, hargs c.refs fun _ hr => hr, String.ofList_toList]
    exact create_eq h.exotic_eq

/-- The text determines the call, and the call the tree. -/
theorem eq_of_dumpCell_eq {c c' : Cell} (h : c.OrdinaryTree) (h' : c'.OrdinaryTree)
    (htext : dumpCell c' = dumpCell c) : c' = c := by
  have hparse := parse_dumpCell c'
  rw [htext, parse_dumpCell c] at hparse
  have heval := eval_callOf h'
  rw [← Option.some.inj hparse, eval_callOf h] at heval
  exact (Except.ok.inj heval).symm

/-- The printed text of an ordinary tree is a call expression whose value is the tree;
so no other ordinary tree has the same text. -/
theorem eval_dumpCell {c : Cell} (h : c.OrdinaryTree) :
    (∃ call, Python.parse (dumpCell c).toList = some call ∧ eval call = .ok c) ∧
      ∀ c' : Cell, c'.OrdinaryTree → dumpCell c' = dumpCell c → c' = c :=
  ⟨⟨_, parse_dumpCell c, eval_callOf h⟩, fun _ => eq_of_dumpCell_eq h⟩

end

section Reference

open scoped Reference

/-- A cell of three bits with two empty children. -/
def twoLeaves : Cell :=
  .ordinary ⟨⟨[true, false, true], [.ordinary .new, .ordinary .new]⟩, by decide⟩

theorem twoLeaves_ordinaryTree : twoLeaves.OrdinaryTree := by
  apply Cell.ordinaryTree_ordinary
  intro r hr
  obtain rfl : r = .ordinary .new := by simpa using hr
  exact Cell.ordinaryTree_ordinary nofun

theorem eval_dumpCell_twoLeaves :
    (∃ call, Python.parse (dumpCell twoLeaves).toList = some call ∧
      eval call = .ok twoLeaves) ∧
      ∀ c' : Cell, c'.OrdinaryTree → dumpCell c' = dumpCell twoLeaves → c' = twoLeaves :=
  eval_dumpCell twoLeaves_ordinaryTree

end Reference

end PyCell

end EverPlayground
