import EverPlayground.TonVm.Interface

/-!
# A reference implementation of the machine's values

Values that have every documented property, and a machine that is set up as documented
and stops at once. The instances are scoped, like those of `EverPlayground.Reference` for
cells.
-/

set_option autoImplicit false

namespace EverPlayground.Reference

/-- What a register can hold: a cell, a continuation that quits or runs a code, or no
temporary data. -/
inductive Register where
  | cell (v : Cell)
  | quit (exitCode : Int32)
  | code (v : SliceData)
  | emptyTuple

/-- Saved registers by number. -/
scoped instance vmTypes : VmTypes where
  SaveList := List (ℕ × Register)
  Revert := UInt32

def integerFrom (n : ℤ) : Except Error IntegerData :=
  if h : InVmRange n then .ok (.value n h) else .error ⟨"integer overflow"⟩

def processValue : IntegerData → Except Error ℤ
  | .nan => .error ⟨"not a number"⟩
  | .value n _ => .ok n

/-- The view of an empty cell. -/
def emptySlice : SliceData := .ofCell .empty

scoped instance tonVm : TonVm where
  integerFrom := integerFrom
  integerNan := .nan
  processValue := processValue
  saveListDefault := []
  withType typ := { typeOf := typ, code := emptySlice, stack := [], savelist := [], nargs := -1 }

scoped instance lawfulTonVm : LawfulTonVm where
  integerFrom _ h := dif_pos h
  integerFrom_range _ h := ⟨_, dif_neg h⟩
  integerNan := rfl
  processValue _ _ := rfl
  processValue_nan := ⟨_, rfl⟩
  withType _ := rfl

/-- Cells are accepted by the registers that are for cells, and an empty tuple by the one for
temporary data. -/
def asRegister (i : ℕ) : StackItem → Option Register
  | .cell v => if i = 4 ∨ i = 5 then some (.cell v) else none
  | .tuple [] => if i = 7 then some .emptyTuple else none
  | _ => none

def Register.toItem : Register → StackItem
  | .cell v => .cell v
  | .quit exitCode => .continuation (TonVm.withType (.quit exitCode))
  | .code v => .continuation { TonVm.withType .ordinary with code := v }
  | .emptyTuple => .tuple []

theorem toItem_of_asRegister {i : ℕ} {item : StackItem} {register : Register}
    (h : asRegister i item = some register) :
    register.toItem = item ∧ (i = 4 ∨ i = 5 ∨ i = 7) := by
  unfold asRegister at h
  split at h
  · split_ifs at h with hi
    cases h
    exact ⟨rfl, hi.imp_right Or.inl⟩
  · split_ifs at h with hi
    cases h
    exact ⟨rfl, Or.inr (Or.inr hi)⟩
  · cases h

def getRegister (savelist : List (ℕ × Register)) (i : ℕ) : Option StackItem :=
  (savelist.find? (·.1 == i)).map fun entry => entry.2.toItem

def putRegister (i : ℕ) (item : StackItem) :
    Semantics.Mut Error (List (ℕ × Register)) (Option StackItem) :=
  Semantics.Mut.ofFun fun savelist =>
    match asRegister i item with
    | some register => (.ok (getRegister savelist i), (i, register) :: savelist)
    | none => (.error ⟨"type check error"⟩, savelist)

scoped instance tonSaveList : TonSaveList where
  regs := [0, 1, 2, 3, 4, 5, 7]
  canPut i item := (asRegister i item).isSome
  get := getRegister
  put := putRegister

scoped instance lawfulTonSaveList : LawfulTonSaveList where
  mem_regs i item h := by
    obtain ⟨register, hregister⟩ := Option.isSome_iff_exists.mp h
    obtain ⟨-, rfl | rfl | rfl⟩ := toItem_of_asRegister hregister
    · exact List.elem_iff.mp rfl
    · exact List.elem_iff.mp rfl
    · exact List.elem_iff.mp rfl
  get_default _ _ := rfl
  put savelist i item h := by
    obtain ⟨register, hregister⟩ := Option.isSome_iff_exists.mp h
    refine ⟨getRegister savelist i, (i, register) :: savelist, ?_, fun j _ => ?_⟩
    · change (putRegister i item).exec savelist = _
      rw [putRegister, Semantics.Mut.exec_ofFun, hregister]
    · change getRegister ((i, register) :: savelist) j = _
      rw [getRegister, List.find?_cons]
      by_cases hj : j = i
      · simp [hj, (toItem_of_asRegister hregister).1]
      · rw [if_neg hj, beq_false_of_ne (Ne.symm hj)]
        rfl
  put_refused savelist i item h := by
    refine ⟨⟨"type check error"⟩, ?_⟩
    change (putRegister i item).exec savelist = _
    have hnone : asRegister i item = none :=
      Option.isNone_iff_eq_none.mp (Option.isSome_eq_false_iff.mp h)
    rw [putRegister, Semantics.Mut.exec_ofFun, hnone]

/-- Equality of all components. -/
noncomputable scoped instance vmEq : VmEq where
  eq cont cont' := @decide (cont = cont') (Classical.propDecidable _)
  ne cont cont' := !@decide (cont = cont') (Classical.propDecidable _)

scoped instance lawfulVmEq : LawfulVmEq where
  eq_refl _ := @decide_eq_true _ (Classical.propDecidable _) rfl
  ne_eq _ _ := rfl

structure EngineState where
  cc : ContinuationData
  ctrls : List (ℕ × Register)
  steps : UInt32
  gas : Int64

/-- What the machine has in the registers that are not given. -/
def defaultRegisters (code : SliceData) : List (ℕ × Register) :=
  [(0, .quit 0), (1, .quit 1), (3, .code code), (4, .cell .empty), (5, .cell .empty),
    (7, .emptyTuple)]

/-- The given registers come before those that the machine has by itself. -/
def installRegisters (regs : Option (List (ℕ × Register))) (code : SliceData) :
    List (ℕ × Register) :=
  regs.getD [] ++ defaultRegisters code

/-- The first entry of a register counts. -/
theorem getRegister_append {savelist savelist' : List (ℕ × Register)} {i : ℕ} {item : StackItem}
    (h : getRegister savelist i = some item) :
    getRegister (savelist ++ savelist') i = some item := by
  obtain ⟨entry, hfind, hitem⟩ := Option.map_eq_some_iff.mp h
  rw [getRegister, List.find?_append, hfind, Option.some_or, Option.map_some, hitem]

scoped instance vmEngine : VmEngine where
  Engine := EngineState
  Gas := Int64
  ExecutionError := Error
  withCapabilities _ := ⟨TonVm.withType .ordinary, [], 0, 0⟩
  setupWithLibraries engine code regs stack gas _ :=
    { cc := { TonVm.withType .ordinary with code := code, stack := stack.getD [] }
      ctrls := installRegisters regs code
      steps := 0
      gas := gas.getD engine.gas }
  setTraceCallback engine := engine
  execute engine := (.ok 0, engine)
  tvmExceptionFull _ := none
  errorText error := error.message
  cc := EngineState.cc
  ctrls := EngineState.ctrls
  steps := EngineState.steps
  getGas := EngineState.gas
  getCommittedState _ := none
  asCell
    | .cell c => .ok c
    | _ => .error ⟨"item is not a cell"⟩

scoped instance tonGas : TonGas where
  gasNew limit _ _ _ := limit

scoped instance lawfulVmEngine : LawfulVmEngine where
  setup_cc _ _ _ _ _ _ := rfl
  setup_ctrls _ _ _ _ _ _ _ _ h := getRegister_append h
  setup_gas _ _ _ _ _ _ := rfl
  setup_steps _ _ _ _ _ _ := rfl
  trace_cc _ := rfl
  trace_ctrls _ := rfl
  trace_gas _ := rfl
  trace_steps _ := rfl

end EverPlayground.Reference
