import EverPlayground.Continuations
import EverPlayground.Dictionary

/-!
# Running the virtual machine

`runvm_generic` sets up a machine from a state, runs it and exports the state it ends in.
The exported state has the whole current continuation and the step count. The set-up takes
from the continuation its code and stack only, and from the rest of the state all but the
step count. Registers that the state does not hold are left to the machine.

## Main definitions

* `setUp`, `exportState` — the two ends of `runvmGeneric`
* `EngineView`, `EngineView.MetBy` — what a state says about a machine
* `PyVmState.Fresh` — the states of which the set-up drops nothing

## Main results

* `exportState_view` — the exported state describes the whole machine
* `setUp_view_iff` — the machine that is set up is the described one just for fresh states
-/

set_option autoImplicit false

namespace EverPlayground

open Semantics VmEngine

section

variable [VmTypes] [TonVm] [VmEngine]

structure PyVmState where
  cc : PyContinuation
  regs : VmTypes.SaveList
  steps : UInt32
  gas : Gas
  committedC4 : Option Cell
  committedC5 : Option Cell

/-- `VmState(cc, regs, gas)`. -/
def PyVmState.create (cc : PyContinuation) (regs : VmTypes.SaveList) (gas : Gas) : PyVmState where
  cc := cc
  regs := regs
  steps := 0
  gas := gas
  committedC4 := none
  committedC5 := none

structure PyVmResult where
  state : PyVmState
  exitCode : Int32
  exceptionValue : Option PyObject

/-- The machine before it is executed. -/
def setUp (state : PyVmState) (capabilities : UInt64) (trace : Bool) (libs : List PyDictionary) :
    Except PyErr Engine := do
  -- all of the continuation is converted; the code and the stack are used
  let cc ← toCont state.cc
  let engine := setupWithLibraries (withCapabilities capabilities) cc.code (some state.regs)
    (some cc.stack) (some state.gas) libs
  .ok (if trace then setTraceCallback engine else engine)

/-- The committed root and actions, as cells. -/
def exportCommitted (engine : Engine) : Except PyErr (Option Cell × Option Cell) :=
  match getCommittedState engine with
  | some (root, actions) => do
    let c4 ← (asCell root).mapError runtimeErr
    let c5 ← (asCell actions).mapError runtimeErr
    .ok (some c4, some c5)
  | none => .ok (none, none)

/-- The state of the machine after it was executed. -/
def exportState (engine : Engine) : Except PyErr PyVmState := do
  let (committedC4, committedC5) ← exportCommitted engine
  let cc ← ofCont (VmEngine.cc engine)
  .ok { cc := cc, regs := ctrls engine, steps := VmEngine.steps engine, gas := getGas engine,
        committedC4 := committedC4, committedC5 := committedC5 }

/-- The exit code and the value of the exception, if there was one. -/
def exportOutcome : Except ExecutionError Int32 → Except PyErr (Int32 × Option PyObject)
  | .ok code => .ok (code, none)
  | .error err =>
    match tvmExceptionFull err with
    | some (exitCode, value) => do
      let value ← convertFromVm value
      .ok (exitCode, some value)
    | none => .error (.runtimeError ("execution failed: " ++ errorText err))

def runvmGeneric (state : PyVmState) (capabilities : UInt64) (trace : Bool)
    (libs : List PyDictionary) : Except PyErr PyVmResult := do
  let engine ← setUp state capabilities trace libs
  let (outcome, engine) := execute engine
  let (exitCode, exceptionValue) ← exportOutcome outcome
  let state ← exportState engine
  .ok { state := state, exitCode := exitCode, exceptionValue := exceptionValue }

/-! ### What a state describes -/

/-- The current continuation, registers, gas and step count of a machine. -/
@[ext] structure EngineView where
  cc : ContinuationData
  regs : VmTypes.SaveList
  gas : Gas
  steps : UInt32

def view (engine : Engine) : EngineView where
  cc := VmEngine.cc engine
  regs := ctrls engine
  gas := getGas engine
  steps := VmEngine.steps engine

/-- The machine that a state describes, if its continuation can be converted. -/
def PyVmState.view (state : PyVmState) : Except PyErr EngineView := do
  let cc ← toCont state.cc
  .ok { cc := cc, regs := state.regs, gas := state.gas, steps := state.steps }

/-- What the set-up does not look at is as in a fresh machine. -/
structure PyVmState.Fresh (state : PyVmState) : Prop where
  typ : state.cc.typ = .ordinary
  savelist : state.cc.savelist = TonVm.saveListDefault
  nargs : extractIsize state.cc.nargs = .ok (-1)
  steps : state.steps = 0

namespace EngineView

/-- What is left of the view when only its code, stack, registers and gas are taken over. -/
def restart (v : EngineView) : EngineView where
  cc := { v.cc with typeOf := .ordinary, savelist := TonVm.saveListDefault, nargs := -1 }
  regs := v.regs
  gas := v.gas
  steps := 0

structure Fresh (v : EngineView) : Prop where
  typeOf : v.cc.typeOf = .ordinary
  savelist : v.cc.savelist = TonVm.saveListDefault
  nargs : v.cc.nargs = -1
  steps : v.steps = 0

theorem Fresh.restart_eq {v : EngineView} (h : v.Fresh) : v.restart = v := by
  apply EngineView.ext
  · apply ContinuationDataF.ext
    · exact h.typeOf.symm
    · rfl
    · rfl
    · exact h.savelist.symm
    · exact h.nargs.symm
  · rfl
  · rfl
  · exact h.steps.symm

variable [TonSaveList]

/-- The machine is as described. Registers that the description does not hold are its own. -/
structure MetBy (v : EngineView) (engine : Engine) : Prop where
  cc : VmEngine.cc engine = v.cc
  regs : ∀ i item, TonSaveList.get v.regs i = some item →
    TonSaveList.get (ctrls engine) i = some item
  gas : getGas engine = v.gas
  steps : VmEngine.steps engine = v.steps

/-- A machine that was started anew is the described one when nothing was lost. -/
theorem MetBy.iff_fresh {v : EngineView} {engine : Engine} (h : v.restart.MetBy engine) :
    v.MetBy engine ↔ v.Fresh := by
  constructor
  · intro hv
    -- the one machine has both continuations, and both step counts
    have hcc : v.restart.cc = v.cc := h.cc.symm.trans hv.cc
    exact
      { typeOf := (congrArg ContinuationDataF.typeOf hcc).symm
        savelist := (congrArg ContinuationDataF.savelist hcc).symm
        nargs := (congrArg ContinuationDataF.nargs hcc).symm
        steps := hv.steps.symm.trans h.steps }
  · intro hv
    rwa [hv.restart_eq] at h

end EngineView

/-! ### The export -/

/-- The exported state describes the machine that it was exported from. -/
theorem exportState_view [LawfulTonVm] {engine : Engine} {state : PyVmState}
    (h : exportState engine = .ok state) : state.view = .ok (view engine) := by
  rw [exportState] at h
  obtain ⟨committed, -, h⟩ := exists_of_bind_eq_ok h
  obtain ⟨v, hv, h⟩ := exists_of_bind_eq_ok h
  cases h
  -- the exported continuation is the one that converts back
  obtain ⟨v', hv', -, hcc⟩ := exists_ofCont (VmEngine.cc engine)
  obtain rfl : v' = v := Except.ok.inj (hv'.symm.trans hv)
  rw [PyVmState.view, hcc]
  rfl

/-! ### The import -/

/-- A state is fresh when the machine it describes is. -/
theorem PyVmState.fresh_iff [LawfulTonVm] {state : PyVmState} {v : EngineView}
    (h : state.view = .ok v) : v.Fresh ↔ state.Fresh := by
  obtain ⟨cc, hcc, h⟩ := exists_of_bind_eq_ok h
  cases h
  obtain ⟨htyp, hsavelist, hnargs⟩ := toCont_components hcc
  constructor
  · intro hv
    have hn : cc.nargs = -1 := hv.nargs
    refine ⟨htyp.symm.trans hv.typeOf, hsavelist.symm.trans hv.savelist, ?_, hv.steps⟩
    rw [hnargs, hn]
  · intro hs
    have hn : cc.nargs = -1 := Except.ok.inj (hnargs.symm.trans hs.nargs)
    exact ⟨htyp.trans hs.typ, hsavelist.trans hs.savelist, hn, hs.steps⟩

variable [TonSaveList] [LawfulVmEngine]

theorem metBy_setupWithLibraries (engine : Engine) (v : EngineView) (libs : List PyDictionary) :
    v.restart.MetBy
      (setupWithLibraries engine v.cc.code (some v.regs) (some v.cc.stack) (some v.gas) libs) where
  cc := LawfulVmEngine.setup_cc _ _ _ _ _ _
  regs := LawfulVmEngine.setup_ctrls _ _ _ _ _ _
  gas := LawfulVmEngine.setup_gas _ _ _ _ _ _
  steps := LawfulVmEngine.setup_steps _ _ _ _ _ _

/-- Tracing does not show. -/
theorem EngineView.MetBy.setTraceCallback {v : EngineView} {engine : Engine} (h : v.MetBy engine) :
    v.MetBy (setTraceCallback engine) where
  cc := (LawfulVmEngine.trace_cc engine).trans h.cc
  regs i item hitem := by
    rw [LawfulVmEngine.trace_ctrls]
    exact h.regs i item hitem
  gas := (LawfulVmEngine.trace_gas engine).trans h.gas
  steps := (LawfulVmEngine.trace_steps engine).trans h.steps

/-- Setting up keeps the code and the stack of the continuation, the registers and the gas,
with or without tracing. -/
theorem setUp_metBy {state : PyVmState} {v : EngineView} (h : state.view = .ok v)
    (capabilities : UInt64) (trace : Bool) (libs : List PyDictionary) :
    ∃ engine, setUp state capabilities trace libs = .ok engine ∧ v.restart.MetBy engine := by
  obtain ⟨cc, hcc, h⟩ := exists_of_bind_eq_ok h
  cases h
  have hsetup := metBy_setupWithLibraries (withCapabilities capabilities)
    { cc := cc, regs := state.regs, gas := state.gas, steps := state.steps } libs
  refine ⟨_, by rw [setUp, hcc]; rfl, ?_⟩
  cases trace with
  | false => exact hsetup
  | true => exact hsetup.setTraceCallback

/-- The machine that is set up is the one the state describes exactly when the state is
fresh. An exported state is imported unchanged exactly when its machine is. -/
theorem setUp_view_iff [LawfulTonVm] (capabilities : UInt64) (trace : Bool)
    (libs : List PyDictionary) :
    (∀ (state : PyVmState) (v : EngineView), state.view = .ok v →
      ∃ engine, setUp state capabilities trace libs = .ok engine ∧
        (v.MetBy engine ↔ state.Fresh)) ∧
      ∀ (engine : Engine) (state : PyVmState), exportState engine = .ok state →
        ∃ engine', setUp state capabilities trace libs = .ok engine' ∧
          ((view engine).MetBy engine' ↔ (view engine).Fresh) := by
  constructor
  · intro state v h
    obtain ⟨engine, hengine, hmet⟩ := setUp_metBy h capabilities trace libs
    exact ⟨engine, hengine, hmet.iff_fresh.trans (PyVmState.fresh_iff h)⟩
  · intro engine state h
    obtain ⟨engine', hengine, hmet⟩ := setUp_metBy (exportState_view h) capabilities trace libs
    exact ⟨engine', hengine, hmet.iff_fresh⟩

end

section Reference

open scoped Reference

/-- A value in every register that the machine starts with, some of them not its own. -/
def exampleRegs : VmTypes.SaveList :=
  [(0, .quit 5), (1, .quit 6), (3, .code Reference.emptySlice), (4, .cell .empty),
    (5, .cell .empty), (7, .emptyTuple)]

/-- A state that runs a continuation of the given type, with an empty code and the stack `[7]`. -/
def exampleState (typ : ContinuationType) : PyVmState :=
  .create
    { typ := typ, code := Reference.emptySlice, stack := .list [.int 7], savelist := [],
      nargs := .int (-1) }
    exampleRegs (1000 : Int64)

/-- The machine that `exampleState` describes. -/
def exampleView (typ : ContinuationType) : EngineView where
  cc :=
    { typeOf := typ, code := Reference.emptySlice,
      stack := [.integer (.value 7 (by decide))], savelist := [], nargs := -1 }
  regs := exampleRegs
  gas := (1000 : Int64)
  steps := 0

theorem exampleState_view (typ : ContinuationType) :
    (exampleState typ).view = .ok (exampleView typ) := by
  rw [PyVmState.view, show toCont (exampleState typ).cc = .ok (exampleView typ).cc from
    toCont_eq (-1) fun _ => rfl]
  rfl

theorem exampleState_fresh : (exampleState .ordinary).Fresh :=
  ⟨rfl, rfl, extractIsize_int (-1), rfl⟩

theorem setUp_view_iff_ordinary :
    ∃ engine, setUp (exampleState .ordinary) 0 false [] = .ok engine ∧
      (exampleView .ordinary).MetBy engine := by
  obtain ⟨engine, hengine, hiff⟩ :=
    (setUp_view_iff 0 false []).1 _ _ (exampleState_view .ordinary)
  exact ⟨engine, hengine, hiff.mpr exampleState_fresh⟩

/-- A machine that should exit with code 0 runs the code of its continuation instead. -/
theorem setUp_quit :
    (exampleState (.quit 0)).view = .ok (exampleView (.quit 0)) ∧
      ∀ engine, setUp (exampleState (.quit 0)) 0 false [] = .ok engine →
        ¬ (exampleView (.quit 0)).MetBy engine := by
  refine ⟨exampleState_view _, fun engine hengine hmet => ?_⟩
  obtain ⟨engine', hengine', hrestart⟩ := setUp_metBy (exampleState_view (.quit 0)) 0 false []
  obtain rfl : engine' = engine := Except.ok.inj (hengine'.symm.trans hengine)
  cases (hrestart.iff_fresh.mp hmet).typeOf

end Reference

end EverPlayground
