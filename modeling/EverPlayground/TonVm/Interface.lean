import EverPlayground.TonTypes.Interface

/-!
# The virtual machine under the package

The values of `ton_vm` and the functions that the package calls, as parameters with the
documented facts about them. The list of saved registers is opaque: the package passes it
on, and reads and writes one register at a time.

## Main definitions

* `IntegerData`, `ContinuationType`, `ContinuationData`, `StackItem` — the values
* `TonVm`, `LawfulTonVm` — their functions
* `TonSaveList`, `LawfulTonSaveList` — saved registers
* `VmEq`, `LawfulVmEq` — equality of continuations
* `VmEngine`, `LawfulVmEngine` — the machine itself
* `TonGas` — its gas
-/

set_option autoImplicit false

namespace EverPlayground

/-- The integers of the machine: signed, 257 bits. -/
def InVmRange (n : ℤ) : Prop := -(2 ^ 256) ≤ n ∧ n < 2 ^ 256

instance (n : ℤ) : Decidable (InVmRange n) := inferInstanceAs (Decidable (_ ∧ _))

inductive IntegerData where
  | nan
  | value (n : ℤ) (h : InVmRange n)

/-- The types of `ton_vm` that the package does not look into. -/
class VmTypes where
  SaveList : Type
  /-- The payload of a `CatchRevert` continuation. -/
  Revert : Type

variable [VmTypes]

inductive ContinuationType where
  | againLoopBody (body : SliceData)
  | tryCatch
  | catchRevert (revert : VmTypes.Revert)
  | ordinary
  | pushInt (value : Int32)
  | quit (exitCode : Int32)
  | repeatLoopBody (body : SliceData) (counter : Int64)
  | untilLoopCondition (body : SliceData)
  | whileLoopCondition (body cond : SliceData)
  | excQuit

/-- The five components of a continuation; a stack is listed from bottom to top. -/
@[ext] structure ContinuationDataF (α : Type) where
  typeOf : ContinuationType
  code : SliceData
  stack : List α
  savelist : VmTypes.SaveList
  nargs : Int64

inductive StackItem where
  | none
  | integer (v : IntegerData)
  | cell (v : Cell)
  | slice (v : SliceData)
  | builder (v : BuilderData)
  | tuple (items : List StackItem)
  | continuation (cont : ContinuationDataF StackItem)

abbrev ContinuationData := ContinuationDataF StackItem

/-! ### Values -/

class TonVm where
  integerFrom : ℤ → Except Error IntegerData
  integerNan : IntegerData
  processValue : IntegerData → Except Error ℤ
  saveListDefault : VmTypes.SaveList
  withType : ContinuationType → ContinuationData

class LawfulTonVm [TonVm] : Prop where
  integerFrom : ∀ n (h : InVmRange n), TonVm.integerFrom n = .ok (.value n h)
  integerFrom_range : ∀ n, ¬ InVmRange n → ∃ e, TonVm.integerFrom n = .error e
  integerNan : TonVm.integerNan = .nan
  processValue : ∀ n h, TonVm.processValue (.value n h) = .ok n
  processValue_nan : ∃ e, TonVm.processValue .nan = .error e
  withType : ∀ typ, TonVm.withType typ =
    { typeOf := typ, code := (TonVm.withType typ).code, stack := [],
      savelist := TonVm.saveListDefault, nargs := -1 }

/-- `SaveList`: the numbers of the registers, which values a register accepts, and the
value it holds. -/
class TonSaveList where
  regs : List ℕ
  canPut : ℕ → StackItem → Bool
  get : VmTypes.SaveList → ℕ → Option StackItem
  /-- Returns the value that was there before. -/
  put : ℕ → StackItem → Semantics.Mut Error VmTypes.SaveList (Option StackItem)

/-- Putting a value changes its own register only; a value that the register does not accept
is refused. -/
class LawfulTonSaveList [TonVm] [TonSaveList] : Prop where
  mem_regs : ∀ i item, TonSaveList.canPut i item = true → i ∈ TonSaveList.regs
  get_default : ∀ i ∈ TonSaveList.regs, TonSaveList.get TonVm.saveListDefault i = none
  put : ∀ savelist i item, TonSaveList.canPut i item = true →
    ∃ old savelist', (TonSaveList.put i item).exec savelist = (.ok old, savelist') ∧
      ∀ j ∈ TonSaveList.regs,
        TonSaveList.get savelist' j = if j = i then some item else TonSaveList.get savelist j
  put_refused : ∀ savelist i item, TonSaveList.canPut i item = false →
    (TonSaveList.put i item).Raises savelist

/-- The two comparisons of `ContinuationData: PartialEq`. -/
class VmEq where
  eq : ContinuationData → ContinuationData → Bool
  ne : ContinuationData → ContinuationData → Bool

class LawfulVmEq [VmEq] : Prop where
  eq_refl : ∀ cont, VmEq.eq cont cont = true
  ne_eq : ∀ cont cont', VmEq.ne cont cont' = !VmEq.eq cont cont'

/-! ### The machine -/

variable [TonVm]

class VmEngine where
  Engine : Type
  Gas : Type
  ExecutionError : Type
  withCapabilities : UInt64 → Engine
  setupWithLibraries : Engine → SliceData → Option VmTypes.SaveList → Option (List StackItem) →
    Option Gas → List HashmapE → Engine
  setTraceCallback : Engine → Engine
  execute : Engine → Except ExecutionError Int32 × Engine
  /-- The exit code and the value of an exception of the machine; `none` for an error that
  is not one. -/
  tvmExceptionFull : ExecutionError → Option (Int32 × StackItem)
  errorText : ExecutionError → String
  cc : Engine → ContinuationData
  ctrls : Engine → VmTypes.SaveList
  steps : Engine → UInt32
  getGas : Engine → Gas
  /-- The root and the actions, if anything is committed. -/
  getCommittedState : Engine → Option (StackItem × StackItem)
  asCell : StackItem → Except Error Cell

open VmEngine in
/-- A machine is set up with a default ordinary continuation for the given code and stack,
with the given gas, before its first step. The registers that are given are installed, and
the machine has values of its own for others. Tracing changes none of these. -/
class LawfulVmEngine [TonSaveList] [VmEngine] : Prop where
  setup_cc : ∀ engine code regs stack gas libs,
    cc (setupWithLibraries engine code (some regs) (some stack) (some gas) libs) =
      { typeOf := .ordinary, code := code, stack := stack,
        savelist := TonVm.saveListDefault, nargs := -1 }
  setup_ctrls : ∀ engine code regs stack gas libs i item, TonSaveList.get regs i = some item →
    TonSaveList.get
      (ctrls (setupWithLibraries engine code (some regs) (some stack) (some gas) libs)) i =
        some item
  setup_gas : ∀ engine code regs stack gas libs,
    getGas (setupWithLibraries engine code (some regs) (some stack) (some gas) libs) = gas
  setup_steps : ∀ engine code regs stack gas libs,
    steps (setupWithLibraries engine code (some regs) (some stack) (some gas) libs) = 0
  trace_cc : ∀ engine, cc (setTraceCallback engine) = cc engine
  trace_ctrls : ∀ engine, ctrls (setTraceCallback engine) = ctrls engine
  trace_gas : ∀ engine, getGas (setTraceCallback engine) = getGas engine
  trace_steps : ∀ engine, steps (setTraceCallback engine) = steps engine

/-- `Gas::new`: limit, credit, the largest limit and the price. -/
class TonGas [VmEngine] where
  gasNew : Int64 → Int64 → Int64 → Int64 → VmEngine.Gas

end EverPlayground
