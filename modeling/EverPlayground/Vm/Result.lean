import EverPlayground.Continuations.SaveList
import EverPlayground.Vm

/-!
# Results of the virtual machine

What `runvm_generic` hands out is a Python object for every part of a machine that has been
executed. The parts are exported with one family of converters, and can be told from the
result with the other one. An export never fails on a value of the machine, so the call
raises only before the machine runs, on an error that is no exception of the machine, and on
a committed root that is not a cell.

## Main definitions

* `PyVmResult.Reports` — what a result says about the end of a run
* `Unexportable` — the ends that no result reports

## Main results

* `runvmGeneric_reports` — what is returned is the only result that reports the run, and when
  nothing is returned
-/

set_option autoImplicit false

namespace EverPlayground

open Semantics VmEngine

section

variable [VmTypes] [TonVm] [VmEngine]

/-- The exit code, and the exception if there was one. -/
def ReportsOutcome (exitCode : Int32) (exceptionValue : Option PyObject) :
    Except ExecutionError Int32 → Prop
  | .ok code => exitCode = code ∧ exceptionValue = none
  | .error err => ∃ item value, tvmExceptionFull err = some (exitCode, item) ∧
      exceptionValue = some value ∧ value.Convertible ∧ convertToVm value = .ok item

/-- The committed cells, both or none. -/
def ReportsCommitted (c4 c5 : Option Cell) : Option (StackItem × StackItem) → Prop
  | none => c4 = none ∧ c5 = none
  | some (root, actions) => ∃ cell cell', asCell root = .ok cell ∧ asCell actions = .ok cell' ∧
      c4 = some cell ∧ c5 = some cell'

/-- The result tells how a run ended, in objects that are built from values of the machine. Its
state describes the machine. -/
structure PyVmResult.Reports (r : PyVmResult) (run : Except ExecutionError Int32 × Engine) :
    Prop where
  outcome : ReportsOutcome r.exitCode r.exceptionValue run.1
  cc : ConvertibleCont r.state.cc
  state : r.state.view = .ok (view run.2)
  committed : ReportsCommitted r.state.committedC4 r.state.committedC5 (getCommittedState run.2)

/-- The end of a run that cannot be exported. -/
def Unexportable (run : Except ExecutionError Int32 × Engine) : Prop :=
  (∃ err, run.1 = .error err ∧ tvmExceptionFull err = none) ∨
    ∃ root actions, getCommittedState run.2 = some (root, actions) ∧
      ((∃ e, asCell root = .error e) ∨ ∃ e, asCell actions = .error e)

/-- The rest of `runvm_generic`, once the machine is set up. -/
def finish (engine : Engine) : Except PyErr PyVmResult := do
  let (outcome, engine) := execute engine
  let (exitCode, exceptionValue) ← exportOutcome outcome
  let state ← exportState engine
  .ok { state := state, exitCode := exitCode, exceptionValue := exceptionValue }

theorem runvmGeneric_eq (state : PyVmState) (capabilities : UInt64) (trace : Bool)
    (libs : List PyDictionary) :
    runvmGeneric state capabilities trace libs = setUp state capabilities trace libs >>= finish :=
  rfl

/-! ### One part at a time -/

section

variable [LawfulTonVm]

omit [VmEngine] in
/-- The export of a value is the object built from values that is converted to it. -/
theorem convertFromVm_eq_ok_iff {item : StackItem} {v : PyObject} :
    convertFromVm item = .ok v ↔ v.Convertible ∧ convertToVm v = .ok item := by
  constructor
  · intro h
    obtain ⟨v', hfrom, hv, hto⟩ := exists_convertFromVm item
    obtain rfl : v' = v := Except.ok.inj (hfrom.symm.trans h)
    exact ⟨hv, hto⟩
  · rintro ⟨hv, h⟩
    have hfrom := PySaveList.convertFromVm_of_convertToVm h
    rwa [plain_of_convertible v hv] at hfrom

omit [VmEngine] in
theorem ofCont_eq_ok_iff {cont : ContinuationData} {v : PyContinuation} :
    ofCont cont = .ok v ↔ ConvertibleCont v ∧ toCont v = .ok cont := by
  constructor
  · intro h
    obtain ⟨v', hfrom, hv, hto⟩ := exists_ofCont cont
    obtain rfl : v' = v := Except.ok.inj (hfrom.symm.trans h)
    exact ⟨hv, hto⟩
  · rintro ⟨hv, h⟩
    obtain ⟨cont', hto, hfrom⟩ := ofCont_toCont v hv
    obtain rfl : cont' = cont := Except.ok.inj (hto.symm.trans h)
    exact hfrom

theorem exportOutcome_eq_ok_iff {outcome : Except ExecutionError Int32} {exitCode : Int32}
    {value : Option PyObject} :
    exportOutcome outcome = .ok (exitCode, value) ↔ ReportsOutcome exitCode value outcome := by
  cases outcome with
  | ok code => simp [exportOutcome, ReportsOutcome, eq_comm]
  | error err =>
    rw [exportOutcome, ReportsOutcome]
    cases hfull : tvmExceptionFull err with
    | none => simp
    | some exception =>
      obtain ⟨code, item⟩ := exception
      simp only [bind_eq_ok_iff, convertFromVm_eq_ok_iff, Except.ok.injEq, Prod.mk.injEq,
        Option.some.injEq]
      constructor
      · rintro ⟨v, hv, rfl, rfl⟩
        exact ⟨item, v, ⟨rfl, rfl⟩, rfl, hv⟩
      · rintro ⟨_, v, ⟨rfl, rfl⟩, rfl, hv⟩
        exact ⟨v, hv, rfl, rfl⟩

omit [TonVm] [LawfulTonVm] in
theorem exportCommitted_eq_ok_iff {engine : Engine} {c4 c5 : Option Cell} :
    exportCommitted engine = .ok (c4, c5) ↔ ReportsCommitted c4 c5 (getCommittedState engine) := by
  rw [exportCommitted]
  cases getCommittedState engine with
  | none => simp [ReportsCommitted, eq_comm]
  | some committed =>
    simp only [ReportsCommitted]
    simp only [bind_eq_ok_iff, mapError_eq_ok_iff, Except.ok.injEq, Prod.mk.injEq]
    constructor
    · rintro ⟨cell, hcell, cell', hcell', rfl, rfl⟩
      exact ⟨cell, cell', hcell, hcell', rfl, rfl⟩
    · rintro ⟨cell, cell', hcell, hcell', rfl, rfl⟩
      exact ⟨cell, hcell, cell', hcell', rfl, rfl⟩

omit [LawfulTonVm] in
theorem view_eq_ok_iff {state : PyVmState} {engine : Engine} :
    state.view = .ok (view engine) ↔ toCont state.cc = .ok (VmEngine.cc engine) ∧
      state.regs = ctrls engine ∧ state.gas = getGas engine ∧
        state.steps = VmEngine.steps engine := by
  rw [PyVmState.view, bind_eq_ok_iff]
  simp only [Except.ok.injEq, view, EngineView.mk.injEq]
  constructor
  · rintro ⟨_, hcc, rfl, hrest⟩
    exact ⟨hcc, hrest⟩
  · rintro ⟨hcc, hrest⟩
    exact ⟨_, hcc, rfl, hrest⟩

theorem exportState_eq_ok_iff {engine : Engine} {state : PyVmState} :
    exportState engine = .ok state ↔ ConvertibleCont state.cc ∧
      state.view = .ok (view engine) ∧
        ReportsCommitted state.committedC4 state.committedC5 (getCommittedState engine) := by
  rw [view_eq_ok_iff, ← exportCommitted_eq_ok_iff, exportState, bind_eq_ok_iff]
  constructor
  · rintro ⟨⟨c4, c5⟩, hcommitted, h⟩
    obtain ⟨cc, hcc, h⟩ := exists_of_bind_eq_ok h
    cases h
    obtain ⟨hbuilt, hcc⟩ := ofCont_eq_ok_iff.mp hcc
    exact ⟨hbuilt, ⟨hcc, rfl, rfl, rfl⟩, hcommitted⟩
  · rintro ⟨hbuilt, ⟨hcc, hregs, hgas, hsteps⟩, hcommitted⟩
    refine ⟨_, hcommitted, bind_eq_ok_iff.mpr ⟨_, ofCont_eq_ok_iff.mpr ⟨hbuilt, hcc⟩, ?_⟩⟩
    rw [← hregs, ← hgas, ← hsteps]

/-- A part that can be told is told by the result. -/
theorem exists_reports_iff {run : Except ExecutionError Int32 × Engine} :
    (∃ r : PyVmResult, r.Reports run) ↔ ¬ Unexportable run := by
  constructor
  · rintro ⟨r, hr⟩ (⟨err, herr, hfull⟩ | ⟨root, actions, hcommitted, hcell⟩)
    · have houtcome := hr.outcome
      rw [herr] at houtcome
      obtain ⟨item, value, hsome, -⟩ := houtcome
      rw [hfull] at hsome
      cases hsome
    · have hboth := hr.committed
      rw [hcommitted] at hboth
      obtain ⟨cell, cell', hroot, hactions, -⟩ := hboth
      rcases hcell with ⟨e, he⟩ | ⟨e, he⟩
      · rw [hroot] at he
        cases he
      · rw [hactions] at he
        cases he
  · intro h
    obtain ⟨houtcome, hcommitted⟩ := not_or.mp h
    -- a value of the machine can always be told
    have hr : ∃ exitCode value, ReportsOutcome exitCode value run.1 := by
      cases hrun : run.1 with
      | ok code => exact ⟨code, none, rfl, rfl⟩
      | error err =>
        cases hfull : tvmExceptionFull err with
        | none => exact absurd ⟨err, hrun, hfull⟩ houtcome
        | some exception =>
          obtain ⟨v, -, hv, hto⟩ := exists_convertFromVm exception.2
          exact ⟨exception.1, some v, exception.2, v, hfull, rfl, hv, hto⟩
    have hc : ∃ c4 c5, ReportsCommitted c4 c5 (getCommittedState run.2) := by
      cases hget : getCommittedState run.2 with
      | none => exact ⟨none, none, rfl, rfl⟩
      | some committed =>
        obtain ⟨root, actions⟩ := committed
        cases hroot : asCell root with
        | error e => exact absurd ⟨root, actions, hget, Or.inl ⟨e, hroot⟩⟩ hcommitted
        | ok cell =>
          cases hactions : asCell actions with
          | error e => exact absurd ⟨root, actions, hget, Or.inr ⟨e, hactions⟩⟩ hcommitted
          | ok cell' => exact ⟨some cell, some cell', cell, cell', hroot, hactions, rfl, rfl⟩
    obtain ⟨exitCode, value, hr⟩ := hr
    obtain ⟨c4, c5, hc⟩ := hc
    obtain ⟨cc, -, hbuilt, hcc⟩ := exists_ofCont (VmEngine.cc run.2)
    exact ⟨⟨⟨cc, ctrls run.2, VmEngine.steps run.2, getGas run.2, c4, c5⟩, exitCode, value⟩, hr,
      hbuilt, view_eq_ok_iff.mpr ⟨hcc, rfl, rfl, rfl⟩, hc⟩

/-! ### The call -/

theorem finish_eq_ok_iff {engine : Engine} {r : PyVmResult} :
    finish engine = .ok r ↔ r.Reports (execute engine) := by
  rw [finish]
  obtain ⟨outcome, engine'⟩ := execute engine
  rw [bind_eq_ok_iff]
  constructor
  · rintro ⟨⟨exitCode, value⟩, houtcome, h⟩
    obtain ⟨state, hstate, h⟩ := exists_of_bind_eq_ok h
    cases h
    obtain ⟨hbuilt, hview, hcommitted⟩ := exportState_eq_ok_iff.mp hstate
    exact ⟨exportOutcome_eq_ok_iff.mp houtcome, hbuilt, hview, hcommitted⟩
  · intro h
    refine ⟨_, exportOutcome_eq_ok_iff.mpr h.outcome, bind_eq_ok_iff.mpr ⟨r.state, ?_, rfl⟩⟩
    exact exportState_eq_ok_iff.mpr ⟨h.cc, h.state, h.committed⟩

theorem finish_eq_error_iff {engine : Engine} :
    (∃ e, finish engine = .error e) ↔ Unexportable (execute engine) := by
  rw [← not_iff_not, ← exists_reports_iff]
  simp only [← finish_eq_ok_iff]
  cases finish engine <;> simp

omit [LawfulTonVm] in
/-- Nothing of the state is refused but its continuation. -/
theorem setUp_eq_error_iff (state : PyVmState) (capabilities : UInt64) (trace : Bool)
    (libs : List PyDictionary) :
    (∃ e, setUp state capabilities trace libs = .error e) ↔ ∃ e, toCont state.cc = .error e := by
  rw [setUp]
  cases toCont state.cc <;> simp [bind, Except.bind]

/-- What the call returns is the only result that reports how the run of the machine ended.
It raises when the continuation cannot be converted, and when the run ends with an error that
is no exception of the machine or with a committed root that is not a cell. -/
theorem runvmGeneric_reports (state : PyVmState) (capabilities : UInt64) (trace : Bool)
    (libs : List PyDictionary) :
    (∀ r, runvmGeneric state capabilities trace libs = .ok r ↔
        ∃ engine, setUp state capabilities trace libs = .ok engine ∧
          r.Reports (execute engine)) ∧
      ((∃ e, runvmGeneric state capabilities trace libs = .error e) ↔
        (∃ e, toCont state.cc = .error e) ∨
          ∃ engine, setUp state capabilities trace libs = .ok engine ∧
            Unexportable (execute engine)) := by
  constructor
  · intro r
    rw [runvmGeneric_eq, bind_eq_ok_iff]
    exact exists_congr fun engine => and_congr_right fun _ => finish_eq_ok_iff
  · rw [runvmGeneric_eq, ← setUp_eq_error_iff state capabilities trace libs]
    cases hsetUp : setUp state capabilities trace libs with
    | error e => simp [bind, Except.bind]
    | ok engine =>
      rw [ok_bind, finish_eq_error_iff]
      simp

end

end

section Reference

open scoped Reference

/-- A machine that stops at once is reported by the state it was set up with. -/
theorem runvmGeneric_reports_ordinary :
    (∀ r, runvmGeneric (exampleState .ordinary) 0 false [] = .ok r ↔
        ∃ engine, setUp (exampleState .ordinary) 0 false [] = .ok engine ∧
          r.Reports (execute engine)) ∧
      ((∃ e, runvmGeneric (exampleState .ordinary) 0 false [] = .error e) ↔
        (∃ e, toCont (exampleState .ordinary).cc = .error e) ∨
          ∃ engine, setUp (exampleState .ordinary) 0 false [] = .ok engine ∧
            Unexportable (execute engine)) :=
  runvmGeneric_reports (exampleState .ordinary) 0 false []

end Reference

end EverPlayground
