import EverPlayground.TonVm.Reference
import EverPlayground.Utils

/-!
# Values of the virtual machine as Python objects

Stack items are turned into Python objects when a run returns, and back when one starts.
The converters and the two functions for continuations call each other: a continuation
holds a stack of items, and an item may be a continuation or a tuple of items.

## Main definitions

* `PyObject`, `PyContinuationF` — Python objects by the class the converters know them by
* `convertToVm`, `toCont` and `convertFromVm`, `ofCont` — the converters
* `PyObject.Convertible` — the objects built from values of the machine

## Main results

* `convert_round_trip` — the two conversions are inverse to each other
-/

set_option autoImplicit false

namespace EverPlayground

open Semantics

section

variable [VmTypes]

/-- `struct PyContinuation`: the attributes `stack` and `nargs` can be set to anything. -/
@[ext] structure PyContinuationF (α : Type) where
  typ : ContinuationType
  code : SliceData
  stack : α
  savelist : VmTypes.SaveList
  nargs : α

/-- A Python object, by the class that the converters recognize it as. -/
inductive PyObject where
  | none
  | int (n : ℤ)
  | nan
  | list (items : List PyObject)
  | cell (v : Cell)
  | slice (v : SliceData)
  | builder (v : BuilderData)
  | continuation (v : PyContinuationF PyObject)
  /-- An object of another class with a method `__index__`, which returns `n`. -/
  | index (text : String) (n : ℤ)
  | other (text : String)

abbrev PyContinuation := PyContinuationF PyObject

/-- `operator.index`, for an object that has one. -/
def PyObject.asIndex : PyObject → Option ℤ
  | .int n => some n
  | .index _ n => some n
  | _ => Option.none

/-- `extract::<isize>`, which takes what `__index__` returns. -/
def extractIsize (v : PyObject) : Except PyErr Int64 :=
  match v.asIndex with
  | some n =>
    if Int64.minValue.toInt ≤ n ∧ n ≤ Int64.maxValue.toInt then .ok (Int64.ofInt n)
    else .error .overflowError
  | none => .error .typeError

section

variable [TonVm]

mutual

def convertToVm : PyObject → Except PyErr StackItem
  | .none => .ok .none
  | .int n => do
    let integer ← (TonVm.integerFrom n).mapError runtimeErr
    .ok (.integer integer)
  | .nan => .ok (.integer TonVm.integerNan)
  | .list items => do
    let tuple ← convertAllToVm [] items
    .ok (.tuple tuple)
  | .cell v => .ok (.cell v)
  | .slice v => .ok (.slice v)
  | .builder v => .ok (.builder v)
  | .continuation v => do
    let cont ← toCont v
    .ok (.continuation cont)
  | .index text _ => .error (.runtimeError ("unsupported value " ++ text))
  | .other text => .error (.runtimeError ("unsupported value " ++ text))

/-- Each converted item is pushed before the next one is converted. -/
def convertAllToVm (pushed : List StackItem) : List PyObject → Except PyErr (List StackItem)
  | [] => .ok pushed
  | v :: vs => do
    let item ← convertToVm v
    convertAllToVm (pushed ++ [item]) vs

def convertStackToVm (pushed : List StackItem) : PyObject → Except PyErr (List StackItem)
  | .list items => convertAllToVm pushed items
  | _ => .error .typeError

/-- `PyContinuation::cont`. -/
def toCont : PyContinuation → Except PyErr ContinuationData
  | ⟨typ, code, stack, savelist, nargs⟩ => do
    let cont := TonVm.withType typ
    let stack ← convertStackToVm cont.stack stack
    let nargs ← extractIsize nargs
    .ok { cont with code := code, stack := stack, savelist := savelist, nargs := nargs }

end

mutual

def convertFromVm : StackItem → Except PyErr PyObject
  | .none => .ok .none
  | .builder v => .ok (.builder v)
  | .cell v => .ok (.cell v)
  | .continuation cont => do
    let v ← ofCont cont
    .ok (.continuation v)
  | .integer v =>
    match TonVm.processValue v with
    | .error _ => .ok .nan
    | .ok n => .ok (.int n)
  | .slice v => .ok (.slice v)
  | .tuple items => do
    let list ← convertAllFromVm [] items
    .ok (.list list)

def convertAllFromVm (pushed : List PyObject) : List StackItem → Except PyErr (List PyObject)
  | [] => .ok pushed
  | item :: items => do
    let v ← convertFromVm item
    convertAllFromVm (pushed ++ [v]) items

/-- `PyContinuation::new`. -/
def ofCont : ContinuationData → Except PyErr PyContinuation
  | ⟨typ, code, stack, savelist, nargs⟩ => do
    let stack ← convertAllFromVm [] stack
    .ok { typ := typ, code := code, stack := .list stack, savelist := savelist,
          nargs := .int nargs.toInt }

end

/-! ### Values that the machine can hold -/

mutual

/-- The objects built from values of the machine: integers in range, and continuations
whose stack is a list and whose `nargs` is a machine integer. -/
def PyObject.Convertible : PyObject → Prop
  | .int n => InVmRange n
  | .list items => ConvertibleAll items
  | .continuation v => ConvertibleCont v
  | .index _ _ => False
  | .other _ => False
  | _ => True

def ConvertibleAll : List PyObject → Prop
  | [] => True
  | v :: vs => v.Convertible ∧ ConvertibleAll vs

def ConvertibleStack : PyObject → Prop
  | .list items => ConvertibleAll items
  | _ => False

def ConvertibleCont : PyContinuation → Prop
  | ⟨_, _, stack, _, nargs⟩ =>
    ConvertibleStack stack ∧ ∃ n : Int64, nargs = .int n.toInt

end

omit [TonVm] in
theorem extractIsize_int (n : Int64) : extractIsize (.int n.toInt) = .ok n := by
  rw [extractIsize, PyObject.asIndex]
  simp only
  rw [if_pos ⟨n.minValue_le_toInt, n.toInt_le⟩, Int64.ofInt_toInt]

omit [TonVm] in
/-- What is taken is the integer of the object. -/
theorem asIndex_of_extractIsize {v : PyObject} {n : Int64} (h : extractIsize v = .ok n) :
    v.asIndex = some n.toInt := by
  unfold extractIsize at h
  split at h
  next m hm =>
    split_ifs at h with hrange
    cases h
    rw [hm, Int64.toInt_ofInt_of_le hrange.1 (Int.lt_add_one_of_le hrange.2)]
  next => cases h

/-- A continuation is converted component by component. -/
theorem toCont_components [LawfulTonVm] {v : PyContinuation} {cont : ContinuationData}
    (h : toCont v = .ok cont) :
    cont.typeOf = v.typ ∧ cont.savelist = v.savelist ∧ extractIsize v.nargs = .ok cont.nargs := by
  obtain ⟨typ, code, stack, savelist, nargs⟩ := v
  rw [toCont] at h
  obtain ⟨items, -, h⟩ := exists_of_bind_eq_ok h
  obtain ⟨n, hn, h⟩ := exists_of_bind_eq_ok h
  cases h
  refine ⟨?_, rfl, hn⟩
  change (TonVm.withType typ).typeOf = typ
  rw [LawfulTonVm.withType]

theorem toCont_eq [LawfulTonVm] {typ : ContinuationType} {code : SliceData}
    {stack : List PyObject} {items : List StackItem} {savelist : VmTypes.SaveList} (nargs : Int64)
    (h : ∀ pushed, convertAllToVm pushed stack = .ok (pushed ++ items)) :
    toCont ⟨typ, code, .list stack, savelist, .int nargs.toInt⟩ =
      .ok ⟨typ, code, items, savelist, nargs⟩ := by
  -- a new continuation has an empty stack, so the items pushed are all there is
  have htyp : (TonVm.withType typ).typeOf = typ := by rw [LawfulTonVm.withType]
  have hstack : (TonVm.withType typ).stack = [] := by rw [LawfulTonVm.withType]
  rw [toCont, convertStackToVm, hstack, h, extractIsize_int, List.nil_append]
  change Except.ok (ContinuationDataF.mk (TonVm.withType typ).typeOf _ _ _ _) = _
  rw [htyp]

/-! ### From the machine and back -/

mutual

/-- Every value is exported as an object that is built from values, and that converts back. -/
theorem exists_convertFromVm [LawfulTonVm] (item : StackItem) :
    ∃ v, convertFromVm item = .ok v ∧ v.Convertible ∧ convertToVm v = .ok item := by
  cases item with
  | none => exact ⟨.none, rfl, trivial, rfl⟩
  | cell v => exact ⟨.cell v, rfl, trivial, rfl⟩
  | slice v => exact ⟨.slice v, rfl, trivial, rfl⟩
  | builder v => exact ⟨.builder v, rfl, trivial, rfl⟩
  | integer v =>
    cases v with
    | nan =>
      obtain ⟨e, he⟩ := LawfulTonVm.processValue_nan
      exact ⟨.nan, by rw [convertFromVm, he], trivial,
        by rw [convertToVm, LawfulTonVm.integerNan]⟩
    | value n h =>
      refine ⟨.int n, by rw [convertFromVm, LawfulTonVm.processValue], h, ?_⟩
      rw [convertToVm, LawfulTonVm.integerFrom n h]
      rfl
  | tuple items =>
    obtain ⟨vs, hfrom, hvs, hto⟩ := exists_convertAllFromVm items
    refine ⟨.list vs, ?_, hvs, ?_⟩
    · rw [convertFromVm, hfrom]
      rfl
    · rw [convertToVm, hto]
      rfl
  | continuation cont =>
    obtain ⟨v, hfrom, hv, hto⟩ := exists_ofCont cont
    refine ⟨.continuation v, ?_, hv, ?_⟩
    · rw [convertFromVm, hfrom]
      rfl
    · rw [convertToVm, hto]
      rfl

theorem exists_convertAllFromVm [LawfulTonVm] (items : List StackItem) :
    ∃ vs, (∀ pushed, convertAllFromVm pushed items = .ok (pushed ++ vs)) ∧ ConvertibleAll vs ∧
      ∀ pushed, convertAllToVm pushed vs = .ok (pushed ++ items) := by
  cases items with
  | nil =>
    refine ⟨[], fun pushed => ?_, trivial, fun pushed => ?_⟩
    · rw [convertAllFromVm, List.append_nil]
    · rw [convertAllToVm, List.append_nil]
  | cons item items =>
    obtain ⟨v, hfrom, hv, hto⟩ := exists_convertFromVm item
    obtain ⟨vs, hfroms, hvs, htos⟩ := exists_convertAllFromVm items
    refine ⟨v :: vs, fun pushed => ?_, ⟨hv, hvs⟩, fun pushed => ?_⟩
    · rw [convertAllFromVm, hfrom]
      exact (hfroms _).trans (by rw [List.append_assoc, List.singleton_append])
    · rw [convertAllToVm, hto]
      exact (htos _).trans (by rw [List.append_assoc, List.singleton_append])

theorem exists_ofCont [LawfulTonVm] (cont : ContinuationData) :
    ∃ v, ofCont cont = .ok v ∧ ConvertibleCont v ∧ toCont v = .ok cont := by
  obtain ⟨typ, code, stack, savelist, nargs⟩ := cont
  obtain ⟨vs, hfrom, hvs, hto⟩ := exists_convertAllFromVm stack
  refine ⟨⟨typ, code, .list vs, savelist, .int nargs.toInt⟩, ?_, ⟨hvs, nargs, rfl⟩,
    toCont_eq nargs hto⟩
  rw [ofCont, hfrom]
  rfl

end

/-! ### To the machine and back -/

mutual

theorem convertFromVm_convertToVm [LawfulTonVm] (v : PyObject) (h : v.Convertible) :
    ∃ item, convertToVm v = .ok item ∧ convertFromVm item = .ok v := by
  cases v with
  | none => exact ⟨.none, rfl, rfl⟩
  | cell v => exact ⟨.cell v, rfl, rfl⟩
  | slice v => exact ⟨.slice v, rfl, rfl⟩
  | builder v => exact ⟨.builder v, rfl, rfl⟩
  | index text n => exact h.elim
  | other text => exact h.elim
  | nan =>
    obtain ⟨e, he⟩ := LawfulTonVm.processValue_nan
    refine ⟨.integer .nan, by rw [convertToVm, LawfulTonVm.integerNan], ?_⟩
    rw [convertFromVm, he]
  | int n =>
    have hn : InVmRange n := h
    refine ⟨.integer (.value n hn), ?_, ?_⟩
    · rw [convertToVm, LawfulTonVm.integerFrom n hn]
      rfl
    · rw [convertFromVm, LawfulTonVm.processValue]
  | list vs =>
    obtain ⟨items, hto, hfrom⟩ := convertAllFromVm_convertAllToVm vs h
    refine ⟨.tuple items, ?_, ?_⟩
    · rw [convertToVm, hto]
      rfl
    · rw [convertFromVm, hfrom]
      rfl
  | continuation v =>
    obtain ⟨cont, hto, hfrom⟩ := ofCont_toCont v h
    refine ⟨.continuation cont, ?_, ?_⟩
    · rw [convertToVm, hto]
      rfl
    · rw [convertFromVm, hfrom]
      rfl

theorem convertAllFromVm_convertAllToVm [LawfulTonVm] (vs : List PyObject)
    (h : ConvertibleAll vs) :
    ∃ items, (∀ pushed, convertAllToVm pushed vs = .ok (pushed ++ items)) ∧
      ∀ pushed, convertAllFromVm pushed items = .ok (pushed ++ vs) := by
  cases vs with
  | nil =>
    refine ⟨[], fun pushed => ?_, fun pushed => ?_⟩
    · rw [convertAllToVm, List.append_nil]
    · rw [convertAllFromVm, List.append_nil]
  | cons v vs =>
    obtain ⟨item, hto, hfrom⟩ := convertFromVm_convertToVm v h.1
    obtain ⟨items, htos, hfroms⟩ := convertAllFromVm_convertAllToVm vs h.2
    refine ⟨item :: items, fun pushed => ?_, fun pushed => ?_⟩
    · rw [convertAllToVm, hto]
      exact (htos _).trans (by rw [List.append_assoc, List.singleton_append])
    · rw [convertAllFromVm, hfrom]
      exact (hfroms _).trans (by rw [List.append_assoc, List.singleton_append])

theorem ofCont_toCont [LawfulTonVm] (v : PyContinuation) (h : ConvertibleCont v) :
    ∃ cont, toCont v = .ok cont ∧ ofCont cont = .ok v := by
  obtain ⟨typ, code, stack, savelist, nargs⟩ := v
  obtain ⟨hstack, n, rfl⟩ := h
  cases stack with
  | list vs =>
    obtain ⟨items, hto, hfrom⟩ := convertAllFromVm_convertAllToVm vs hstack
    refine ⟨⟨typ, code, items, savelist, n⟩, toCont_eq n hto, ?_⟩
    rw [ofCont, hfrom]
    rfl
  | _ => exact hstack.elim

end

/-- The two conversions are inverse to each other: on every value of the machine, and on
every object that is built from such values. -/
theorem convert_round_trip [LawfulTonVm] :
    (∀ item : StackItem, ∃ v, convertFromVm item = .ok v ∧ convertToVm v = .ok item) ∧
      ∀ v : PyObject, v.Convertible →
        ∃ item, convertToVm v = .ok item ∧ convertFromVm item = .ok v := by
  refine ⟨fun item => ?_, convertFromVm_convertToVm⟩
  obtain ⟨v, hfrom, -, hto⟩ := exists_convertFromVm item
  exact ⟨v, hfrom, hto⟩

end

end

section Reference

open scoped Reference

/-- A list that holds a continuation that holds a list. -/
def nestedObject : PyObject :=
  .list [.none, .cell .empty, .continuation
    { typ := .pushInt 5
      code := Reference.emptySlice
      stack := .list [.int (-1), .list [.nan, .builder .new], .slice Reference.emptySlice]
      savelist := [(4, .cell .empty)]
      nargs := .int 2 }]

theorem nestedObject_convertible : nestedObject.Convertible := by
  have hint : InVmRange (-1) := by decide
  exact ⟨trivial, trivial, ⟨⟨hint, ⟨trivial, trivial, trivial⟩, trivial, trivial⟩, 2, rfl⟩, trivial⟩

theorem convert_round_trip_nested :
    ∃ item, convertToVm nestedObject = .ok item ∧ convertFromVm item = .ok nestedObject :=
  convert_round_trip.2 nestedObject nestedObject_convertible

end Reference

end EverPlayground
