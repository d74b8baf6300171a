import EverPlayground.Continuations

/-!
# Comparing continuations

`==` and `!=` convert both sides to values of the machine and compare those. A side that
cannot be converted ends the comparison with `False`, for either operator: such an object
is neither equal to itself nor different from anything.

## Main definitions

* `PyContinuation.richcmp` — the comparison method
* `PyObject.plain`, `plainCont` — the object with integers for its counts

## Main results

* `PyContinuation.richcmp_coherent_iff` — the operators exclude each other exactly on
  continuations that can be converted
-/

set_option autoImplicit false

namespace EverPlayground

open Semantics

section

variable [VmTypes]

/-! ### Counts that are not integers -/

/-- The integer that an object with a method `__index__` stands for. -/
def PyObject.toInt : PyObject → PyObject
  | .index _ n => .int n
  | v => v

mutual

/-- The object with every `nargs` in it replaced by the integer it stands for. -/
def PyObject.plain : PyObject → PyObject
  | .list items => .list (plainAll items)
  | .continuation v => .continuation (plainCont v)
  | v => v

def plainAll : List PyObject → List PyObject
  | [] => []
  | v :: vs => v.plain :: plainAll vs

def plainCont : PyContinuation → PyContinuation
  | ⟨typ, code, stack, savelist, nargs⟩ => ⟨typ, code, stack.plain, savelist, nargs.toInt⟩

end

theorem extractIsize_toInt (v : PyObject) : extractIsize v.toInt = extractIsize v := by
  cases v <;> rfl

theorem toInt_of_extractIsize {v : PyObject} {n : Int64} (h : extractIsize v = .ok n) :
    v.toInt = .int n.toInt := by
  have hindex := asIndex_of_extractIsize h
  cases v with
  | int m | index text m => exact congrArg PyObject.int (Option.some.inj hindex)
  | _ => cases hindex

mutual

/-- Nothing is replaced in what is built from values of the machine. -/
theorem plain_of_convertible (v : PyObject) (h : v.Convertible) : v.plain = v := by
  cases v with
  | list vs => rw [PyObject.plain, plainAll_of_convertible vs h]
  | continuation v => rw [PyObject.plain, plainCont_of_convertible v h]
  | _ => rfl

theorem plainAll_of_convertible (vs : List PyObject) (h : ConvertibleAll vs) :
    plainAll vs = vs := by
  cases vs with
  | nil => rfl
  | cons v vs => rw [plainAll, plain_of_convertible v h.1, plainAll_of_convertible vs h.2]

theorem plainCont_of_convertible (v : PyContinuation) (h : ConvertibleCont v) :
    plainCont v = v := by
  obtain ⟨typ, code, stack, savelist, nargs⟩ := v
  obtain ⟨hstack, n, rfl⟩ := h
  have hplain : stack.plain = stack := by
    cases stack with
    | list vs => rw [PyObject.plain, plainAll_of_convertible vs hstack]
    | _ => exact hstack.elim
  rw [plainCont, hplain]
  rfl

end

variable [TonVm]

mutual

/-- The conversion sees no difference. -/
theorem convertToVm_plain (v : PyObject) : convertToVm v.plain = convertToVm v := by
  cases v with
  | list vs =>
    rw [PyObject.plain, convertToVm, convertToVm, convertAllToVm_plain]
  | continuation v =>
    rw [PyObject.plain, convertToVm, convertToVm, toCont_plainCont]
  | _ => rfl

theorem convertAllToVm_plain (vs : List PyObject) (pushed : List StackItem) :
    convertAllToVm pushed (plainAll vs) = convertAllToVm pushed vs := by
  cases vs with
  | nil => rfl
  | cons v vs =>
    rw [plainAll, convertAllToVm, convertAllToVm, convertToVm_plain]
    exact congrArg _ (funext fun item => convertAllToVm_plain vs _)

theorem toCont_plainCont (v : PyContinuation) : toCont (plainCont v) = toCont v := by
  obtain ⟨typ, code, stack, savelist, nargs⟩ := v
  have hstack : ∀ pushed, convertStackToVm pushed stack.plain = convertStackToVm pushed stack := by
    intro pushed
    -- a stack that is no list is refused either way
    cases stack with
    | list vs => exact convertAllToVm_plain vs pushed
    | _ => rfl
  rw [plainCont, toCont, toCont, hstack, extractIsize_toInt]

end

/-! ### What can be converted -/

mutual

theorem convertible_of_convertToVm [LawfulTonVm] (v : PyObject) {item : StackItem}
    (h : convertToVm v = .ok item) : v.plain.Convertible := by
  cases v with
  | none | cell v | slice v | builder v | nan => trivial
  | int n =>
    -- what is out of range is refused
    change InVmRange n
    by_contra hn
    obtain ⟨e, he⟩ := LawfulTonVm.integerFrom_range n hn
    rw [convertToVm, he] at h
    cases h
  | list vs =>
    rw [convertToVm] at h
    obtain ⟨tuple, htuple, -⟩ := exists_of_bind_eq_ok h
    exact convertible_of_convertAllToVm vs htuple
  | continuation v =>
    rw [convertToVm] at h
    obtain ⟨cont, hcont, -⟩ := exists_of_bind_eq_ok h
    exact convertible_of_toCont v hcont
  | index text n | other text =>
    rw [convertToVm] at h
    cases h

theorem convertible_of_convertAllToVm [LawfulTonVm] (vs : List PyObject)
    {pushed items : List StackItem} (h : convertAllToVm pushed vs = .ok items) :
    ConvertibleAll (plainAll vs) := by
  cases vs with
  | nil => trivial
  | cons v vs =>
    rw [convertAllToVm] at h
    obtain ⟨item, hitem, h⟩ := exists_of_bind_eq_ok h
    exact ⟨convertible_of_convertToVm v hitem, convertible_of_convertAllToVm vs h⟩

theorem convertible_of_toCont [LawfulTonVm] (v : PyContinuation) {cont : ContinuationData}
    (h : toCont v = .ok cont) : ConvertibleCont (plainCont v) := by
  obtain ⟨typ, code, stack, savelist, nargs⟩ := v
  rw [toCont] at h
  obtain ⟨items, hitems, h⟩ := exists_of_bind_eq_ok h
  obtain ⟨n, hn, -⟩ := exists_of_bind_eq_ok h
  refine ⟨?_, n, toInt_of_extractIsize hn⟩
  cases stack with
  | list vs => exact convertible_of_convertAllToVm vs hitems
  | _ => cases hitems

end

/-- A continuation is converted exactly when it is built from values of the machine, but for
a count that is not an integer itself. -/
theorem toCont_returns_iff [LawfulTonVm] (v : PyContinuation) :
    (∃ cont, toCont v = .ok cont) ↔ ConvertibleCont (plainCont v) := by
  constructor
  · rintro ⟨cont, h⟩
    exact convertible_of_toCont v h
  · intro h
    -- the replaced counts convert, and the conversion does not tell them from the others
    obtain ⟨cont, hcont, -⟩ := ofCont_toCont (plainCont v) h
    exact ⟨cont, (toCont_plainCont v).symm.trans hcont⟩

/-! ### The comparison -/

namespace PyContinuation

variable [VmEq]

/-- `PyContinuation::__richcmp__`; `none` is `NotImplemented`. -/
def richcmp (self other : PyContinuation) (op : CompareOp) : Option Bool :=
  match toCont self with
  | .error _ => some false
  | .ok selfCont =>
    match toCont other with
    | .error _ => some false
    | .ok otherCont =>
      match op with
      | .eq => some (VmEq.eq selfCont otherCont)
      | .ne => some (VmEq.ne selfCont otherCont)
      | _ => none

/-- A side that cannot be converted decides the comparison, whatever is asked. -/
theorem richcmp_of_not_convertible [LawfulTonVm] {a b : PyContinuation}
    (h : ¬ (ConvertibleCont (plainCont a) ∧ ConvertibleCont (plainCont b))) (op : CompareOp) :
    richcmp a b op = some false := by
  rw [← toCont_returns_iff, ← toCont_returns_iff] at h
  unfold richcmp
  cases ha : toCont a with
  | error e => rfl
  | ok cont =>
    cases hb : toCont b with
    | error e => rfl
    | ok cont' => exact absurd ⟨⟨cont, ha⟩, cont', hb⟩ h

theorem richcmp_of_toCont {a b : PyContinuation} {cont cont' : ContinuationData}
    (ha : toCont a = .ok cont) (hb : toCont b = .ok cont') :
    richcmp a b .eq = some (VmEq.eq cont cont') ∧ richcmp a b .ne = some (VmEq.ne cont cont') := by
  constructor
  · rw [richcmp, ha, hb]
  · rw [richcmp, ha, hb]

/-- Exactly one of `a == b` and `a != b` is true when both sides are built from values of the
machine, a count being any object that stands for a machine integer, and only then; and
`a == a` is true when `a` is so built, and only then. -/
theorem richcmp_coherent_iff [LawfulTonVm] [LawfulVmEq] :
    (∀ a b : PyContinuation,
      Xor (richcmp a b .eq = some true) (richcmp a b .ne = some true) ↔
        ConvertibleCont (plainCont a) ∧ ConvertibleCont (plainCont b)) ∧
    (∀ a : PyContinuation, richcmp a a .eq = some true ↔ ConvertibleCont (plainCont a)) := by
  refine ⟨fun a b => ?_, fun a => ?_⟩
  · by_cases h : ConvertibleCont (plainCont a) ∧ ConvertibleCont (plainCont b)
    · obtain ⟨cont, ha⟩ := (toCont_returns_iff a).mpr h.1
      obtain ⟨cont', hb⟩ := (toCont_returns_iff b).mpr h.2
      obtain ⟨heq, hne⟩ := richcmp_of_toCont ha hb
      refine iff_of_true ?_ h
      rw [heq, hne, LawfulVmEq.ne_eq]
      cases VmEq.eq cont cont' <;> decide
    · refine iff_of_false ?_ h
      rw [richcmp_of_not_convertible h, richcmp_of_not_convertible h]
      decide
  · by_cases h : ConvertibleCont (plainCont a)
    · obtain ⟨cont, ha⟩ := (toCont_returns_iff a).mpr h
      refine iff_of_true ?_ h
      rw [(richcmp_of_toCont ha ha).1, LawfulVmEq.eq_refl]
    · refine iff_of_false ?_ h
      rw [richcmp_of_not_convertible fun hboth => h hboth.1]
      decide

end PyContinuation

end

section Reference

open scoped Reference

namespace PyContinuation

/-- A continuation with one object on its stack, that takes any number of arguments. -/
def withItem (v nargs : PyObject) : PyContinuation :=
  { typ := .ordinary, code := Reference.emptySlice, stack := .list [v], savelist := [],
    nargs := nargs }

/-- Two continuations that hold different integers; the count of the first is an object with a
method `__index__`. -/
theorem richcmp_coherent_iff_ints :
    (Xor (richcmp (withItem (.int 1) (.index "any" (-1))) (withItem (.int 2) (.int (-1))) .eq =
          some true)
        (richcmp (withItem (.int 1) (.index "any" (-1))) (withItem (.int 2) (.int (-1))) .ne =
          some true) ↔
      ConvertibleCont (plainCont (withItem (.int 1) (.index "any" (-1)))) ∧
        ConvertibleCont (plainCont (withItem (.int 2) (.int (-1))))) ∧
    (richcmp (withItem (.int 1) (.index "any" (-1))) (withItem (.int 1) (.index "any" (-1))) .eq =
        some true ↔
      ConvertibleCont (plainCont (withItem (.int 1) (.index "any" (-1))))) :=
  ⟨richcmp_coherent_iff.1 _ _, richcmp_coherent_iff.2 _⟩

/-- A continuation with a float on its stack is neither equal to itself nor different. -/
theorem richcmp_float :
    richcmp (withItem (.other "1.5") (.int (-1))) (withItem (.other "1.5") (.int (-1))) .eq =
        some false ∧
      richcmp (withItem (.other "1.5") (.int (-1))) (withItem (.other "1.5") (.int (-1))) .ne =
        some false :=
  ⟨rfl, rfl⟩

end PyContinuation

end Reference

end EverPlayground
