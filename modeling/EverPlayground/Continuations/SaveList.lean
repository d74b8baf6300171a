import EverPlayground.Continuations.Compare
import EverPlayground.PyCell
import EverPlayground.Python.Int
import EverPlayground.Semantics.Store

/-!
# Saved registers

`SaveList` keeps values of the machine under the numbers of the control registers. An
object is converted before it is put and when it is taken out again, and the printed text
lists the registers that are in use.

## Main definitions

* `PySaveList.get`, `PySaveList.put`, `PySaveList.str` — the methods
* `PySaveList.entry` — what a call of `put` stores

## Main results

* `PySaveList.run_get` — after a run of puts every register gives back the last object that
  was accepted
* `PySaveList.str_eq_iff` — the text tells which registers hold a value, and nothing else
-/

set_option autoImplicit false

namespace EverPlayground

open Semantics Semantics.Cursor

/-- `struct PySaveList { savelist: SaveList }`. -/
abbrev PySaveList [VmTypes] := VmTypes.SaveList

namespace PySaveList

section

variable [VmTypes] [TonVm]

def create : PySaveList := TonVm.saveListDefault

variable [TonSaveList]

/-- An absent value, and one that cannot be converted, are Python's `None`. -/
def get (self : PySaveList) (index : ℕ) : PyObject :=
  match TonSaveList.get self index with
  | none => .none
  | some item => (convertFromVm item).toOption.getD .none

def put (index : ℕ) (value : PyObject) : Mut PyErr PySaveList PUnit := do
  let item ← Mut.ofExcept (convertToVm value)
  let _ ← (TonSaveList.put index item).mapErr runtimeErr
  pure ⟨⟩

/-- One turn of the loop of `__str__`: the text so far, and whether it is still empty. -/
def strStep (self : PySaveList) : String × Bool → ℕ → String × Bool
  | (res, empty), i =>
    if (TonSaveList.get self i).isSome then
      ((if empty then res else res ++ " ") ++ ("c" ++ toString i), false)
    else (res, empty)

/-- `PySaveList::__str__`. -/
def str (self : PySaveList) : String :=
  match TonSaveList.regs.foldl (strStep self) ("", true) with
  | (res, true) => res ++ "empty"
  | (res, false) => res

/-! ### Storing -/

/-- A call of `put`: the register and the object. -/
def call (p : ℕ × PyObject) : Mut PyErr PySaveList PUnit := put p.1 p.2

/-- The object is stored if it can be converted and the register accepts its value. -/
def entry (p : ℕ × PyObject) : Option (ℕ × PyObject) :=
  match convertToVm p.2 with
  | .ok item => if TonSaveList.canPut p.1 item then some p else none
  | .error _ => none

/-- The registers hold the values of these objects, and nothing where there is no object. -/
def Holds (self : PySaveList) (objects : ℕ → Option PyObject) : Prop :=
  ∀ i ∈ TonSaveList.regs, (objects i).map convertToVm = (TonSaveList.get self i).map Except.ok

/-- What a register gives back after an object was put there, if one was. -/
def given (object : Option PyObject) : PyObject :=
  (object.map PyObject.plain).getD .none

variable [LawfulTonVm] [LawfulTonSaveList]

omit [TonSaveList] [LawfulTonSaveList] in
/-- What can be put is given back as it was, with integers for its counts. -/
theorem convertFromVm_of_convertToVm {v : PyObject} {item : StackItem}
    (h : convertToVm v = .ok item) : convertFromVm item = .ok v.plain := by
  obtain ⟨item', hto, hfrom⟩ := convertFromVm_convertToVm v.plain (convertible_of_convertToVm v h)
  rw [convertToVm_plain] at hto
  obtain rfl : item = item' := Except.ok.inj (h.symm.trans hto)
  exact hfrom

omit [LawfulTonVm] [LawfulTonSaveList] in
theorem eq_of_entry {p q : ℕ × PyObject} (h : entry p = some q) : q = p := by
  unfold entry at h
  split at h
  · split_ifs at h
    exact (Option.some.inj h).symm
  · cases h

omit [LawfulTonVm] in
/-- One put changes its own register, or is refused and changes none. -/
theorem keepsEntry (p : ℕ × PyObject) : KeepsEntry call Holds p (entry p) := by
  obtain ⟨i, v⟩ := p
  intro savelist objects hholds
  cases hconvert : convertToVm v with
  | error e =>
    have hentry : entry (i, v) = none := by
      simp only [entry, hconvert]
    have hraise : (Mut.ofExcept (convertToVm v) : Mut PyErr PySaveList _).Raises savelist :=
      ⟨e, by rw [hconvert]; rfl⟩
    rw [hentry]
    exact hraise.bind _
  | ok item =>
    -- the conversion went through, and the register decides
    have hput : (put i v).exec savelist =
        ((TonSaveList.put i item).mapErr runtimeErr >>= fun _ => pure ⟨⟩).exec savelist := by
      rw [put, hconvert, Mut.ofExcept_ok_bind]
    by_cases haccept : TonSaveList.canPut i item = true
    · obtain ⟨old, savelist', hrun, hget⟩ := LawfulTonSaveList.put savelist i item haccept
      have hentry : entry (i, v) = some (i, v) := by
        simp only [entry, hconvert, haccept, if_true]
      rw [hentry]
      refine ⟨savelist', ?_, fun j hj => ?_⟩
      · change (put i v).exec savelist = _
        rw [hput, Mut.exec_bind_ok (Mut.exec_mapErr_eq_ok_iff.mpr hrun), Mut.exec_pure]
      · rw [hget j hj, Function.update_apply]
        split_ifs
        · rw [Option.map_some, Option.map_some, hconvert]
        · exact hholds j hj
    · have hentry : entry (i, v) = none := by
        simp only [entry, hconvert, haccept, Bool.false_eq_true, if_false]
      have hrefused := LawfulTonSaveList.put_refused savelist i item
        (Bool.eq_false_of_not_eq_true haccept)
      obtain ⟨e, hraise⟩ := (hrefused.mapErr runtimeErr).bind fun _ => pure PUnit.unit
      rw [hentry]
      exact ⟨e, hput.trans hraise⟩

omit [LawfulTonVm] in
theorem create_holds : Holds create fun _ => none := fun i hi => by
  rw [create, LawfulTonSaveList.get_default i hi]
  rfl

omit [LawfulTonSaveList] in
theorem Holds.get_eq {self : PySaveList} {objects : ℕ → Option PyObject} (h : Holds self objects)
    {i : ℕ} (hi : i ∈ TonSaveList.regs) : get self i = given (objects i) := by
  have hget := h i hi
  cases hobject : objects i with
  | none =>
    rw [hobject] at hget
    rw [get, Option.map_eq_none_iff.mp hget.symm]
    rfl
  | some v =>
    rw [hobject] at hget
    obtain ⟨item, hitem, hv⟩ := Option.map_eq_some_iff.mp hget.symm
    simp only [get, hitem, convertFromVm_of_convertToVm hv.symm]
    rfl

/-- After any run of puts on a new list, with every exception caught, the puts that returned
are those of an object that can be converted to a value that its register accepts, and every
register gives back the object that was put there last, with integers for the counts in it. -/
theorem run_get (puts : List (ℕ × PyObject)) :
    ∃ self, attempts call puts create = (puts.filter fun p => (entry p).isSome, self) ∧
      ∀ i ∈ TonSaveList.regs, get self i = given (lastWrite entry puts i) := by
  obtain ⟨hholds, hreturned⟩ := holds_attempts (fun p (_ : p ∈ puts) => keepsEntry p) create_holds
  simp only [Option.or_none] at hholds
  exact ⟨_, Prod.ext hreturned rfl, fun i hi => hholds.get_eq hi⟩

end

/-! ### Printing -/

theorem toDigits_inj {m n : ℕ} (h : Nat.toDigits 10 m = Nat.toDigits 10 n) : m = n := by
  have hdigits : Python.decimalDigits m = Python.decimalDigits n := by
    rw [Python.decimalDigits, Python.decimalDigits, h]
  rw [← Python.accumulate_decimalDigits m, hdigits, Python.accumulate_decimalDigits]

/-- The name of a register. -/
def name (i : ℕ) : String := "c" ++ toString i

theorem toList_name (i : ℕ) : (name i).toList = 'c' :: Nat.toDigits 10 i := by
  rw [name, String.toList_append]
  exact congrArg ('c' :: ·) Nat.toList_repr

theorem name_inj {i j : ℕ} (h : name i = name j) : i = j := by
  have hlist := congrArg String.toList h
  rw [toList_name, toList_name] at hlist
  exact toDigits_inj (List.cons.inj hlist).2

theorem blank_not_mem_name (i : ℕ) : ' ' ∉ (name i).toList := by
  rw [toList_name, List.mem_cons, not_or]
  refine ⟨by decide, fun hmem => ?_⟩
  exact absurd (Nat.isDigit_of_mem_toDigits (by decide) le_rfl hmem) (by decide)

/-- A first word, and the others with a separator in front of them. -/
theorem intercalate_cons (sep text : String) (texts : List String) :
    sep.intercalate (text :: texts) = text ++ String.join (texts.map (sep ++ ·)) := by
  rw [← PyCell.intercalate_eq_join]
  split_ifs with h
  · rw [h, String.intercalate_singleton, String.append_empty]
  · rw [String.intercalate_cons_of_ne_nil h, String.append_assoc]

theorem filter_eq_filter_iff {α : Type} {p q : α → Bool} {l : List α} :
    l.filter p = l.filter q ↔ ∀ a ∈ l, p a = q a := by
  refine ⟨fun h a ha => ?_, List.filter_congr⟩
  have hmem : a ∈ l.filter p ↔ a ∈ l.filter q := by rw [h]
  rw [List.mem_filter, List.mem_filter, and_iff_right ha, and_iff_right ha] at hmem
  exact Bool.eq_iff_iff.mpr hmem

section

variable [VmTypes] [TonVm] [TonSaveList]

/-- The registers of a list that hold a value. -/
def inUse (self : PySaveList) (regs : List ℕ) : List ℕ :=
  regs.filter fun i => (TonSaveList.get self i).isSome

/-- The words of the text. -/
def words (self : PySaveList) : List String :=
  if inUse self TonSaveList.regs = [] then ["empty"] else (inUse self TonSaveList.regs).map name

omit [TonVm] in
/-- Behind the first name, every name comes with a blank. -/
theorem foldl_strStep (self : PySaveList) (regs : List ℕ) (text : String) :
    regs.foldl (strStep self) (text, false) =
      (text ++ String.join ((inUse self regs).map fun i => " " ++ name i), false) := by
  induction regs generalizing text with
  | nil => simp [inUse]
  | cons i regs ih =>
    rw [List.foldl_cons, inUse, List.filter_cons, strStep]
    by_cases hsome : (TonSaveList.get self i).isSome = true
    · rw [if_pos hsome, if_pos hsome, if_neg Bool.false_ne_true, ih, List.map_cons,
        String.join_cons]
      simp only [name, inUse, String.append_assoc]
    · rw [if_neg hsome, if_neg hsome]
      exact ih text

omit [TonVm] in
theorem foldl_strStep_start (self : PySaveList) (regs : List ℕ) :
    regs.foldl (strStep self) ("", true) =
      (" ".intercalate ((inUse self regs).map name), (inUse self regs).isEmpty) := by
  induction regs with
  | nil => rfl
  | cons i regs ih =>
    rw [List.foldl_cons, inUse, List.filter_cons, strStep]
    by_cases hsome : (TonSaveList.get self i).isSome = true
    · rw [if_pos hsome, if_pos hsome, if_pos rfl, String.empty_append, foldl_strStep,
        List.map_cons, List.isEmpty_cons, intercalate_cons, List.map_map]
      rfl
    · rw [if_neg hsome, if_neg hsome]
      exact ih

omit [TonVm] in
theorem str_eq (self : PySaveList) : str self = " ".intercalate (words self) := by
  rw [str, foldl_strStep_start, words]
  cases h : inUse self TonSaveList.regs with
  | nil => simp
  | cons i regs => simp

omit [TonVm] in
/-- The words can be told apart by the blanks between them. -/
theorem splitOn_str (self : PySaveList) :
    (str self).toList.splitOn ' ' = (words self).map String.toList := by
  have hblank : ∀ l ∈ (words self).map String.toList, ' ' ∉ l := by
    intro l hl
    obtain ⟨word, hword, rfl⟩ := List.mem_map.mp hl
    unfold words at hword
    split_ifs at hword
    · rw [List.mem_singleton.mp hword]
      decide
    · obtain ⟨i, -, rfl⟩ := List.mem_map.mp hword
      exact blank_not_mem_name i
  have hne : (words self).map String.toList ≠ [] := by
    unfold words
    split_ifs with h <;> simp [h]
  rw [str_eq, String.toList_intercalate]
  exact List.splitOn_intercalate ' ' hblank hne

omit [TonVm] in
theorem words_eq_iff {self other : PySaveList} : words self = words other ↔
    inUse self TonSaveList.regs = inUse other TonSaveList.regs := by
  have hempty : ∀ regs : List ℕ, regs.map name ≠ ["empty"] := by
    intro regs h
    obtain ⟨i, -, hi⟩ := List.map_eq_singleton_iff.mp h
    have hlist := congrArg String.toList hi
    rw [toList_name] at hlist
    exact absurd (List.cons.inj hlist).1 (by decide)
  unfold words
  split_ifs with h h' h'
  · simp [h, h']
  · exact iff_of_false (fun heq => hempty _ heq.symm) fun heq => h' (heq ▸ h)
  · exact iff_of_false (hempty _) fun heq => h (heq ▸ h')
  · exact (List.map_injective_iff.mpr fun _ _ => name_inj).eq_iff

omit [TonVm] in
/-- The text of a list names the registers that hold a value, in order, or says that there is
none. Two lists have the same text exactly when the same registers hold one. -/
theorem str_eq_iff (self : PySaveList) :
    str self = " ".intercalate
      (if ∀ i ∈ TonSaveList.regs, TonSaveList.get self i = none then ["empty"]
      else (TonSaveList.regs.filter fun i => (TonSaveList.get self i).isSome).map name) ∧
    ∀ other : PySaveList, str self = str other ↔
      ∀ i ∈ TonSaveList.regs,
        (TonSaveList.get self i).isSome = (TonSaveList.get other i).isSome := by
  constructor
  · rw [str_eq, words]
    simp only [inUse, List.filter_eq_nil_iff, Option.not_isSome_iff_eq_none]
  · intro other
    have hwords : str self = str other ↔ words self = words other := by
      refine ⟨fun h => ?_, fun h => by rw [str_eq, str_eq, h]⟩
      have hsplit := splitOn_str self
      rw [h, splitOn_str other] at hsplit
      exact (List.map_injective_iff.mpr fun _ _ => String.toList_inj.mp) hsplit.symm
    rw [hwords, words_eq_iff, inUse, inUse, filter_eq_filter_iff]

end

section Reference

open scoped Reference

/-- The data register is put twice; an integer and a register that does not exist are
refused. -/
def emptyCellPuts : List (ℕ × PyObject) :=
  [(4, .cell .empty), (4, .int 1), (6, .cell .empty), (5, .cell .empty), (4, .cell .empty)]

theorem run_get_emptyCell :
    ∃ self, attempts call emptyCellPuts create =
        (emptyCellPuts.filter fun p => (entry p).isSome, self) ∧
      ∀ i ∈ TonSaveList.regs, get self i = given (lastWrite entry emptyCellPuts i) :=
  run_get emptyCellPuts

/-- Only the register of the actions is in use. -/
def oneCell : PySaveList := [(5, .cell .empty)]

theorem str_eq_iff_oneCell :
    str oneCell = " ".intercalate
      (if ∀ i ∈ TonSaveList.regs, TonSaveList.get oneCell i = none then ["empty"]
      else (TonSaveList.regs.filter fun i => (TonSaveList.get oneCell i).isSome).map name) ∧
    ∀ other : PySaveList, str oneCell = str other ↔
      ∀ i ∈ TonSaveList.regs,
        (TonSaveList.get oneCell i).isSome = (TonSaveList.get other i).isSome :=
  str_eq_iff oneCell

example : str oneCell = "c5" := by
  decide

end Reference

end PySaveList

end EverPlayground
