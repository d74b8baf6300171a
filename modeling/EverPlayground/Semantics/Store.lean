import EverPlayground.Semantics.Attempts
import Mathlib.Logic.Function.Basic

/-!
# Calls that store under a key

An object that stands for a finite map, and calls on it that either store a value under a
key or are refused. A caller who catches the refusals finds under every key the value of
the last call that stored there.

## Main definitions

* `lastWrite` — the value of the last call in a list that stores under a key
* `KeepsEntry` — the call stores its entry, or is refused when it has none

## Main results

* `holds_attempts`, `holds_forM` — what the object holds after a run of calls
* `lastWrite_eq_some_iff` — no later call stores under the same key
-/

set_option autoImplicit false

namespace Semantics

open Mut Cursor

universe u v w

variable {ε σ : Type u} {ι : Type v} {κ ν : Type w}

section LastWrite

variable [DecidableEq κ]

/-- The value that an entry has under a key. -/
def valueUnder (k : κ) (entry : Option (κ × ν)) : Option ν :=
  entry.bind fun p => if p.1 = k then some p.2 else none

@[simp] theorem valueUnder_none (k : κ) : valueUnder k (none : Option (κ × ν)) = none := rfl

@[simp] theorem valueUnder_some (k k' : κ) (v : ν) :
    valueUnder k (some (k', v)) = if k' = k then some v else none := rfl

theorem valueUnder_eq_some_iff {k : κ} {v : ν} {entry : Option (κ × ν)} :
    valueUnder k entry = some v ↔ entry = some (k, v) := by
  rcases entry with _ | ⟨k', v'⟩
  · simp
  · simp [Prod.ext_iff]

/-- The value of the last call that stores under the key. -/
def lastWrite (entry : ι → Option (κ × ν)) : List ι → κ → Option ν
  | [], _ => none
  | i :: is, k => (lastWrite entry is k).or (valueUnder k (entry i))

variable {entry : ι → Option (κ × ν)}

theorem lastWrite_eq_none_iff {is : List ι} {k : κ} :
    lastWrite entry is k = none ↔ ∀ i ∈ is, ∀ v, entry i ≠ some (k, v) := by
  induction is with
  | nil => simp [lastWrite]
  | cons i is ih =>
    rw [lastWrite, Option.or_eq_none_iff, ih, List.forall_mem_cons, and_comm]
    refine and_congr_left' ⟨fun h v hv => ?_, fun h => ?_⟩
    · rw [valueUnder_eq_some_iff.mpr hv] at h
      cases h
    · exact Option.eq_none_iff_forall_ne_some.mpr fun v hv => h v (valueUnder_eq_some_iff.mp hv)

/-- The last call has no later one with the same key. -/
theorem lastWrite_eq_some_iff {is : List ι} {k : κ} {v : ν} :
    lastWrite entry is k = some v ↔
      ∃ before i after, is = before ++ i :: after ∧ entry i = some (k, v) ∧
        ∀ j ∈ after, ∀ v', entry j ≠ some (k, v') := by
  induction is with
  | nil => simp [lastWrite]
  | cons i is ih =>
    rw [lastWrite, Option.or_eq_some_iff]
    refine (or_congr ih (and_congr lastWrite_eq_none_iff valueUnder_eq_some_iff)).trans ?_
    constructor
    · rintro (⟨before, j, after, rfl, hj, hafter⟩ | ⟨hafter, hi⟩)
      · exact ⟨i :: before, j, after, rfl, hj, hafter⟩
      · exact ⟨[], i, is, rfl, hi, hafter⟩
    · rintro ⟨before, j, after, his, hj, hafter⟩
      cases before with
      | nil =>
        obtain ⟨rfl, rfl⟩ := List.cons.inj his
        exact Or.inr ⟨hafter, hj⟩
      | cons i' before =>
        obtain ⟨rfl, rfl⟩ := List.cons.inj his
        exact Or.inl ⟨before, j, after, rfl, hj, hafter⟩

/-- The value is that of one of the calls. -/
theorem exists_of_lastWrite_eq_some {is : List ι} {k : κ} {v : ν}
    (h : lastWrite entry is k = some v) : ∃ i ∈ is, entry i = some (k, v) := by
  obtain ⟨before, i, after, rfl, hi, -⟩ := lastWrite_eq_some_iff.mp h
  exact ⟨i, List.mem_append_right _ List.mem_cons_self, hi⟩

end LastWrite

variable [DecidableEq κ] (call : ι → Mut ε σ PUnit) (Holds : σ → (κ → Option ν) → Prop)

/-- The call stores its entry; without one it raises and leaves the object alone. -/
def KeepsEntry (i : ι) (entry : Option (κ × ν)) : Prop :=
  ∀ s m, Holds s m →
    match entry with
    | some (k, v) => ∃ s', exec (call i) s = (.ok ⟨⟩, s') ∧ Holds s' (Function.update m k (some v))
    | none => (call i).Raises s

variable {call Holds}

/-- Under its own key a call is overwritten by later ones only. -/
theorem lastWrite_cons_or {entry : ι → Option (κ × ν)} {i : ι} {is : List ι} {k : κ}
    {v : ν} (hentry : entry i = some (k, v)) (m : κ → Option ν) :
    (fun k' => (lastWrite entry is k').or (Function.update m k (some v) k')) =
      fun k' => (lastWrite entry (i :: is) k').or (m k') := by
  funext k'
  rw [lastWrite, hentry, Option.or_assoc, valueUnder_some, Function.update_apply]
  by_cases hk : k' = k
  · rw [if_pos hk, if_pos hk.symm]
    rfl
  · rw [if_neg hk, if_neg (Ne.symm hk)]
    rfl

/-- After a run the object holds the last write under every key, and what it held before
where there was none. The calls that returned are those that have an entry. -/
theorem holds_attempts {entry : ι → Option (κ × ν)} {is : List ι} {s : σ} {m : κ → Option ν}
    (h : ∀ i ∈ is, KeepsEntry call Holds i (entry i)) (hs : Holds s m) :
    Holds (attempts call is s).2 (fun k => (lastWrite entry is k).or (m k)) ∧
      (attempts call is s).1 = is.filter fun i => (entry i).isSome := by
  induction is generalizing s m with
  | nil => exact ⟨hs, rfl⟩
  | cons i is ih =>
    obtain ⟨hi, his⟩ := List.forall_mem_cons.mp h
    have hstep := hi s m hs
    rcases hentry : entry i with _ | ⟨k, v⟩
    · rw [hentry] at hstep
      obtain ⟨e, hraise⟩ := hstep
      simpa [attempts, hraise, lastWrite, hentry] using ih his hs
    · rw [hentry] at hstep
      obtain ⟨s', hrun, hs'⟩ := hstep
      obtain ⟨hholds, hreturned⟩ := ih his hs'
      simp only [attempts, hrun, List.filter_cons, hentry, Option.isSome_some, if_true, hreturned,
        and_true]
      rwa [lastWrite_cons_or hentry] at hholds

/-- A loop that catches nothing goes through when every call has an entry, and then holds the
last writes. -/
theorem holds_forM {entry : ι → Option (κ × ν)} {is : List ι} {s : σ} {m : κ → Option ν}
    (h : ∀ i ∈ is, KeepsEntry call Holds i (entry i)) (hs : Holds s m) :
    (∀ i ∈ is, (entry i).isSome = true) ∧
        (∃ s', exec (forM is call) s = (.ok ⟨⟩, s') ∧
          Holds s' fun k => (lastWrite entry is k).or (m k)) ∨
      (∃ i ∈ is, entry i = none) ∧ ∃ e s', exec (forM is call) s = (.error e, s') := by
  induction is generalizing s m with
  | nil => exact Or.inl ⟨nofun, s, rfl, hs⟩
  | cons i is ih =>
    obtain ⟨hi, his⟩ := List.forall_mem_cons.mp h
    have hstep := hi s m hs
    rw [List.forM_cons]
    rcases hentry : entry i with _ | ⟨k, v⟩
    · rw [hentry] at hstep
      obtain ⟨e, hraise⟩ := hstep
      exact Or.inr ⟨⟨i, List.mem_cons_self, hentry⟩, e, s, exec_bind_error hraise⟩
    · rw [hentry] at hstep
      obtain ⟨s', hrun, hs'⟩ := hstep
      rw [exec_bind_ok hrun]
      rcases ih his hs' with ⟨hall, s'', hrest, hholds⟩ | ⟨⟨j, hj, hnone⟩, hraise⟩
      · refine Or.inl ⟨List.forall_mem_cons.mpr ⟨by rw [hentry]; rfl, hall⟩, s'', hrest, ?_⟩
        rwa [lastWrite_cons_or hentry] at hholds
      · exact Or.inr ⟨⟨j, List.mem_cons_of_mem i hj, hnone⟩, hraise⟩

end Semantics
