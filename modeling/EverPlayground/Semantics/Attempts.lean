import EverPlayground.Semantics.Cursor

/-!
# Calls whose exceptions are caught

A caller makes one call after another on the same object and catches every exception.
What such a caller sees at the end is what the calls that returned have appended,
provided that no call that raised left anything behind.

## Main definitions

* `AtomicAt` — from this state, a call that raises leaves the object as it was
* `attempts` — the calls that returned, and the object that is left
* `Along` — a condition that holds whenever a call is made

## Main results

* `content_attempts` — the content is the concatenation of what the calls that returned
  have appended
-/

set_option autoImplicit false

namespace Semantics
namespace Cursor

open Mut

universe u v

variable {ε σ α : Type u} {ι : Type v} {M : Type u} [Monoid M]

/-- If the call raises, it leaves the object as it was. -/
def AtomicAt (x : Mut ε σ α) (s : σ) : Prop := ∀ e s', exec x s = (.error e, s') → s' = s

/-- If the call returns, it has appended `f`. -/
def Extends (content : σ → M) (x : Mut ε σ α) (f : M) : Prop :=
  ∀ s s' a, exec x s = (.ok a, s') → content s' = content s * f

variable (call : ι → Mut ε σ PUnit)

/-- Make the calls in order and catch what they raise: the calls that returned, and the
object at the end. -/
def attempts : List ι → σ → List ι × σ
  | [], s => ([], s)
  | i :: is, s =>
    match exec (call i) s with
    | (.ok _, s') => ((i :: (attempts is s').1), (attempts is s').2)
    | (.error _, s') => attempts is s'

/-- The condition holds of every call and the object it is made on. -/
def Along (C : ι → σ → Prop) : List ι → σ → Prop
  | [], _ => True
  | i :: is, s => C i s ∧ Along C is (exec (call i) s).2

variable {call}

theorem Along.mono {C D : ι → σ → Prop} (h : ∀ i s, C i s → D i s) {is : List ι} {s : σ}
    (hC : Along call C is s) : Along call D is s := by
  induction is generalizing s with
  | nil => trivial
  | cons i is ih => exact ⟨h i s hC.1, ih hC.2⟩

/-- A condition along a run holds along the calls made so far. -/
theorem Along.take {C : ι → σ → Prop} {is : List ι} {s : σ} (hC : Along call C is s) (k : ℕ) :
    Along call C (is.take k) s := by
  induction is generalizing s k with
  | nil =>
    rw [List.take_nil]
    trivial
  | cons i is ih =>
    cases k with
    | zero => trivial
    | succ k => exact ⟨hC.1, ih hC.2 k⟩

/-- One call: it returns and appends its part, or raises and appends nothing. -/
theorem content_attempts {content : σ → M} {enc : ι → M}
    (hext : ∀ i, Extends content (call i) (enc i)) {is : List ι} {s : σ}
    (h : Along call (fun i s => AtomicAt (call i) s) is s) :
    content (attempts call is s).2 = content s * ((attempts call is s).1.map enc).prod := by
  induction is generalizing s with
  | nil => exact (mul_one _).symm
  | cons i is ih =>
    obtain ⟨hatomic, hrest⟩ := h
    rcases hrun : exec (call i) s with ⟨e | a, s'⟩
    · rw [hrun] at hrest
      obtain rfl := hatomic e s' hrun
      simp only [attempts, hrun]
      exact ih hrest
    · rw [hrun] at hrest
      simp only [attempts, hrun, List.map_cons, List.prod_cons]
      rw [ih hrest, hext i s s' a hrun, mul_assoc]

end Cursor
end Semantics
