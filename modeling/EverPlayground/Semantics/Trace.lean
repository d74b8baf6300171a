import EverPlayground.Semantics.Mutation

/-!
# Traces of calls

What a caller sees of an object: the calls that were made, with their answers. Two objects
that are related by a relation that the calls keep give the same answers. When only some
calls see the relation and the others do not disturb it, the answers of the former are
those that they give alone.

## Main definitions

* `trace` — the calls of a run with their answers, and the state at the end
* `answer` — a call whose exception is caught, as a step with an answer

## Main results

* `trace_filter` — some calls among others answer as they do alone
* `trace_congr` — related states answer alike
-/

set_option autoImplicit false

namespace Semantics

universe u v w

section

variable {ι : Type u} {α : Type v} {σ τ : Type w}

/-- The calls with their answers, and the state at the end. -/
def trace (step : ι → σ → α × σ) : List ι → σ → List (ι × α) × σ
  | [], s => ([], s)
  | i :: is, s =>
    ((i, (step i s).1) :: (trace step is (step i s).2).1, (trace step is (step i s).2).2)

theorem trace_cons (step : ι → σ → α × σ) (i : ι) (is : List ι) (s : σ) :
    trace step (i :: is) s =
      ((i, (step i s).1) :: (trace step is (step i s).2).1, (trace step is (step i s).2).2) := rfl

variable {step : ι → σ → α × σ} {step' : ι → τ → α × τ} {R : σ → τ → Prop}

/-- The calls that see the relation answer as they do without the others in between, when
the others do not disturb the relation. -/
theorem trace_filter (own : ι → Bool)
    (hown : ∀ i s t, own i = true → R s t →
      (step i s).1 = (step' i t).1 ∧ R (step i s).2 (step' i t).2)
    (hother : ∀ i s t, own i = false → R s t → R (step i s).2 t) {is : List ι} {s : σ} {t : τ}
    (h : R s t) :
    ((trace step is s).1.filter fun p => own p.1) = (trace step' (is.filter own) t).1 ∧
      R (trace step is s).2 (trace step' (is.filter own) t).2 := by
  induction is generalizing s t with
  | nil => exact ⟨rfl, h⟩
  | cons i is ih =>
    rw [trace_cons, List.filter_cons, List.filter_cons]
    by_cases hi : own i = true
    · obtain ⟨hanswer, hnext⟩ := hown i s t hi h
      obtain ⟨hrest, hend⟩ := ih hnext
      rw [if_pos hi, if_pos hi, trace_cons, hrest, hanswer]
      exact ⟨rfl, hend⟩
    · rw [if_neg hi, if_neg hi]
      exact ih (hother i s t (Bool.not_eq_true _ ▸ hi) h)

/-- Related states answer alike, when every call keeps the relation. -/
theorem trace_congr {is : List ι} (hstep : ∀ i ∈ is, ∀ s t, R s t →
      (step i s).1 = (step' i t).1 ∧ R (step i s).2 (step' i t).2) {s : σ} {t : τ} (h : R s t) :
    (trace step is s).1 = (trace step' is t).1 ∧ R (trace step is s).2 (trace step' is t).2 := by
  induction is generalizing s t with
  | nil => exact ⟨rfl, h⟩
  | cons i is ih =>
    rw [List.forall_mem_cons] at hstep
    obtain ⟨hanswer, hnext⟩ := hstep.1 s t h
    obtain ⟨hrest, hend⟩ := ih hstep.2 hnext
    rw [trace_cons, trace_cons, hrest, hanswer]
    exact ⟨rfl, hend⟩

end

variable {ε σ α : Type u} {ι : Type v}

/-- The answer of a call that returns, and none of a call that raises. -/
def answer (call : ι → Mut ε σ α) (i : ι) (s : σ) : Option α × σ :=
  ((Mut.exec (call i) s).1.toOption, (Mut.exec (call i) s).2)

theorem answer_of_ok {call : ι → Mut ε σ α} {i : ι} {s s' : σ} {a : α}
    (h : Mut.exec (call i) s = (.ok a, s')) : answer call i s = (some a, s') := by
  rw [answer, h]
  rfl

theorem answer_of_raises {call : ι → Mut ε σ α} {i : ι} {s : σ} (h : (call i).Raises s) :
    answer call i s = (none, s) := by
  obtain ⟨e, he⟩ := h
  rw [answer, he]
  rfl

end Semantics
