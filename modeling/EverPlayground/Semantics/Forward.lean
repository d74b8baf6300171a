import EverPlayground.Semantics.Attempts
import EverPlayground.Semantics.Trace

/-!
# Calls that only move forward

A reader takes what it returns off the front of its source. When it raises half way, what it
had read so far is gone as well. A caller who catches the exceptions can account for the
whole source by the log of the calls, if it is known which of the calls that raised had
stopped before their first read.

## Main definitions

* `Forward` — nothing comes back, also when the call raises
* `Accounts` — every part of the source belongs to one call of a log

## Main results

* `exists_of_first_raises` — a call made of several reads is undone by its exception just
  when the first of them raised
* `accounts_trace` — a run of calls is accounted for by its log
-/

set_option autoImplicit false

namespace Semantics
namespace Cursor

open Mut

universe u v

variable {ε σ τ α β : Type u} {ι : Type v} {M : Type u} [Monoid M] {content : σ → M}

/-- The call takes a factor off the content, also when it raises. -/
def Forward (content : σ → M) (x : Mut ε σ α) : Prop :=
  ∀ s, ∃ f, content s = f * content (exec x s).2

theorem Forward.pure (a : α) : Forward content (Pure.pure a : Mut ε σ α) :=
  fun s => ⟨1, (one_mul (content s)).symm⟩

theorem Forward.bind {x : Mut ε σ α} {k : α → Mut ε σ β} (hx : Forward content x)
    (hk : ∀ a, Forward content (k a)) : Forward content (x >>= k) := by
  intro s
  obtain ⟨f, hf⟩ := hx s
  rw [exec_bind]
  rcases hrun : exec x s with ⟨e | a, s'⟩
  · exact ⟨f, by rw [hf, hrun]⟩
  · obtain ⟨g, hg⟩ := hk a s'
    refine ⟨f * g, ?_⟩
    rw [hf, hrun, mul_assoc, ← hg]

theorem Forward.onSnd {x : Mut ε σ α} (hx : Forward content x) :
    Forward (fun p : τ × σ => content p.2) (Mut.onSnd x : Mut ε (τ × σ) α) := fun p => hx p.2

theorem Forward.onFst (x : Mut ε τ α) :
    Forward (fun p : τ × σ => content p.2) (Mut.onFst x : Mut ε (τ × σ) α) :=
  fun p => ⟨1, (one_mul (content p.2)).symm⟩

theorem Forward.assign {x : Mut ε σ α} (hx : Forward content x) (set : α → τ → τ) :
    Forward (fun p : τ × σ => content p.2) (Mut.assign x set) :=
  hx.onSnd.bind fun a => Forward.onFst (modify (set a))

/-- A single read raises without reading. -/
theorem Consumes.forward {x : Mut ε σ α} {R : M → α → Prop} (hx : Consumes content x R)
    (hatomic : ∀ s, AtomicAt x s) : Forward content x := by
  intro s
  rcases hrun : exec x s with ⟨e | a, s'⟩
  · rw [hatomic s e s' hrun]
    exact ⟨1, (one_mul (content s)).symm⟩
  · obtain ⟨f, hf, -⟩ := hx s s' a hrun
    exact ⟨f, hf⟩

theorem Consumes.map {x : Mut ε σ α} {R : M → α → Prop} (hx : Consumes content x R) (g : α → β) :
    Consumes content (g <$> x) fun f b => ∃ a, R f a ∧ b = g a := by
  intro s s' b hrun
  rw [exec_map] at hrun
  rcases hx' : exec x s with ⟨e | a, s''⟩
  · rw [hx'] at hrun
    cases hrun
  · rw [hx'] at hrun
    cases hrun
    obtain ⟨f, hf, hR⟩ := hx s s'' a hx'
    exact ⟨f, hf, a, hR, rfl⟩

theorem Parses.withNew {x : Mut ε (τ × σ) PUnit} {t : τ} {R : M → τ → PUnit → Prop}
    (hx : Parses content x t R) : Consumes content (Mut.withNew t x) fun f t' => R f t' ⟨⟩ := by
  intro s s' t' hrun
  rw [Mut.withNew, exec_ofFun] at hrun
  rcases hx' : exec x (t, s) with ⟨e | _, t'', s''⟩
  · rw [hx'] at hrun
    cases hrun
  · rw [hx'] at hrun
    cases hrun
    exact hx s t'' s'' ⟨⟩ hx'

/-! ### Exceptions -/

theorem exec_map_eq_error_iff {x : Mut ε σ α} {g : α → β} {s s' : σ} {e : ε} :
    exec (g <$> x) s = (.error e, s') ↔ exec x s = (.error e, s') := by
  rw [exec_map]
  rcases exec x s with ⟨e' | a, s''⟩ <;> simp [Except.map]

theorem exists_of_withNew_error {x : Mut ε (τ × σ) PUnit} {t : τ} {s s' : σ} {e : ε}
    (h : exec (Mut.withNew t x) s = (.error e, s')) :
    ∃ t', exec x (t, s) = (.error e, (t', s')) := by
  rw [Mut.withNew, exec_ofFun] at h
  rcases hx : exec x (t, s) with ⟨e' | _, t', s''⟩
  · rw [hx] at h
    cases h
    exact ⟨t', rfl⟩
  · rw [hx] at h
    cases h

theorem atomicAt_of_raises_or_returns {x : Mut ε σ α} {s : σ}
    (h : x.Raises s ∨ ∃ a s', exec x s = (.ok a, s')) : AtomicAt x s := by
  intro e s' hrun
  rcases h with ⟨e', he'⟩ | ⟨a, s'', hok⟩
  · rw [hrun] at he'
    exact (Prod.mk.inj he').2
  · rw [hrun] at hok
    cases hok

/-- A call begins with a read that takes something off the content, or raises and leaves it.
When the call raises, everything is still there just in the latter case. -/
theorem exists_of_first_raises {x : Mut ε σ α} {k : α → Mut ε σ β} (Short : M → Prop)
    (hshort : ∀ s, Short (content s) → x.Raises s)
    (hlong : ∀ s, ¬ Short (content s) → ∃ a s', exec x s = (.ok a, s'))
    (hx : Consumes content x fun f _ => ∀ g, f * g ≠ 1) (hk : ∀ a, Forward content (k a))
    {s s' : σ} {e : ε} (hrun : exec (x >>= k) s = (.error e, s')) :
    ∃ f, content s = f * content s' ∧ (f = 1 ↔ Short (content s)) := by
  by_cases h : Short (content s)
  · obtain ⟨e', he'⟩ := hshort s h
    rw [exec_bind_error he'] at hrun
    cases hrun
    exact ⟨1, (one_mul (content s)).symm, iff_of_true rfl h⟩
  · obtain ⟨a, s₁, hok⟩ := hlong s h
    rw [exec_bind_ok hok] at hrun
    obtain ⟨f, hf, hne⟩ := hx s s₁ a hok
    obtain ⟨g, hg⟩ := hk a s₁
    rw [hrun] at hg
    refine ⟨f * g, ?_, iff_of_false (hne g) h⟩
    rw [hf, hg, mul_assoc]

/-! ### Runs -/

/-- The content is what the calls of the log have taken off it, in order, and a rest. A call
that returned has taken what encodes its answer; a call that raised has taken nothing just
when it had stopped before its first read. -/
inductive Accounts (Encodes : ι → α → M → Prop) (Stopped : ι → M → Prop) :
    List (ι × Option α) → M → M → Prop
  | nil (m : M) : Accounts Encodes Stopped [] m m
  | returned {i : ι} {a : α} {f m rest : M} {log : List (ι × Option α)} :
      Encodes i a f → Accounts Encodes Stopped log m rest →
        Accounts Encodes Stopped ((i, some a) :: log) (f * m) rest
  | raised {i : ι} {f m rest : M} {log : List (ι × Option α)} :
      (f = 1 ↔ Stopped i (f * m)) → Accounts Encodes Stopped log m rest →
        Accounts Encodes Stopped ((i, none) :: log) (f * m) rest

/-- What is accounted for call by call is accounted for in a run. -/
theorem accounts_trace {call : ι → Mut ε σ α} {Encodes : ι → α → M → Prop}
    {Stopped : ι → M → Prop} {is : List ι}
    (hreturns : ∀ i ∈ is, Consumes content (call i) fun f a => Encodes i a f)
    (hraises : ∀ i ∈ is, ∀ s e s', exec (call i) s = (.error e, s') →
      ∃ f, content s = f * content s' ∧ (f = 1 ↔ Stopped i (content s))) (s : σ) :
    Accounts Encodes Stopped (trace (answer call) is s).1 (content s)
      (content (trace (answer call) is s).2) := by
  induction is generalizing s with
  | nil => exact .nil (content s)
  | cons i is ih =>
    rw [List.forall_mem_cons] at hreturns hraises
    obtain ⟨hreturn, hreturns⟩ := hreturns
    obtain ⟨hraise, hraises⟩ := hraises
    rw [trace_cons]
    rcases hrun : exec (call i) s with ⟨e | a, s'⟩
    · obtain ⟨f, hf, hstopped⟩ := hraise s e s' hrun
      have hanswer : answer call i s = (none, s') := by
        rw [answer, hrun]
        rfl
      rw [hanswer, hf]
      rw [hf] at hstopped
      exact .raised hstopped (ih hreturns hraises s')
    · obtain ⟨f, hf, hencodes⟩ := hreturn s s' a hrun
      rw [answer_of_ok hrun, hf]
      exact .returned hencodes (ih hreturns hraises s')

end Cursor
end Semantics
