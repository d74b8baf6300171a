import EverPlayground.Semantics.Mutation
import Mathlib.Algebra.BigOperators.Group.List.Basic

/-!
# Writing to and reading from a cursor

An object that is written at its end and read from its front holds a *content*,
an element of a monoid whose product is concatenation. A writer of bounded
capacity appends to the content as long as the result fits; a reader takes a
factor off the left.

The rules below compose over `>>=`, so the meaning of a whole serializer or
deserializer is the product of the meanings of its steps.

## Main definitions

* `Writes` — a call that appends a given factor whenever it fits
* `WritesExactly` — `Writes` for a call that raises where the factor does not fit
* `Reads` — a call that consumes a given factor and returns a given value,
  whatever follows
* `Decodes` — `Reads` for a call that also updates a second object
* `Consumes` — every successful run takes a factor off the content
* `Parses` — `Consumes` for a call that also updates a second object

## Main results

* `Writes.bind`, `Reads.bind`, `Decodes.bind`, `Consumes.bind`, `Parses.bind` — the
  sequencing rules
* `Writes.forM`, `Reads.mapM` — a run over a list writes or reads the product
* `WritesExactly.forM` — a run over a list returns exactly when the product fits
-/

set_option autoImplicit false

namespace Semantics
namespace Cursor

open Mut

universe u

variable {ε σ τ α β M : Type u} [Monoid M]

section Writing

variable (content : σ → M) (fits : M → Prop)

/-- The call appends `f` to the content and returns `a`, whenever the result fits. -/
def Writes (x : Mut ε σ α) (f : M) (a : α) : Prop :=
  ∀ s, fits (content s * f) → ∃ s', exec x s = (.ok a, s') ∧ content s' = content s * f

variable {content fits}

theorem Writes.pure (a : α) : Writes content fits (Pure.pure a : Mut ε σ α) 1 a :=
  fun s _ => ⟨s, rfl, (mul_one _).symm⟩

/-- Capacity that a prefix of what fits always has: then the steps of a sequence fit
when the whole does. -/
theorem Writes.bind (hfits : ∀ f g, fits (f * g) → fits f) {x : Mut ε σ α}
    {k : α → Mut ε σ β} {f g : M} {a : α} {b : β} (hx : Writes content fits x f a)
    (hk : Writes content fits (k a) g b) : Writes content fits (x >>= k) (f * g) b := by
  intro s hs
  -- the first call fits since its part is a prefix of what fits
  rw [← mul_assoc] at hs
  obtain ⟨s', hx', hc'⟩ := hx s (hfits _ _ hs)
  obtain ⟨s'', hk', hc''⟩ := hk s' (by rwa [hc'])
  exact ⟨s'', by rw [exec_bind_ok hx', hk'], by rw [hc'', hc', mul_assoc]⟩

/-- A run over a list writes the product of what its steps write. -/
theorem Writes.forM (hfits : ∀ f g, fits (f * g) → fits f) {w : α → Mut ε σ PUnit}
    {enc : α → M} (l : List α) (h : ∀ a ∈ l, Writes content fits (w a) (enc a) ⟨⟩) :
    Writes content fits (forM l w) (l.map enc).prod ⟨⟩ := by
  induction l with
  | nil => exact Writes.pure _
  | cons a l ih =>
    rw [List.forM_cons, List.map_cons, List.prod_cons]
    exact (h a List.mem_cons_self).bind hfits
      (ih fun a' ha' => h a' (List.mem_cons_of_mem _ ha'))

variable (content fits) in
/-- The call appends `f` whenever the result fits, and raises otherwise. What it leaves
when it raises is not said. -/
structure WritesExactly (x : Mut ε σ PUnit) (f : M) : Prop where
  writes : Writes content fits x f ⟨⟩
  raises : ∀ s, ¬ fits (content s * f) → ∃ e s', exec x s = (.error e, s')

/-- Whether the call returns is decided by the capacity alone. -/
theorem WritesExactly.returns_iff {x : Mut ε σ PUnit} {f : M}
    (hx : WritesExactly content fits x f) (s : σ) :
    (∃ s', exec x s = (.ok ⟨⟩, s')) ↔ fits (content s * f) := by
  constructor
  · rintro ⟨s', hrun⟩
    by_contra hfits
    obtain ⟨e, s'', hrun'⟩ := hx.raises s hfits
    rw [hrun] at hrun'
    cases hrun'
  · intro hfits
    obtain ⟨s', hrun, -⟩ := hx.writes s hfits
    exact ⟨s', hrun⟩

theorem WritesExactly.content_eq {x : Mut ε σ PUnit} {f : M}
    (hx : WritesExactly content fits x f) {s s' : σ} (hrun : exec x s = (.ok ⟨⟩, s')) :
    content s' = content s * f := by
  obtain ⟨s'', hrun', hcontent⟩ := hx.writes s ((hx.returns_iff s).mp ⟨s', hrun⟩)
  rw [hrun] at hrun'
  cases hrun'
  exact hcontent

/-- Of two calls in a row the first raises, or the second, when the whole does not fit. -/
theorem WritesExactly.seq (hfits : ∀ f g, fits (f * g) → fits f) {x y : Mut ε σ PUnit}
    {f g : M} (hx : WritesExactly content fits x f) (hy : WritesExactly content fits y g) :
    WritesExactly content fits (x >>= fun _ => y) (f * g) := by
  refine ⟨hx.writes.bind hfits hy.writes, fun s hnot => ?_⟩
  by_cases hf : fits (content s * f)
  · obtain ⟨s', hrun, hcontent⟩ := hx.writes s hf
    rw [← mul_assoc, ← hcontent] at hnot
    obtain ⟨e, s'', hrun'⟩ := hy.raises s' hnot
    exact ⟨e, s'', by rw [exec_bind_ok hrun, hrun']⟩
  · obtain ⟨e, s', hrun⟩ := hx.raises s hf
    exact ⟨e, s', exec_bind_error hrun⟩

/-- What is already there fits, so a call that appends nothing returns. -/
theorem WritesExactly.pure (hinit : ∀ s, fits (content s)) :
    WritesExactly content fits (Pure.pure ⟨⟩ : Mut ε σ PUnit) 1 :=
  ⟨Writes.pure _, fun s hnot => absurd (by rw [mul_one]; exact hinit s) hnot⟩

/-- A run over a list returns exactly when the product of what its steps write fits. -/
theorem WritesExactly.forM (hinit : ∀ s, fits (content s)) (hfits : ∀ f g, fits (f * g) → fits f)
    {w : α → Mut ε σ PUnit} {enc : α → M} (l : List α)
    (h : ∀ a ∈ l, WritesExactly content fits (w a) (enc a)) :
    WritesExactly content fits (forM l w) (l.map enc).prod := by
  induction l with
  | nil => exact WritesExactly.pure hinit
  | cons a l ih =>
    rw [List.forM_cons, List.map_cons, List.prod_cons]
    exact (h a List.mem_cons_self).seq hfits
      (ih fun a' ha' => h a' (List.mem_cons_of_mem _ ha'))

end Writing

section Reading

variable (content : σ → M)

/-- The call consumes `f` from the front and returns `a`, whatever follows. -/
def Reads (x : Mut ε σ α) (f : M) (a : α) : Prop :=
  ∀ s rest, content s = f * rest → ∃ s', exec x s = (.ok a, s') ∧ content s' = rest

/-- The call consumes `f` from the front of the second object, turns the first object
from `t` into `t'` and returns `a`, whatever follows. -/
def Decodes (x : Mut ε (τ × σ) α) (f : M) (t t' : τ) (a : α) : Prop :=
  ∀ s rest, content s = f * rest →
    ∃ s', exec x (t, s) = (.ok a, (t', s')) ∧ content s' = rest

/-- Every successful run takes a factor off the content, related to the result by `R`. -/
def Consumes (x : Mut ε σ α) (R : M → α → Prop) : Prop :=
  ∀ s s' a, exec x s = (.ok a, s') → ∃ f, content s = f * content s' ∧ R f a

/-- Every successful run from `t` takes a factor off the content of the second object,
related by `R` to the first object it leaves and to the result. -/
def Parses (x : Mut ε (τ × σ) α) (t : τ) (R : M → τ → α → Prop) : Prop :=
  ∀ s t' s' a, exec x (t, s) = (.ok a, (t', s')) → ∃ f, content s = f * content s' ∧ R f t' a

variable {content}

theorem Reads.pure (a : α) : Reads content (Pure.pure a : Mut ε σ α) 1 a :=
  fun s rest h => ⟨s, rfl, by rw [h, one_mul]⟩

theorem Reads.bind {x : Mut ε σ α} {k : α → Mut ε σ β} {f g : M} {a : α} {b : β}
    (hx : Reads content x f a) (hk : Reads content (k a) g b) :
    Reads content (x >>= k) (f * g) b := by
  intro s rest hs
  obtain ⟨s', hx', hc'⟩ := hx s (g * rest) (by rw [hs, mul_assoc])
  obtain ⟨s'', hk', hc''⟩ := hk s' rest hc'
  exact ⟨s'', by rw [exec_bind_ok hx', hk'], hc''⟩

theorem Reads.map {x : Mut ε σ α} {f : M} {a : α} (hx : Reads content x f a) (g : α → β) :
    Reads content (g <$> x) f (g a) := by
  intro s rest hs
  obtain ⟨s', hx', hc'⟩ := hx s rest hs
  exact ⟨s', by rw [exec_map, hx']; rfl, hc'⟩

/-- A run over a list reads the product of what its steps read. -/
theorem Reads.mapM {r : α → Mut ε σ β} {enc : α → M} {val : α → β} (l : List α)
    (h : ∀ a ∈ l, Reads content (r a) (enc a) (val a)) :
    Reads content (l.mapM r) (l.map enc).prod (l.map val) := by
  induction l with
  | nil => exact Reads.pure _
  | cons a l ih =>
    rw [List.mapM_cons, List.map_cons, List.prod_cons, List.map_cons]
    have htail := ih fun a' ha' => h a' (List.mem_cons_of_mem _ ha')
    apply (h a List.mem_cons_self).bind
    rw [bind_pure_comp]
    exact htail.map _

theorem Reads.decodes {x : Mut ε σ α} {f : M} {a : α} (hx : Reads content x f a) (t : τ) :
    Decodes content (onSnd x) f t t a := by
  intro s rest hs
  obtain ⟨s', hx', hc'⟩ := hx s rest hs
  exact ⟨s', by rw [exec_onSnd, hx'], hc'⟩

theorem Decodes.update (u : τ → τ) (t : τ) :
    Decodes content (onFst (modify u) : Mut ε (τ × σ) PUnit) 1 t (u t) ⟨⟩ :=
  fun s rest h => ⟨s, rfl, by rw [h, one_mul]⟩

theorem Decodes.pure (a : α) (t : τ) :
    Decodes content (Pure.pure a : Mut ε (τ × σ) α) 1 t t a :=
  fun s rest h => ⟨s, rfl, by rw [h, one_mul]⟩

theorem Decodes.bind {x : Mut ε (τ × σ) α} {k : α → Mut ε (τ × σ) β} {f g : M}
    {t t' t'' : τ} {a : α} {b : β} (hx : Decodes content x f t t' a)
    (hk : Decodes content (k a) g t' t'' b) :
    Decodes content (x >>= k) (f * g) t t'' b := by
  intro s rest hs
  obtain ⟨s', hx', hc'⟩ := hx s (g * rest) (by rw [hs, mul_assoc])
  obtain ⟨s'', hk', hc''⟩ := hk s' rest hc'
  exact ⟨s'', by rw [exec_bind_ok hx', hk'], hc''⟩

theorem Decodes.seq {x : Mut ε (τ × σ) α} {y : Mut ε (τ × σ) β} {f g : M} {t t' t'' : τ}
    {a : α} {b : β} (hx : Decodes content x f t t' a) (hy : Decodes content y g t' t'' b) :
    Decodes content (x >>= fun _ => y) (f * g) t t'' b :=
  hx.bind hy

theorem Reads.assign {x : Mut ε σ α} {f : M} {a : α} (hx : Reads content x f a)
    (set : α → τ → τ) (t : τ) : Decodes content (assign x set) f t (set a t) ⟨⟩ := by
  -- storing the value consumes nothing
  have hset := (hx.decodes t).bind (k := fun a => onFst (modify (set a)))
    (Decodes.update (set a) t)
  rwa [mul_one] at hset

/-- Reading into a fresh object. -/
theorem Decodes.withNew {x : Mut ε (τ × σ) PUnit} {f : M} {t t' : τ}
    (hx : Decodes content x f t t' ⟨⟩) : Reads content (withNew t x) f t' := by
  intro s rest hs
  obtain ⟨s', hx', hc'⟩ := hx s rest hs
  exact ⟨s', exec_withNew hx', hc'⟩

theorem Consumes.mono {x : Mut ε σ α} {R S : M → α → Prop} (hx : Consumes content x R)
    (h : ∀ f a, R f a → S f a) : Consumes content x S := by
  intro s s' a hrun
  obtain ⟨f, hf, hR⟩ := hx s s' a hrun
  exact ⟨f, hf, h f a hR⟩

theorem Consumes.pure (a : α) :
    Consumes content (Pure.pure a : Mut ε σ α) fun f a' => f = 1 ∧ a' = a := by
  intro s s' a' hrun
  cases hrun
  exact ⟨1, (one_mul _).symm, rfl, rfl⟩

/-- The rest of a sequence is run with the factor of its first call already taken. -/
theorem Consumes.bind {x : Mut ε σ α} {k : α → Mut ε σ β} {R : M → α → Prop}
    {S : M → β → Prop} (hx : Consumes content x R)
    (hk : ∀ f a, R f a → Consumes content (k a) fun g => S (f * g)) :
    Consumes content (x >>= k) S := by
  intro s s'' b hrun
  obtain ⟨a, s', hx', hk'⟩ := exec_bind_eq_ok_iff.mp hrun
  obtain ⟨f, hf, hR⟩ := hx s s' a hx'
  obtain ⟨g, hg, hS⟩ := hk f a hR s' s'' b hk'
  exact ⟨f * g, by rw [hf, hg, mul_assoc], hS⟩

theorem Consumes.parses {x : Mut ε σ α} {R : M → α → Prop} (hx : Consumes content x R) (t : τ) :
    Parses content (onSnd x) t fun f t' a => t' = t ∧ R f a := by
  intro s t' s' a hrun
  obtain ⟨hrun', ht⟩ := exec_onSnd_eq_ok_iff.mp hrun
  obtain ⟨f, hf, hR⟩ := hx s s' a hrun'
  exact ⟨f, hf, ht, hR⟩

theorem Parses.pure (a : α) (t : τ) :
    Parses content (Pure.pure a : Mut ε (τ × σ) α) t fun f t' a' => f = 1 ∧ t' = t ∧ a' = a := by
  intro s t' s' a' hrun
  cases hrun
  exact ⟨1, (one_mul _).symm, rfl, rfl, rfl⟩

theorem Parses.update (u : τ → τ) (t : τ) :
    Parses content (onFst (modify u) : Mut ε (τ × σ) PUnit) t fun f t' _ => f = 1 ∧ t' = u t := by
  intro s t' s' a hrun
  cases hrun
  exact ⟨1, (one_mul _).symm, rfl, rfl⟩

theorem Parses.bind {x : Mut ε (τ × σ) α} {k : α → Mut ε (τ × σ) β} {t : τ}
    {R : M → τ → α → Prop} {S : M → τ → β → Prop} (hx : Parses content x t R)
    (hk : ∀ f t' a, R f t' a → Parses content (k a) t' fun g => S (f * g)) :
    Parses content (x >>= k) t S := by
  intro s t'' s'' b hrun
  obtain ⟨a, ⟨t', s'⟩, hx', hk'⟩ := exec_bind_eq_ok_iff.mp hrun
  obtain ⟨f, hf, hR⟩ := hx s t' s' a hx'
  obtain ⟨g, hg, hS⟩ := hk f t' a hR s' t'' s'' b hk'
  exact ⟨f * g, by rw [hf, hg, mul_assoc], hS⟩

theorem Consumes.assign {x : Mut ε σ α} {R : M → α → Prop} (hx : Consumes content x R)
    (set : α → τ → τ) (t : τ) :
    Parses content (assign x set) t fun f t' _ => ∃ a, R f a ∧ t' = set a t := by
  refine (hx.parses t).bind fun f t' a ⟨ht, hR⟩ => ?_
  -- the read leaves the first object alone; the store consumes nothing
  subst ht
  intro s t'' s' b hrun
  cases hrun
  exact ⟨1, (one_mul _).symm, a, by rwa [mul_one], rfl⟩

theorem Parses.mono {x : Mut ε (τ × σ) α} {t : τ} {R S : M → τ → α → Prop}
    (hx : Parses content x t R) (h : ∀ f t' a, R f t' a → S f t' a) : Parses content x t S := by
  intro s t' s' a hrun
  obtain ⟨f, hf, hR⟩ := hx s t' s' a hrun
  exact ⟨f, hf, h f t' a hR⟩

end Reading

end Cursor
end Semantics
