import Mathlib.Control.Basic

/-!
# Fallible calls on a mutable object

A method of a mutable object either returns or raises, and in both cases leaves
the object in some state. The state is therefore kept *under* the exception: a
call that raises half way leaves whatever it had done so far, and a caller who
catches the exception sees it.

## Main definitions

* `Mut ε σ` — calls on an object of type `σ` that may raise an `ε`
* `exec` — the outcome of a call and the object it leaves
* `onFst`, `onSnd` — a call on one of two objects
* `assign` — a result read from the one stored in the other
* `withNew` — a call on a fresh object and a given one
* `zoom` — a call on a part of an object
* `Raises` — a call that raises and leaves the object untouched

## Main results

* `exec_bind_eq_ok_iff` — a chain of calls returns exactly when each of them does
-/

set_option autoImplicit false

namespace Semantics

universe u

/-- A chain of fallible calls returns when each of them does. -/
theorem exists_of_bind_eq_ok {ε α β : Type u} {x : Except ε α} {f : α → Except ε β} {b : β}
    (h : x >>= f = .ok b) : ∃ a, x = .ok a ∧ f a = .ok b := by
  cases x with
  | error e => cases h
  | ok a => exact ⟨a, rfl, h⟩

theorem bind_eq_ok_iff {ε α β : Type u} {x : Except ε α} {f : α → Except ε β} {b : β} :
    (x >>= f) = .ok b ↔ ∃ a, x = .ok a ∧ f a = .ok b := by
  refine ⟨exists_of_bind_eq_ok, ?_⟩
  rintro ⟨a, rfl, h⟩
  exact h

theorem ok_bind {ε α β : Type u} (a : α) (f : α → Except ε β) : (Except.ok a >>= f) = f a := rfl

theorem elim_eq_ok_iff {ε α : Type u} {o : Option α} {e : ε} {a : α} :
    o.elim (.error e) .ok = (.ok a : Except ε α) ↔ o = some a := by
  cases o <;> simp

/-- Translating the exception changes nothing in a call that returns. -/
theorem mapError_eq_ok_iff {ε ε' α : Type u} {x : Except ε α} {f : ε → ε'} {a : α} :
    x.mapError f = .ok a ↔ x = .ok a := by
  cases x <;> simp [Except.mapError]

/-- A fallible call on a mutable object. -/
abbrev Mut (ε σ : Type u) := ExceptT ε (StateM σ)

namespace Mut

variable {ε ε' σ τ α β : Type u}

/-- The outcome of a call and the object it leaves. -/
def exec (x : Mut ε σ α) (s : σ) : Except ε α × σ := (ExceptT.run x).run s

/-- A call is determined by its effect. -/
theorem ext {x y : Mut ε σ α} (h : ∀ s, exec x s = exec y s) : x = y := funext h

/-- Make a call out of its effect. -/
def ofFun (f : σ → Except ε α × σ) : Mut ε σ α := ExceptT.mk (StateT.mk f)

@[simp] theorem exec_ofFun (f : σ → Except ε α × σ) (s : σ) : exec (ofFun f) s = f s := rfl

@[simp] theorem exec_get (s : σ) : exec (get : Mut ε σ σ) s = (.ok s, s) := rfl

@[simp] theorem exec_pure (a : α) (s : σ) : exec (pure a : Mut ε σ α) s = (.ok a, s) := rfl

theorem exec_bind (x : Mut ε σ α) (k : α → Mut ε σ β) (s : σ) :
    exec (x >>= k) s =
      match exec x s with
      | (.ok a, s') => exec (k a) s'
      | (.error e, s') => (.error e, s') := by
  -- both layers of the monad are run, then the outcome of the first call decides
  change (ExceptT.run (x >>= k)).run s = _
  simp only [exec, ExceptT.run_bind, StateT.run_bind]
  generalize (ExceptT.run x).run s = r
  obtain ⟨r, s'⟩ := r
  cases r <;> rfl

theorem exec_bind_ok {x : Mut ε σ α} {k : α → Mut ε σ β} {s s' : σ} {a : α}
    (h : exec x s = (.ok a, s')) : exec (x >>= k) s = exec (k a) s' := by
  rw [exec_bind, h]

theorem exec_bind_error {x : Mut ε σ α} {k : α → Mut ε σ β} {s s' : σ} {e : ε}
    (h : exec x s = (.error e, s')) : exec (x >>= k) s = (.error e, s') := by
  rw [exec_bind, h]

/-- A sequence returns when its first call does and then the rest does. -/
theorem exec_bind_eq_ok_iff {x : Mut ε σ α} {k : α → Mut ε σ β} {s s'' : σ} {b : β} :
    exec (x >>= k) s = (.ok b, s'') ↔
      ∃ a s', exec x s = (.ok a, s') ∧ exec (k a) s' = (.ok b, s'') := by
  constructor
  · intro h
    rw [exec_bind] at h
    rcases hx : exec x s with ⟨e | a, s'⟩
    · rw [hx] at h
      simp at h
    · rw [hx] at h
      exact ⟨a, s', rfl, h⟩
  · rintro ⟨a, s', hx, hk⟩
    rw [exec_bind_ok hx, hk]

@[simp] theorem exec_map (f : α → β) (x : Mut ε σ α) (s : σ) :
    exec (f <$> x) s = ((exec x s).1.map f, (exec x s).2) := by
  rw [← bind_pure_comp, exec_bind]
  rcases exec x s with ⟨e | a, s'⟩ <;> rfl

/-- The call with its exception translated, as by `map_err`. -/
def mapErr (f : ε → ε') (x : Mut ε σ α) : Mut ε' σ α :=
  ofFun fun s => ((exec x s).1.mapError f, (exec x s).2)

@[simp] theorem exec_mapErr (f : ε → ε') (x : Mut ε σ α) (s : σ) :
    exec (mapErr f x) s = ((exec x s).1.mapError f, (exec x s).2) := rfl

theorem exec_mapErr_eq_ok_iff {f : ε → ε'} {x : Mut ε σ α} {s s' : σ} {a : α} :
    exec (mapErr f x) s = (.ok a, s') ↔ exec x s = (.ok a, s') := by
  rw [exec_mapErr, Prod.ext_iff, Prod.ext_iff]
  exact and_congr_left' mapError_eq_ok_iff

/-- A pure fallible step, which does not touch the object. -/
def ofExcept (r : Except ε α) : Mut ε σ α := ofFun fun s => (r, s)

@[simp] theorem exec_ofExcept (r : Except ε α) (s : σ) :
    exec (ofExcept r : Mut ε σ α) s = (r, s) := rfl

theorem ofExcept_ok_bind (a : α) (k : α → Mut ε σ β) : ofExcept (.ok a) >>= k = k a :=
  ext fun _ => exec_bind_ok rfl

theorem ofExcept_error_bind (e : ε) (k : α → Mut ε σ β) :
    ofExcept (.error e) >>= k = ofExcept (.error e) :=
  ext fun _ => exec_bind_error rfl

/-- A chain of pure steps is a pure step. -/
theorem ofExcept_bind (r : Except ε α) (f : α → Except ε β) :
    (ofExcept (r >>= f) : Mut ε σ β) = ofExcept r >>= fun a => ofExcept (f a) := by
  cases r with
  | error e => exact (ofExcept_error_bind e _).symm
  | ok a => rw [ok_bind, ofExcept_ok_bind]

/-- A call on the first of two objects. -/
def onFst (x : Mut ε σ α) : Mut ε (σ × τ) α :=
  ofFun fun p => ((exec x p.1).1, ((exec x p.1).2, p.2))

/-- A call on the second of two objects. -/
def onSnd (x : Mut ε τ α) : Mut ε (σ × τ) α :=
  ofFun fun p => ((exec x p.2).1, (p.1, (exec x p.2).2))

@[simp] theorem exec_onSnd (x : Mut ε τ α) (p : σ × τ) :
    exec (onSnd x) p = ((exec x p.2).1, (p.1, (exec x p.2).2)) := rfl

/-- Read from the second object and store the result in the first, as by
`self.field = read(s)`. -/
def assign (x : Mut ε τ α) (set : α → σ → σ) : Mut ε (σ × τ) PUnit := do
  let a ← onSnd x
  onFst (modify (set a))

/-- A call on a fresh object, which is returned. -/
def withNew (t : τ) (x : Mut ε (τ × σ) PUnit) : Mut ε σ τ :=
  ofFun fun s => ((exec x (t, s)).1.map fun _ => (exec x (t, s)).2.1, (exec x (t, s)).2.2)

theorem exec_withNew {t t' : τ} {x : Mut ε (τ × σ) PUnit} {s s' : σ}
    (h : exec x (t, s) = (.ok ⟨⟩, (t', s'))) : exec (withNew t x) s = (.ok t', s') := by
  rw [withNew, exec_ofFun, h]
  rfl

theorem exec_onSnd_eq_ok_iff {x : Mut ε τ α} {p p' : σ × τ} {a : α} :
    exec (onSnd x) p = (.ok a, p') ↔ exec x p.2 = (.ok a, p'.2) ∧ p'.1 = p.1 := by
  obtain ⟨s', t'⟩ := p'
  simp only [exec_onSnd, Prod.ext_iff]
  constructor
  · rintro ⟨h, rfl, rfl⟩
    exact ⟨⟨h, rfl⟩, rfl⟩
  · rintro ⟨⟨h, rfl⟩, rfl⟩
    exact ⟨h, rfl, rfl⟩

/-- A call on a part of the object. -/
def zoom (part : σ → τ) (replace : τ → σ → σ) (x : Mut ε τ α) : Mut ε σ α :=
  ofFun fun s => ((exec x (part s)).1, replace (exec x (part s)).2 s)

theorem exec_zoom {part : σ → τ} {replace : τ → σ → σ} {x : Mut ε τ α} {s : σ} {t : τ} {a : α}
    (h : exec x (part s) = (.ok a, t)) : exec (zoom part replace x) s = (.ok a, replace t s) := by
  rw [zoom, exec_ofFun, h]

/-- The object that a call leaves when it returns. -/
def result (x : Mut ε σ PUnit) (s : σ) : Except ε σ :=
  match exec x s with
  | (.ok _, s') => .ok s'
  | (.error e, _) => .error e

theorem result_eq {x : Mut ε σ PUnit} {s s' : σ} (h : exec x s = (.ok ⟨⟩, s')) :
    result x s = .ok s' := by
  rw [result, h]

/-- The call raises and leaves the object as it was. -/
def Raises (x : Mut ε σ α) (s : σ) : Prop := ∃ e, exec x s = (.error e, s)

theorem Raises.bind {x : Mut ε σ α} {s : σ} (h : x.Raises s) (k : α → Mut ε σ β) :
    (x >>= k).Raises s := by
  obtain ⟨e, he⟩ := h
  exact ⟨e, exec_bind_error he⟩

theorem Raises.mapErr {x : Mut ε σ α} {s : σ} (h : x.Raises s) (f : ε → ε') :
    (x.mapErr f).Raises s := by
  obtain ⟨e, he⟩ := h
  exact ⟨f e, by rw [exec_mapErr, he]; rfl⟩

theorem Raises.not_ok {x : Mut ε σ α} {s s' : σ} {a : α} (h : x.Raises s) :
    exec x s ≠ (.ok a, s') := by
  obtain ⟨e, he⟩ := h
  rw [he]
  simp

end Mut

end Semantics
