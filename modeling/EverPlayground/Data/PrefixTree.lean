import Mathlib.Data.List.Nodup
import Mathlib.Tactic.SplitIfs

/-!
# Compressed prefix trees

A nonempty finite map whose keys are words of one length, as a binary tree. Every edge
carries the longest common prefix of the keys below it, so that a tree with `n` keys has
`n` leaves and `n - 1` forks.

Lookup and insertion take the key bit by bit; the label of the tree at hand is taken apart
at the same time. One bit further down, a tree is either what stands below a common first
bit or one of the two sides of a fork.

## Main definitions

* `PrefixTree` — the trees; `HasDepth` says how long the keys are
* `lookup`, `insert` — the map
* `All` — a property of all values
* `keys` — the keys, in order

## Main results

* `HasDepth.insert`, `All.insert` — insertion keeps the shape
* `lookup_insert` — insertion updates the map at one key
* `mem_keys_iff`, `nodup_keys` — the keys are listed once each
-/

set_option autoImplicit false

namespace Data

universe u v

/-- A tree; the words on a path from the root are the label of every node and, after a
fork, the bit of the side. -/
inductive PrefixTree (α : Type u) where
  | leaf (label : List Bool) (value : α)
  | fork (label : List Bool) (left right : PrefixTree α)

namespace PrefixTree

variable {α : Type u} {β : Type v}

/-- The tree whose keys begin with one more bit. -/
def push (b : Bool) : PrefixTree α → PrefixTree α
  | leaf label value => leaf (b :: label) value
  | fork label left right => fork (b :: label) left right

/-- The keys that begin with `b` go to the first tree, the others to the second. -/
def branch (b : Bool) (t u : PrefixTree α) : PrefixTree α :=
  if b then fork [] u t else fork [] t u

def lookup : PrefixTree α → List Bool → Option α
  | leaf [] value, [] => some value
  | leaf (b :: label) value, c :: key => if b = c then lookup (leaf label value) key else none
  | fork [] left right, c :: key => if c then lookup right key else lookup left key
  | fork (b :: label) left right, c :: key =>
    if b = c then lookup (fork label left right) key else none
  | _, _ => none

/-- The tree is unchanged where the key has not the length of its keys. -/
def insert : PrefixTree α → List Bool → α → PrefixTree α
  | leaf [] _, [], value => leaf [] value
  | leaf (b :: label) old, c :: key, value =>
    if b = c then push b (insert (leaf label old) key value)
    else branch b (leaf label old) (leaf key value)
  | fork [] left right, c :: key, value =>
    if c then fork [] left (insert right key value) else fork [] (insert left key value) right
  | fork (b :: label) left right, c :: key, value =>
    if b = c then push b (insert (fork label left right) key value)
    else branch b (fork label left right) (leaf key value)
  | t, _, _ => t

/-- All keys have length `n`. -/
def HasDepth : PrefixTree α → ℕ → Prop
  | leaf label _, n => label.length = n
  | fork label left right, n =>
    ∃ m, n = label.length + 1 + m ∧ left.HasDepth m ∧ right.HasDepth m

/-- All values have the property. -/
def All (P : α → Prop) : PrefixTree α → Prop
  | leaf _ value => P value
  | fork _ left right => left.All P ∧ right.All P

def map (f : α → β) : PrefixTree α → PrefixTree β
  | leaf label value => leaf label (f value)
  | fork label left right => fork label (left.map f) (right.map f)

def keys : PrefixTree α → List (List Bool)
  | leaf label _ => [label]
  | fork label left right =>
    left.keys.map (label ++ false :: ·) ++ right.keys.map (label ++ true :: ·)

/-! ### One bit -/

theorem hasDepth_push (b : Bool) (t : PrefixTree α) (n : ℕ) :
    (push b t).HasDepth (n + 1) ↔ t.HasDepth n := by
  cases t with
  | leaf label value => exact Nat.add_right_cancel_iff
  | fork label left right =>
    refine exists_congr fun m => and_congr_left' ?_
    rw [List.length_cons]
    omega

theorem hasDepth_branch (b : Bool) {t u : PrefixTree α} {n : ℕ} (ht : t.HasDepth n)
    (hu : u.HasDepth n) : (branch b t u).HasDepth (n + 1) := by
  have hn : n + 1 = 0 + 1 + n := by omega
  cases b with
  | false => exact ⟨n, hn, ht, hu⟩
  | true => exact ⟨n, hn, hu, ht⟩

theorem HasDepth.zero_cases {t : PrefixTree α} (h : t.HasDepth 0) : ∃ value, t = leaf [] value := by
  cases t with
  | leaf label value =>
    obtain rfl := List.length_eq_zero_iff.mp h
    exact ⟨value, rfl⟩
  | fork label left right =>
    obtain ⟨m, hm, -⟩ := h
    omega

/-- A first bit that all keys share, or a fork. -/
theorem HasDepth.succ_cases {t : PrefixTree α} {n : ℕ} (h : t.HasDepth (n + 1)) :
    (∃ b u, t = push b u ∧ u.HasDepth n) ∨
      ∃ left right, t = fork [] left right ∧ left.HasDepth n ∧ right.HasDepth n := by
  cases t with
  | leaf label value =>
    cases label with
    | nil => cases h
    | cons b label =>
      exact Or.inl ⟨b, leaf label value, rfl, (hasDepth_push b (leaf label value) n).mp h⟩
  | fork label left right =>
    cases label with
    | nil =>
      obtain ⟨m, hm, hleft, hright⟩ := h
      obtain rfl : n = m := by simpa [Nat.add_comm] using hm
      exact Or.inr ⟨left, right, rfl, hleft, hright⟩
    | cons b label =>
      exact Or.inl ⟨b, fork label left right, rfl,
        (hasDepth_push b (fork label left right) n).mp h⟩

@[simp] theorem lookup_push_nil (b : Bool) (t : PrefixTree α) : lookup (push b t) [] = none := by
  cases t <;> rfl

@[simp] theorem lookup_push_cons (b c : Bool) (t : PrefixTree α) (key : List Bool) :
    lookup (push b t) (c :: key) = if b = c then lookup t key else none := by
  cases t <;> rw [push, lookup]

@[simp] theorem lookup_fork_nil (left right : PrefixTree α) :
    lookup (fork [] left right) [] = none := rfl

@[simp] theorem lookup_fork_cons (left right : PrefixTree α) (c : Bool) (key : List Bool) :
    lookup (fork [] left right) (c :: key) = if c then lookup right key else lookup left key := by
  rw [lookup]

theorem lookup_branch_cons (b c : Bool) (t u : PrefixTree α) (key : List Bool) :
    lookup (branch b t u) (c :: key) = if b = c then lookup t key else lookup u key := by
  cases b <;> cases c <;> simp [branch]

theorem lookup_branch_nil (b : Bool) (t u : PrefixTree α) : lookup (branch b t u) [] = none := by
  cases b <;> rfl

theorem lookup_leaf (label key : List Bool) (value : α) :
    lookup (leaf label value) key = if key = label then some value else none := by
  induction label generalizing key with
  | nil => cases key <;> simp [lookup]
  | cons b label ih =>
    cases key with
    | nil => rfl
    | cons c key =>
      rw [lookup, ih]
      by_cases hbit : b = c <;> simp [hbit, eq_comm]

theorem insert_push (b c : Bool) (t : PrefixTree α) (key : List Bool) (value : α) :
    insert (push b t) (c :: key) value =
      if b = c then push b (insert t key value) else branch b t (leaf key value) := by
  cases t <;> rw [push, insert]

theorem insert_fork (left right : PrefixTree α) (c : Bool) (key : List Bool) (value : α) :
    insert (fork [] left right) (c :: key) value =
      if c then fork [] left (insert right key value)
      else fork [] (insert left key value) right := by
  rw [insert]

/-! ### Insertion -/

theorem HasDepth.insert {t : PrefixTree α} {n : ℕ} {key : List Bool} (h : t.HasDepth n)
    (hkey : key.length = n) (value : α) : (insert t key value).HasDepth n := by
  induction key generalizing t n with
  | nil =>
    subst hkey
    obtain ⟨old, rfl⟩ := h.zero_cases
    rfl
  | cons c key ih =>
    subst hkey
    rcases h.succ_cases with ⟨b, u, rfl, hu⟩ | ⟨left, right, rfl, hleft, hright⟩
    · rw [insert_push]
      split_ifs with hbit
      · exact (hasDepth_push _ _ _).mpr (ih hu rfl)
      · exact hasDepth_branch b hu rfl
    · rw [insert_fork]
      have hdepth : (c :: key).length = 0 + 1 + key.length := by
        rw [List.length_cons, Nat.zero_add, Nat.add_comm]
      split_ifs with hbit
      · exact ⟨key.length, hdepth, hleft, ih hright rfl⟩
      · exact ⟨key.length, hdepth, ih hleft rfl, hright⟩

/-- Insertion updates the map at one key. -/
theorem lookup_insert {t : PrefixTree α} {n : ℕ} {key : List Bool} (h : t.HasDepth n)
    (hkey : key.length = n) (value : α) :
    lookup (insert t key value) = Function.update (lookup t) key (some value) := by
  funext key'
  induction key generalizing t n key' with
  | nil =>
    subst hkey
    obtain ⟨old, rfl⟩ := h.zero_cases
    change lookup (leaf [] value) key' = _
    rw [lookup_leaf, Function.update_apply, lookup_leaf]
    by_cases hnil : key' = [] <;> simp [hnil]
  | cons c key ih =>
    subst hkey
    rw [Function.update_apply]
    rcases h.succ_cases with ⟨b, u, rfl, hu⟩ | ⟨left, right, rfl, hleft, hright⟩
    · rw [insert_push]
      cases key' with
      | nil => split_ifs <;> simp_all [lookup_branch_nil]
      | cons c' key' =>
        -- the keys that share the bit of the tree, and the new key, which may not
        by_cases hbit : b = c
        · subst hbit
          by_cases hbit' : b = c'
          · subst hbit'
            simp [ih hu rfl, Function.update_apply]
          · simp [hbit', Ne.symm hbit']
        · rw [if_neg hbit, lookup_branch_cons, lookup_leaf]
          by_cases hbit' : b = c'
          · subst hbit'
            simp [hbit]
          · have hother : c' = c := by cases b <;> cases c <;> cases c' <;> simp_all
            simp [hbit, hother]
    · rw [insert_fork]
      cases key' with
      | nil => split_ifs <;> simp_all
      | cons c' key' =>
        cases c <;> cases c' <;> simp [ih hleft rfl, ih hright rfl, Function.update_apply]

/-! ### Values -/

theorem All.push {P : α → Prop} {t : PrefixTree α} (h : t.All P) (b : Bool) : (push b t).All P := by
  cases t <;> exact h

theorem All.branch {P : α → Prop} {t u : PrefixTree α} (ht : t.All P) (hu : u.All P) (b : Bool) :
    (branch b t u).All P := by
  cases b with
  | false => exact ⟨ht, hu⟩
  | true => exact ⟨hu, ht⟩

theorem All.insert {P : α → Prop} {t : PrefixTree α} (h : t.All P) (key : List Bool) {value : α}
    (hvalue : P value) : (insert t key value).All P := by
  fun_induction PrefixTree.insert t key value with
  | case1 => exact hvalue
  | case2 label old b key value ih => exact (ih h hvalue).push b
  | case3 b label old c key value hbit =>
    have hold : (leaf label old).All P := h
    have hnew : (leaf key value).All P := hvalue
    exact hold.branch hnew b
  | case4 left right key value ih => exact ⟨h.1, ih h.2 hvalue⟩
  | case5 left right c key value hbit ih => exact ⟨ih h.1 hvalue, h.2⟩
  | case6 label left right b key value ih => exact (ih h hvalue).push b
  | case7 b label left right c key value hbit =>
    have hold : (fork label left right).All P := h
    have hnew : (leaf key value).All P := hvalue
    exact hold.branch hnew b
  | case8 => exact h

theorem All.lookup {P : α → Prop} {t : PrefixTree α} (h : t.All P) {key : List Bool} {value : α}
    (hlookup : lookup t key = some value) : P value := by
  fun_induction PrefixTree.lookup t key with
  | case1 => exact Option.some.inj hlookup ▸ h
  | case2 b label old key ih => exact ih h hlookup
  | case3 => cases hlookup
  | case4 left right key ih => exact ih h.2 hlookup
  | case5 left right c key hbit ih => exact ih h.1 hlookup
  | case6 b label left right key ih => exact ih h hlookup
  | case7 => cases hlookup
  | case8 => cases hlookup

theorem lookup_map (f : α → β) (t : PrefixTree α) (key : List Bool) :
    lookup (t.map f) key = (lookup t key).map f := by
  induction key generalizing t with
  | nil => rcases t with ⟨_ | _, _⟩ | ⟨_ | _, _, _⟩ <;> rfl
  | cons c key ih =>
    rcases t with ⟨_ | ⟨b, label⟩, value⟩ | ⟨_ | ⟨b, label⟩, left, right⟩
    · rfl
    · rw [map, lookup, lookup]
      split_ifs
      · exact ih (leaf label value)
      · rfl
    · rw [map, lookup_fork_cons, lookup_fork_cons]
      split_ifs
      · exact ih right
      · exact ih left
    · rw [map, lookup, lookup]
      split_ifs
      · exact ih (fork label left right)
      · rfl

/-! ### Keys -/

/-- The keys of a fork go through its label to one of its sides. -/
theorem lookup_fork_eq_some_iff {label key : List Bool} {left right : PrefixTree α} {value : α} :
    lookup (fork label left right) key = some value ↔
      ∃ c key', key = label ++ c :: key' ∧
        (if c then lookup right key' else lookup left key') = some value := by
  induction label generalizing key with
  | nil =>
    cases key with
    | nil => simp
    | cons c key => simp
  | cons b label ih =>
    cases key with
    | nil => simp [lookup]
    | cons c key =>
      rw [lookup]
      split_ifs with hbit
      · rw [ih]
        simp [hbit]
      · refine iff_of_false nofun ?_
        rintro ⟨c', key', hkey, -⟩
        exact hbit (List.cons.inj hkey).1.symm

theorem mem_keys_iff {t : PrefixTree α} {key : List Bool} :
    key ∈ t.keys ↔ lookup t key ≠ none := by
  induction t generalizing key with
  | leaf label value =>
    rw [keys, List.mem_singleton, lookup_leaf]
    split_ifs with hkey <;> simp [hkey]
  | fork label left right ihleft ihright =>
    simp only [keys, List.mem_append, List.mem_map, ihleft, ihright, Option.ne_none_iff_exists',
      lookup_fork_eq_some_iff]
    constructor
    · rintro (⟨key', ⟨value, hvalue⟩, rfl⟩ | ⟨key', ⟨value, hvalue⟩, rfl⟩)
      · exact ⟨value, false, key', rfl, hvalue⟩
      · exact ⟨value, true, key', rfl, hvalue⟩
    · rintro ⟨value, c, key', rfl, hvalue⟩
      cases c with
      | false => exact Or.inl ⟨key', ⟨value, hvalue⟩, rfl⟩
      | true => exact Or.inr ⟨key', ⟨value, hvalue⟩, rfl⟩

theorem nodup_keys (t : PrefixTree α) : t.keys.Nodup := by
  induction t with
  | leaf label value => simp [keys]
  | fork label left right ihleft ihright =>
    have hinj : ∀ c : Bool, Function.Injective (label ++ c :: · : List Bool → List Bool) :=
      fun c key key' h => (List.cons.inj (List.append_cancel_left h)).2
    rw [keys, List.nodup_append]
    refine ⟨ihleft.map (hinj false), ihright.map (hinj true), ?_⟩
    -- the two sides differ in the bit behind the label
    rintro key hleft _ hright rfl
    obtain ⟨key₁, -, rfl⟩ := List.mem_map.mp hleft
    obtain ⟨key₂, -, hkey⟩ := List.mem_map.mp hright
    exact Bool.noConfusion (List.cons.inj (List.append_cancel_left hkey)).1

theorem keys_ne_nil (t : PrefixTree α) : t.keys ≠ [] := by
  induction t with
  | leaf label value => exact List.cons_ne_nil _ _
  | fork label left right ihleft _ => simp [keys, ihleft]

end PrefixTree

end Data
