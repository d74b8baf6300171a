import EverPlayground.Math.Positional
import EverPlayground.TonTypes.Cell

/-!
# TL-B layouts

The type combinators of the blockchain's data schemes that the package's classes
serialize to, as functions into fragments.

## Main definitions

* `TlB.uint` — `## w`, an unsigned integer of fixed width
* `TlB.maybe` — `Maybe X`, a presence bit and, when it is set, the value
* `TlB.tickTock` — `tick_tock$_ tick:Bool tock:Bool`
-/

set_option autoImplicit false

namespace EverPlayground.TlB

open Math.Positional

variable {α : Type}

def uint (w n : ℕ) : Fragment := .ofBits (word w n)

def maybe (enc : α → Fragment) : Option α → Fragment
  | none => .ofBits [false]
  | some a => .ofBits [true] * enc a

def tickTock (special : Bool × Bool) : Fragment := .ofBits [special.1, special.2]

theorem within_uint (w n : ℕ) : (uint w n).Within w 0 := ⟨(length_word w n).le, le_rfl⟩

theorem within_tickTock (special : Bool × Bool) : (tickTock special).Within 2 0 :=
  Fragment.within_ofBits [special.1, special.2]

/-- An optional value adds its presence bit to the size of the value. -/
theorem within_maybe {enc : α → Fragment} {bits refs : ℕ} (h : ∀ a, (enc a).Within bits refs)
    (o : Option α) : (maybe enc o).Within (1 + bits) refs := by
  cases o with
  | none => exact ⟨Nat.le_add_right 1 bits, Nat.zero_le _⟩
  | some a =>
    have hsome := (Fragment.within_ofBits [true]).mul (h a)
    rwa [Nat.zero_add] at hsome

end EverPlayground.TlB
