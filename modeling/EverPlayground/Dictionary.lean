import EverPlayground.Builder
import EverPlayground.TonTypes.Hashmap
import EverPlayground.TonTypes.TlB

/-!
# The `Dictionary` class

For serialization only the root of a dictionary matters: it is written as a presence bit
and a reference to the root, and deserialized without looking into the tree. Lookup and
storing are calls on the tree.
-/

set_option autoImplicit false

namespace EverPlayground

open Semantics Semantics.Cursor

/-- `struct PyDictionary { map: HashmapE }`. -/
abbrev PyDictionary := HashmapE

namespace PyDictionary

section Map

variable [TonHashmaps]

def create (bits : ℕ) : PyDictionary := TonHashmaps.withBitLen bits

def get (self : PyDictionary) (key : PySlice) : Except PyErr (Option PySlice) :=
  (TonHashmaps.get self key).mapError runtimeErr

def add (key value : PySlice) : Mut PyErr PyDictionary Unit :=
  (TonHashmaps.set key value).mapErr runtimeErr

variable [TonHashmapCalls]

def addRef (key : PySlice) (value : Cell) : Mut PyErr PyDictionary Unit :=
  (TonHashmapCalls.setRef key value).mapErr runtimeErr

/-- The slice is a copy of the caller's; what is left of it behind the key is the value. -/
def addKvSlice (keyBits : ℕ) (slice : PySlice) : Mut PyErr PyDictionary Unit :=
  match (TonHashmapCalls.getNextSlice keyBits).exec slice with
  | (.ok key, value) => (TonHashmaps.set key value).mapErr runtimeErr
  | (.error e, _) => throw (runtimeErr e)

/-- `PyDictionary::__len__`. -/
def len (self : PyDictionary) : Except PyErr ℕ := (TonHashmapCalls.count self).mapError runtimeErr

end Map

def cell (self : PyDictionary) : Except PyErr Cell :=
  match self.data with
  | some cell => .ok cell
  | none => .error (.runtimeError "empty dictionary")

variable [TonTypes]

def serialize (self : PyDictionary) : Except PyErr PyBuilder :=
  PyBuilder.build ((TonTypes.writeHashmapData self).mapErr runtimeErr)

def deserialize (bits : ℕ) : Mut PyErr PySlice PyDictionary := do
  if ← TonTypes.getNextBit.mapErr runtimeErr then
    let cell ← TonTypes.checkedDrainReference.mapErr runtimeErr
    pure { bitLen := bits, data := some cell }
  else
    pure { bitLen := bits, data := none }

end PyDictionary

theorem HashmapE.fragment_eq (map : HashmapE) : map.fragment = TlB.maybe .ofRef map.data := by
  unfold fragment
  cases map.data <;> rfl

/-- What is written of a dictionary is its root. -/
theorem HashmapE.fragment_inj {map map' : HashmapE} :
    map.fragment = map'.fragment ↔ map.data = map'.data := by
  refine ⟨fun h => ?_, fun h => by rw [fragment_eq, fragment_eq, h]⟩
  have hrefs := congrArg Fragment.refs h
  rw [fragment_eq, fragment_eq] at hrefs
  cases hdata : map.data <;> cases hdata' : map'.data <;>
    simp_all [TlB.maybe]

theorem HashmapE.within_fragment (map : HashmapE) : map.fragment.Within 1 1 := by
  rw [fragment_eq]
  exact TlB.within_maybe Fragment.within_ofRef map.data

namespace PyDictionary

variable [TonTypes] [LawfulTonTypes]

theorem serialize_eq (self : PyDictionary) :
    ∃ b, serialize self = .ok b ∧ b.toFragment = self.fragment := by
  have hfits : self.fragment.Fits := self.within_fragment.fits (by decide) (by decide)
  exact ⟨_, PyBuilder.build_eq (PyBuilder.writes_of_appends
    (LawfulTonTypes.writeHashmapData self)) hfits, rfl⟩

theorem getNextBit_reads (bit : Bool) :
    Reads SliceData.content (TonTypes.getNextBit.mapErr runtimeErr) (.ofBits [bit]) bit := by
  intro s rest hs
  have hbits : s.bits = bit :: rest.bits := congrArg Fragment.bits hs
  obtain ⟨s', hrun, hadv⟩ := LawfulTonTypes.getNextBit s bit _ hbits
  exact ⟨s', Mut.exec_mapErr_eq_ok_iff.mpr hrun, hadv.content_eq hs⟩

theorem getNextBit_consumes :
    Consumes SliceData.content (TonTypes.getNextBit.mapErr runtimeErr) fun f bit =>
      f = .ofBits [bit] := by
  intro s s' bit hrun
  rw [Mut.exec_mapErr_eq_ok_iff] at hrun
  cases hbits : s.bits with
  | nil => exact absurd hrun (LawfulTonTypes.getNextBit_empty s hbits).not_ok
  | cons b w =>
    obtain ⟨s'', hrun', hadv⟩ := LawfulTonTypes.getNextBit s b w hbits
    rw [hrun] at hrun'
    cases hrun'
    exact ⟨_, hadv.content, rfl⟩

theorem deserialize_reads (map : PyDictionary) :
    Reads SliceData.content (deserialize map.bitLen) map.fragment map := by
  obtain ⟨bitLen, root⟩ := map
  cases root with
  | none =>
    apply (getNextBit_reads false).bind (g := 1)
    exact Reads.pure _
  | some root =>
    refine (getNextBit_reads true).bind ((PySlice.r_reads root).bind (g := 1) ?_)
    exact Reads.pure _

theorem deserialize_consumes (bits : ℕ) :
    Consumes SliceData.content (deserialize bits) fun f map =>
      f = map.fragment ∧ map.bitLen = bits := by
  -- the width of the keys is the argument, the root is what was read
  refine getNextBit_consumes.bind fun f bit hf => ?_
  subst hf
  cases bit with
  | false =>
    apply (Consumes.pure _).mono
    rintro f map ⟨rfl, rfl⟩
    exact ⟨rfl, rfl⟩
  | true =>
    refine PySlice.r_consumes.bind fun f root hf => (Consumes.pure _).mono ?_
    subst hf
    rintro g map ⟨rfl, rfl⟩
    exact ⟨rfl, rfl⟩

end PyDictionary

end EverPlayground
