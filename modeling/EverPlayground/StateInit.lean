import EverPlayground.Dictionary
import EverPlayground.TonTypes.Reference

/-!
# The `StateInit` class

The initial state of a contract: five optional parts, written one after the other,
each behind a presence bit. `serialize` and `deserialize` agree with one another; the
dictionary of libraries is the one part where they do not agree with the blockchain,
whose `HashmapE` is a presence bit and a reference already.

## Main definitions

* `StateInit.encoding` — the fragment the class reads and writes, for a given special part
* `StateInit.layout` — the fragment the blockchain's scheme prescribes

## Main results

* `StateInit.serialize_eq_layout_iff` — the two agree exactly when there is no library
* `StateInit.deserialize_serialize` — decoding undoes encoding, whatever follows
* `StateInit.serialize_deserialize` — encoding undoes decoding, up to a special part whose
  flags are both clear
-/

set_option autoImplicit false

namespace EverPlayground

open Math.Positional Math.TwosComplement Semantics Semantics.Cursor

@[ext] structure StateInit where
  splitDepth : Option ℤ := none
  tick : Bool := false
  tock : Bool := false
  code : Option Cell := none
  data : Option Cell := none
  library : Option PyDictionary := none

namespace StateInit

section Methods

variable [NumBigint] [TonTypes]

/-! ### Deserialization -/

/-- `if s.u(1): present` and `else: absent`. -/
def ifBit (present absent : Mut PyErr (StateInit × PySlice) Unit) :
    Mut PyErr (StateInit × PySlice) Unit := do
  let bit ← Mut.onSnd (PySlice.u 1)
  if bit ≠ 0 then present else absent

/-- `if s.u(1): self.field = read(s)`. -/
def deserializeMaybe {α : Type} (read : Mut PyErr PySlice α) (set : α → StateInit → StateInit) :
    Mut PyErr (StateInit × PySlice) Unit :=
  ifBit (Mut.assign read set) (pure ())

def setSplitDepth (depth : ℕ) (self : StateInit) : StateInit :=
  { self with splitDepth := some depth }

def setTick (bit : ℕ) (self : StateInit) : StateInit := { self with tick := bit ≠ 0 }

def setTock (bit : ℕ) (self : StateInit) : StateInit := { self with tock := bit ≠ 0 }

def setCode (cell : Cell) (self : StateInit) : StateInit := { self with code := some cell }

def setData (cell : Cell) (self : StateInit) : StateInit := { self with data := some cell }

def setLibrary (map : PyDictionary) (self : StateInit) : StateInit :=
  { self with library := some map }

def deserializeSpecial : Mut PyErr (StateInit × PySlice) Unit :=
  ifBit
    (do
      Mut.assign (PySlice.u 1) setTick
      Mut.assign (PySlice.u 1) setTock)
    (Mut.onFst (modify fun self => { self with tick := false, tock := false }))

/-- A read that fails half way leaves the fields before it assigned. -/
def deserialize : Mut PyErr (StateInit × PySlice) Unit := do
  deserializeMaybe (PySlice.u 5) setSplitDepth
  deserializeSpecial
  deserializeMaybe PySlice.r setCode
  deserializeMaybe PySlice.r setData
  deserializeMaybe (PyDictionary.deserialize 256) setLibrary

/-! ### Serialization -/

/-- `if field is None: b.i(1, 0)` and `else: write(b.i(1, 1), field)`. -/
def serializeMaybe {α : Type} (write : α → Mut PyErr PyBuilder Unit) :
    Option α → Mut PyErr PyBuilder Unit
  | none => PyBuilder.i 1 0
  | some a => do
    PyBuilder.i 1 1
    write a

def serializeSpecial (self : StateInit) : Mut PyErr PyBuilder Unit :=
  if self.tick || self.tock then do
    PyBuilder.i 1 1
    PyBuilder.i 1 self.tick.toInt
    PyBuilder.i 1 self.tock.toInt
  else
    PyBuilder.i 1 0

def serialize (self : StateInit) : Except PyErr PyBuilder :=
  PyBuilder.build do
    serializeMaybe (PyBuilder.i 5) self.splitDepth
    serializeSpecial self
    serializeMaybe PyBuilder.r self.code
    serializeMaybe PyBuilder.r self.data
    serializeMaybe
      (fun library => do
        let builder ← Mut.ofExcept (PyDictionary.serialize library)
        PyBuilder.b builder)
      self.library

end Methods

/-! ### Layouts -/

/-- The values the fields are meant for. -/
structure WellFormed (init : StateInit) : Prop where
  splitDepth : ∀ depth ∈ init.splitDepth, 0 ≤ depth ∧ depth ≤ 31
  library : ∀ map ∈ init.library, map.bitLen = 256

/-- The special part the flags stand for. -/
def special (self : StateInit) : Option (Bool × Bool) :=
  if self.tick || self.tock then some (self.tick, self.tock) else none

theorem special_getD (self : StateInit) :
    self.special.getD (false, false) = (self.tick, self.tock) := by
  obtain ⟨_, tick, tock, _, _, _⟩ := self
  cases tick <;> cases tock <;> rfl

/-- Everything before the library, with a given special part. -/
def header (special : Option (Bool × Bool)) (self : StateInit) : Fragment :=
  TlB.maybe (fun depth => TlB.uint 5 depth.toNat) self.splitDepth *
    (TlB.maybe TlB.tickTock special *
      (TlB.maybe .ofRef self.code * TlB.maybe .ofRef self.data))

/-- What the class reads and writes: the library is a `Maybe` of a dictionary. -/
def encoding (special : Option (Bool × Bool)) (self : StateInit) : Fragment :=
  header special self * TlB.maybe HashmapE.fragment self.library

/-- `split_depth:(Maybe (## 5)) special:(Maybe TickTock) code:(Maybe ^Cell)
data:(Maybe ^Cell) library:(HashmapE 256 SimpleLib)`; an absent library is an empty
dictionary. -/
def layout (self : StateInit) : Fragment :=
  header self.special self * (self.library.elim (.ofBits [false]) HashmapE.fragment)

/-- At most fourteen bits and three references: everything fits a cell. -/
theorem encoding_fits (special : Option (Bool × Bool)) (self : StateInit) :
    (encoding special self).Fits := by
  have hdepth := TlB.within_maybe (fun depth : ℤ => TlB.within_uint 5 depth.toNat) self.splitDepth
  have hspecial := TlB.within_maybe TlB.within_tickTock special
  have hcode := TlB.within_maybe Fragment.within_ofRef self.code
  have hdata := TlB.within_maybe Fragment.within_ofRef self.data
  have hlibrary := TlB.within_maybe HashmapE.within_fragment self.library
  exact ((hdepth.mul (hspecial.mul (hcode.mul hdata))).mul hlibrary).fits (by decide) (by decide)

section

variable [NumBigint] [TonTypes] [LawfulNumBigint] [LawfulTonTypes]

/-! ### What `serialize` writes -/

theorem serializeMaybe_writes {α : Type} {write : α → Mut PyErr PyBuilder Unit}
    {enc : α → Fragment} (o : Option α)
    (h : ∀ a ∈ o, PyBuilder.BuilderWrites (write a) (enc a)) :
    PyBuilder.BuilderWrites (serializeMaybe write o) (TlB.maybe enc o) := by
  cases o with
  | none => exact PyBuilder.i_one_writes false
  | some a => exact (PyBuilder.i_one_writes true).seq (h a rfl)

theorem serializeSpecial_writes (self : StateInit) :
    PyBuilder.BuilderWrites (serializeSpecial self) (TlB.maybe TlB.tickTock self.special) := by
  unfold serializeSpecial special
  by_cases h : (self.tick || self.tock) = true
  · rw [if_pos h, if_pos h]
    -- the presence bit, then the two flags
    have hflags := (PyBuilder.i_one_writes self.tick).seq (PyBuilder.i_one_writes self.tock)
    exact (PyBuilder.i_one_writes true).seq hflags
  · rw [if_neg h, if_neg h]
    exact PyBuilder.i_one_writes false

omit [NumBigint] [LawfulNumBigint] in
theorem library_writes (map : PyDictionary) :
    PyBuilder.BuilderWrites
      (do
        let builder ← Mut.ofExcept (PyDictionary.serialize map)
        PyBuilder.b builder)
      map.fragment := by
  obtain ⟨builder, hserialize, hbuilder⟩ := PyDictionary.serialize_eq map
  -- serializing a dictionary never raises, so only the append is left
  have hrun : (do
      let builder ← Mut.ofExcept (PyDictionary.serialize map)
      PyBuilder.b builder) = PyBuilder.b builder := by
    rw [hserialize]
    exact Mut.ext fun _ => Mut.exec_bind_ok rfl
  rw [hrun, ← hbuilder]
  exact PyBuilder.b_writes builder

theorem serialize_eq {self : StateInit} (h : ∀ depth ∈ self.splitDepth, 0 ≤ depth ∧ depth ≤ 31) :
    ∃ b, serialize self = .ok b ∧ b.toFragment = encoding self.special self := by
  have hdepth : PyBuilder.BuilderWrites (serializeMaybe (PyBuilder.i 5) self.splitDepth)
      (TlB.maybe (fun depth => TlB.uint 5 depth.toNat) self.splitDepth) := by
    refine serializeMaybe_writes _ fun depth hmem => ?_
    obtain ⟨hlo, hhi⟩ := h depth hmem
    exact PyBuilder.i_writes_uint (by decide) hlo (by omega)
  have hcode := serializeMaybe_writes self.code fun cell _ => PyBuilder.r_writes cell
  have hdata := serializeMaybe_writes self.data fun cell _ => PyBuilder.r_writes cell
  have hlibrary := serializeMaybe_writes self.library fun map _ => library_writes map
  have hall := hdepth.seq ((serializeSpecial_writes self).seq (hcode.seq (hdata.seq hlibrary)))
  refine ⟨_, PyBuilder.build_eq (f := encoding self.special self) ?_ (encoding_fits _ _), rfl⟩
  simp only [encoding, header, mul_assoc]
  exact hall

/-- The class writes the blockchain's layout exactly when there is no library: a
library gets a presence bit of its own before that of its `HashmapE`. -/
theorem serialize_eq_layout_iff {self : StateInit} (h : self.WellFormed) :
    (∃ b, serialize self = .ok b ∧ b.toFragment = layout self) ↔ self.library = none := by
  obtain ⟨b, hb, hencoding⟩ := serialize_eq h.splitDepth
  constructor
  · rintro ⟨b', hb', hlayout⟩
    cases hb.symm.trans hb'
    -- the header is the same on both sides, so the library parts agree
    have hlibrary : TlB.maybe HashmapE.fragment self.library =
        self.library.elim (.ofBits [false]) HashmapE.fragment :=
      mul_left_cancel (hencoding.symm.trans hlayout)
    cases hmap : self.library with
    | none => rfl
    | some map =>
      rw [hmap] at hlibrary
      -- the presence bit of the class is one bit too many
      have hlen := congrArg (fun f : Fragment => f.bits.length) hlibrary
      simp [TlB.maybe] at hlen
  · intro hnone
    refine ⟨b, hb, ?_⟩
    rw [hencoding, encoding, layout, hnone]
    rfl

end

section Reference

open scoped Reference

/-- A code-only initial state, which has the blockchain's layout. -/
theorem serialize_eq_layout_iff_code :
    let self : StateInit := { code := some (.ordinary .new) }
    (∃ b, serialize self = .ok b ∧ b.toFragment = layout self) ↔ self.library = none :=
  serialize_eq_layout_iff ⟨nofun, nofun⟩

/-- An empty dictionary of libraries takes two bits, where the layout has one. -/
theorem serialize_empty_library :
    let self : StateInit := { library := some ⟨256, none⟩ }
    self.WellFormed ∧
      (∃ b, serialize self = .ok b ∧ b.bits = [false, false, false, false, true, false]) ∧
      layout self = .ofBits [false, false, false, false, false] ∧
      ¬ ∃ b, serialize self = .ok b ∧ b.toFragment = layout self := by
  have hrun : serialize { library := some ⟨256, none⟩ } =
      .ok ⟨.ofBits [false, false, false, false, true, false], by decide⟩ := by
    rfl
  refine ⟨⟨nofun, ?_⟩, ⟨_, hrun, rfl⟩, rfl, ?_⟩
  · rintro map ⟨⟩
    rfl
  · rintro ⟨b, hb, hlayout⟩
    cases hrun.symm.trans hb
    exact absurd (congrArg Fragment.bits hlayout) (by decide)

end Reference

section

variable [NumBigint] [TonTypes] [LawfulNumBigint] [LawfulTonTypes]

/-! ### What `deserialize` reads -/

theorem ifBit_decodes {present absent : Mut PyErr (StateInit × PySlice) Unit} {f : Fragment}
    {t t' : StateInit} (bit : Bool)
    (h : Decodes SliceData.content (if bit then present else absent) f t t' ()) :
    Decodes SliceData.content (ifBit present absent) (.ofBits [bit] * f) t t' () := by
  -- the reader branches on the number that the bit is read as
  apply ((PySlice.u_reads [bit]).decodes t).bind
  cases bit <;> exact h

theorem deserializeMaybe_decodes {α : Type} {read : Mut PyErr PySlice α} (enc : α → Fragment)
    {set : α → StateInit → StateInit} {t t' : StateInit} (o : Option α)
    (h : ∀ a ∈ o, Reads SliceData.content read (enc a) a) (ht : o.elim t (set · t) = t') :
    Decodes SliceData.content (deserializeMaybe read set) (TlB.maybe enc o) t t' () := by
  subst ht
  cases o with
  | none => exact ifBit_decodes (f := 1) false (Decodes.pure () t)
  | some a =>
    exact ifBit_decodes true ((h a rfl).assign set t)

theorem deserializeSpecial_decodes (t : StateInit) (special : Option (Bool × Bool)) :
    Decodes SliceData.content deserializeSpecial (TlB.maybe TlB.tickTock special) t
      { t with
        tick := (special.getD (false, false)).1
        tock := (special.getD (false, false)).2 } () := by
  cases special with
  | none => exact ifBit_decodes (f := 1) false (Decodes.update _ t)
  | some flags =>
    obtain ⟨tick, tock⟩ := flags
    have htick := (PySlice.u_reads [tick]).assign setTick t
    have htock := (PySlice.u_reads [tock]).assign setTock (setTick (value [tick]) t)
    have hflags : setTock (value [tock]) (setTick (value [tick]) t) =
        { t with tick := tick, tock := tock } := by
      cases tick <;> cases tock <;> rfl
    rw [hflags] at htock
    exact ifBit_decodes true (htick.seq htock)

theorem splitDepth_decodes {depth : Option ℤ} (h : ∀ d ∈ depth, 0 ≤ d ∧ d ≤ 31)
    (t : StateInit) :
    Decodes SliceData.content (deserializeMaybe (PySlice.u 5) setSplitDepth)
      (TlB.maybe (fun d => TlB.uint 5 d.toNat) depth) t
      { t with splitDepth := depth.or t.splitDepth } () := by
  cases depth with
  | none => exact deserializeMaybe_decodes (TlB.uint 5) none nofun rfl
  | some d =>
    obtain ⟨hlo, hhi⟩ := h d rfl
    -- the reader returns a natural number, the field holds an integer
    have hread : Reads SliceData.content (PySlice.u 5) (TlB.uint 5 d.toNat) d.toNat :=
      PySlice.u_reads_uint (by change d.toNat < 32; omega)
    have hset : setSplitDepth d.toNat t = { t with splitDepth := some d } := by
      rw [setSplitDepth, Int.toNat_of_nonneg hlo]
    exact deserializeMaybe_decodes (TlB.uint 5) (some d.toNat)
      (fun a ha => Option.some.inj ha ▸ hread) hset

/-- What an object becomes: the parts that are present are assigned, the flags always are. -/
def overwrite (special : Option (Bool × Bool)) (init t : StateInit) : StateInit where
  splitDepth := init.splitDepth.or t.splitDepth
  tick := (special.getD (false, false)).1
  tock := (special.getD (false, false)).2
  code := init.code.or t.code
  data := init.data.or t.data
  library := init.library.or t.library

omit [NumBigint] [TonTypes] [LawfulNumBigint] [LawfulTonTypes] in
/-- A fresh object takes every field from the encoding. -/
theorem overwrite_fresh (init : StateInit) : overwrite init.special init {} = init := by
  simp only [overwrite, special_getD, Option.or_none]

/-- Each part is decoded into the object that the parts before it have left. -/
theorem deserialize_decodes {init : StateInit} (h : init.WellFormed)
    (special : Option (Bool × Bool)) (t : StateInit) :
    Decodes SliceData.content deserialize (encoding special init) t
      (overwrite special init t) () := by
  obtain ⟨depth, tick, tock, code, data, library⟩ := init
  have hdepth := splitDepth_decodes h.splitDepth t
  have hspecial := deserializeSpecial_decodes { t with splitDepth := depth.or t.splitDepth } special
  have hcode (t : StateInit) : Decodes _ (deserializeMaybe PySlice.r setCode)
      (TlB.maybe .ofRef code) t { t with code := code.or t.code } () :=
    deserializeMaybe_decodes .ofRef code (fun cell _ => PySlice.r_reads cell)
      (by cases code <;> rfl)
  have hdata (t : StateInit) : Decodes _ (deserializeMaybe PySlice.r setData)
      (TlB.maybe .ofRef data) t { t with data := data.or t.data } () :=
    deserializeMaybe_decodes .ofRef data (fun cell _ => PySlice.r_reads cell)
      (by cases data <;> rfl)
  have hlibrary (t : StateInit) :
      Decodes _ (deserializeMaybe (PyDictionary.deserialize 256) setLibrary)
        (TlB.maybe HashmapE.fragment library) t { t with library := library.or t.library } () :=
    deserializeMaybe_decodes HashmapE.fragment library
      (fun map hmap => h.library map hmap ▸ PyDictionary.deserialize_reads map)
      (by cases library <;> rfl)
  have hall := hdepth.seq (hspecial.seq ((hcode _).seq ((hdata _).seq (hlibrary _))))
  simp only [encoding, header, mul_assoc]
  exact hall

/-- Decoding what was encoded returns the object and stops right after it. -/
theorem deserialize_serialize {init : StateInit} (h : init.WellFormed) :
    ∃ b, serialize init = .ok b ∧
      ∀ (trailing : Fragment) (s : PySlice), s.content = b.toFragment * trailing →
        ∃ s', deserialize.exec ({}, s) = (.ok (), (init, s')) ∧ s'.content = trailing := by
  obtain ⟨b, hb, hencoding⟩ := serialize_eq h.splitDepth
  refine ⟨b, hb, fun trailing s hs => ?_⟩
  rw [hencoding] at hs
  have hrun := deserialize_decodes h init.special {} s trailing hs
  rwa [overwrite_fresh] at hrun

end

section Reference

open scoped Reference

/-- A state with every part present, the dictionary of libraries among them empty. -/
def full : StateInit where
  splitDepth := some 7
  tick := true
  code := some (.ordinary .new)
  data := some (.ordinary .new)
  library := some ⟨256, none⟩

theorem full_wellFormed : full.WellFormed where
  splitDepth := by
    rintro depth ⟨⟩
    decide
  library := by
    rintro map ⟨⟩
    rfl

theorem deserialize_serialize_full :
    ∃ b, serialize full = .ok b ∧
      ∀ (trailing : Fragment) (s : PySlice), s.content = b.toFragment * trailing →
        ∃ s', deserialize.exec ({}, s) = (.ok (), (full, s')) ∧ s'.content = trailing :=
  deserialize_serialize full_wellFormed

end Reference

section

variable [NumBigint] [TonTypes] [LawfulNumBigint] [LawfulTonTypes]

/-! ### What `deserialize` accepts -/

theorem ifBit_parses {present absent : Mut PyErr (StateInit × PySlice) Unit} {t : StateInit}
    {R : Fragment → StateInit → Unit → Prop}
    (h : ∀ bit : Bool, Parses SliceData.content (if bit then present else absent) t fun f =>
      R (.ofBits [bit] * f)) :
    Parses SliceData.content (ifBit present absent) t R := by
  refine ((PySlice.u_consumes 1).parses t).bind fun f t' v => ?_
  rintro ⟨rfl, w, hw, rfl, rfl⟩
  obtain ⟨bit, rfl⟩ := List.length_eq_one_iff.mp hw
  have hbit := h bit
  cases bit <;> exact hbit

theorem deserializeMaybe_parses {α : Type} {read : Mut PyErr PySlice α} {enc : α → Fragment}
    {P : α → Prop} (set : α → StateInit → StateInit) (t : StateInit)
    (h : Consumes SliceData.content read fun f a => f = enc a ∧ P a) :
    Parses SliceData.content (deserializeMaybe read set) t fun f t' _ =>
      ∃ o : Option α, f = TlB.maybe enc o ∧ (∀ a ∈ o, P a) ∧ t' = o.elim t (set · t) := by
  refine ifBit_parses fun bit => ?_
  cases bit with
  | false =>
    apply (Parses.pure () t).mono
    rintro f t' _ ⟨rfl, rfl, -⟩
    exact ⟨none, rfl, nofun, rfl⟩
  | true =>
    apply (h.assign set t).mono
    rintro f t' _ ⟨a, ⟨rfl, hP⟩, rfl⟩
    exact ⟨some a, rfl, fun a' ha' => Option.some.inj ha' ▸ hP, rfl⟩

theorem deserializeSpecial_parses (t : StateInit) :
    Parses SliceData.content deserializeSpecial t fun f t' _ =>
      ∃ special : Option (Bool × Bool), f = TlB.maybe TlB.tickTock special ∧
        t' = { t with
          tick := (special.getD (false, false)).1
          tock := (special.getD (false, false)).2 } := by
  refine ifBit_parses fun bit => ?_
  cases bit with
  | false =>
    apply (Parses.update _ t).mono
    rintro f t' _ ⟨rfl, rfl⟩
    exact ⟨none, rfl, rfl⟩
  | true =>
    apply ((PySlice.u_consumes 1).assign setTick t).bind
    rintro f t' _ ⟨v, ⟨w, hw, rfl, rfl⟩, rfl⟩
    obtain ⟨tick, rfl⟩ := List.length_eq_one_iff.mp hw
    apply ((PySlice.u_consumes 1).assign setTock _).mono
    rintro f t' _ ⟨v, ⟨w, hw', rfl, rfl⟩, rfl⟩
    obtain ⟨tock, rfl⟩ := List.length_eq_one_iff.mp hw'
    refine ⟨some (tick, tock), rfl, ?_⟩
    cases tick <;> cases tock <;> rfl

/-- Whatever is accepted is the encoding of a well-formed object, which then overwrites the
one that is deserialized into. -/
theorem deserialize_parses (t : StateInit) :
    Parses SliceData.content deserialize t fun f t' _ =>
      ∃ special init, f = encoding special init ∧ init.WellFormed ∧
        t' = overwrite special init t := by
  have href : Consumes SliceData.content PySlice.r fun f cell => f = .ofRef cell ∧ True :=
    PySlice.r_consumes.mono fun f cell hf => ⟨hf, trivial⟩
  -- part by part: what was consumed, and what the object became
  apply (deserializeMaybe_parses setSplitDepth t (PySlice.u_consumes_uint 5)).bind
  rintro _ _ _ ⟨depth, rfl, hdepth, rfl⟩
  apply (deserializeSpecial_parses _).bind
  rintro _ _ _ ⟨special, rfl, rfl⟩
  apply (deserializeMaybe_parses setCode _ href).bind
  rintro _ _ _ ⟨code, rfl, -, rfl⟩
  apply (deserializeMaybe_parses setData _ href).bind
  rintro _ _ _ ⟨data, rfl, -, rfl⟩
  apply (deserializeMaybe_parses setLibrary _ (PyDictionary.deserialize_consumes 256)).mono
  rintro _ _ _ ⟨library, rfl, hlibrary, rfl⟩
  refine ⟨special, ⟨depth.map Int.ofNat, false, false, code, data, library⟩, ?_,
    ⟨?_, hlibrary⟩, ?_⟩
  · simp only [encoding, header, mul_assoc]
    cases depth <;> rfl
  · intro d hd
    obtain ⟨m, hm, rfl⟩ := Option.map_eq_some_iff.mp hd
    have hlt := hdepth m hm
    exact ⟨Int.natCast_nonneg m, by change (m : ℤ) ≤ 31; omega⟩
  · cases depth <;> cases code <;> cases data <;> cases library <;> rfl

/-- Encoding what was decoded gives back the bits and references that were consumed, save
that a special part with both flags clear is written as absent. -/
theorem serialize_deserialize {s s' : PySlice} {init : StateInit}
    (h : deserialize.exec ({}, s) = (.ok (), (init, s'))) :
    ∃ special b, serialize init = .ok b ∧ s.content = encoding special init * s'.content ∧
      special.getD (false, false) = (init.tick, init.tock) ∧
      b.toFragment =
        encoding (if special = some (false, false) then none else special) init := by
  obtain ⟨f, hf, special, init', rfl, hwf, hinit⟩ := deserialize_parses {} s init s' () h
  -- nothing was there to be kept, so the object is the one encoded, flags apart
  have hencode : ∀ special', encoding special' init' = encoding special' init := by
    intro special'
    simp only [hinit, encoding, header, overwrite, Option.or_none]
  have hdepth : init.splitDepth = init'.splitDepth := by
    rw [hinit, overwrite, Option.or_none]
  have hflags : special.getD (false, false) = (init.tick, init.tock) := by
    rw [hinit]
    rfl
  obtain ⟨b, hb, hencoding⟩ := serialize_eq (hdepth ▸ hwf.splitDepth)
  rw [hencode] at hf
  refine ⟨special, b, hb, hf, hflags, ?_⟩
  -- the writer goes by the flags, so it does not know of a special part that is all clear
  have hspecial : init.special = if special = some (false, false) then none else special := by
    obtain ⟨_, tick, tock, _, _, _⟩ := init
    cases special with
    | none =>
      cases hflags
      rfl
    | some flags =>
      cases hflags
      cases tick <;> cases tock <;> rfl
  rw [hencoding, hspecial]

end

section Reference

open scoped Reference

/-- Seven bits: no split depth, a special part with both flags clear, nothing else. -/
def clearFlags : PySlice :=
  Reference.sliceOfBits [false, true, false, false, false, false, false] (by decide)

theorem clearFlags_run :
    deserialize.exec ({}, clearFlags) =
      (.ok (), ({}, { clearFlags with bitStart := 7, bit_le := by decide })) := by
  rfl

theorem serialize_deserialize_clearFlags :
    ∃ special b, serialize {} = .ok b ∧
      clearFlags.content = encoding special {} *
        SliceData.content { clearFlags with bitStart := 7, bit_le := by decide } ∧
      special.getD (false, false) = (false, false) ∧
      b.toFragment = encoding (if special = some (false, false) then none else special) {} :=
  serialize_deserialize clearFlags_run

/-- The seven bits are all consumed, and five are written. -/
theorem serialize_deserialize_shorter :
    ∃ init s' b, deserialize.exec ({}, clearFlags) = (.ok (), (init, s')) ∧
      serialize init = .ok b ∧ s'.content = 1 ∧
      b.bits = [false, false, false, false, false] ∧
      clearFlags.content ≠ b.toFragment * s'.content := by
  have hserialize : serialize {} =
      .ok ⟨.ofBits [false, false, false, false, false], by decide⟩ := by
    rfl
  refine ⟨_, _, _, clearFlags_run, hserialize, rfl, rfl, fun h => ?_⟩
  exact absurd (congrArg Fragment.bits h) (by decide)

end Reference

end StateInit

end EverPlayground
