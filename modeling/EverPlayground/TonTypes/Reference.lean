import EverPlayground.TonTypes.Interface

/-!
# A reference implementation of the crates

One pair of implementations that has every documented behaviour, so that the facts
the package relies on are consistent, and that computes, so that the model can be run
on concrete inputs. The instances are scoped: a statement about the package is about
every implementation unless it opens `Reference`.

Bit strings are spelled as in the package's documentation: hexadecimal digits, and a
final `_` when the string was completed by a one and zeros to a multiple of four bits.
-/

set_option autoImplicit false

namespace EverPlayground.Reference

open Math.Positional Math.TwosComplement Semantics

/-! ### Big integers -/

def toBytesBe (n : ℕ) : List UInt8 := word (n.log2 / 8 + 1) n

/-- The number whose binary digits, after a sign bit, represent the integer. -/
def magnitude (n : ℤ) : ℕ := if n < 0 then (-n - 1).toNat else n.toNat

def signedLength (n : ℤ) : ℕ := (2 * magnitude n).log2 / 8 + 1

def toSignedBytesBe (n : ℤ) : List UInt8 :=
  word (signedLength n) (n % 2 ^ (8 * signedLength n)).toNat

scoped instance numBigint : NumBigint where
  toBytesBe := toBytesBe
  toSignedBytesBe := toSignedBytesBe
  fromBytesBe bytes := value bytes
  fromSignedBytesBe bytes := signed (bytesToBits bytes)

theorem lt_two_pow_iff_log2_div {n k : ℕ} (hk : 0 < k) : n < 2 ^ (8 * k) ↔ n.log2 / 8 + 1 ≤ k := by
  rcases Nat.eq_zero_or_pos n with rfl | hn
  · rw [Nat.log2_zero]
    constructor
    · intro _
      omega
    · intro _
      positivity
  · rw [← Nat.log2_lt hn.ne']
    omega

theorem value_toBytesBe (n : ℕ) : value (toBytesBe n) = n := by
  apply value_word_of_lt
  rw [show (256 : ℕ) = 2 ^ 8 from rfl, ← pow_mul]
  exact (lt_two_pow_iff_log2_div (Nat.succ_pos _)).mpr le_rfl

theorem magnitude_lt_iff {n : ℤ} {k : ℕ} (hk : 0 < k) :
    2 * magnitude n < 2 ^ k ↔ -(2 ^ k) ≤ 2 * n ∧ 2 * n < 2 ^ k := by
  obtain ⟨k, rfl⟩ : ∃ j, k = j + 1 := ⟨k - 1, by omega⟩
  -- the sign bit doubles the magnitude, in either direction
  have hcast : (2 * magnitude n < 2 ^ (k + 1)) ↔ 2 * (magnitude n : ℤ) < 2 ^ (k + 1) := by
    norm_cast
  have hpos : (0 : ℤ) < 2 ^ k := by positivity
  rw [hcast, magnitude, pow_succ]
  split_ifs with h
  · rw [Int.toNat_of_nonneg (by omega)]
    omega
  · rw [Int.toNat_of_nonneg (by omega)]
    omega

theorem signed_toSignedBytesBe (n : ℤ) : signed (bytesToBits (toSignedBytesBe n)) = n := by
  have hbits : bytesToBits (toSignedBytesBe n) = twos (8 * signedLength n) n :=
    expand_word rfl _ _
  have hlt : 2 * magnitude n < 2 ^ (8 * signedLength n) :=
    (lt_two_pow_iff_log2_div (Nat.succ_pos _)).mpr le_rfl
  have hpos : 0 < 8 * signedLength n := Nat.mul_pos (by decide) (Nat.succ_pos _)
  rw [hbits, signed_twos ((magnitude_lt_iff hpos).mp hlt)]

scoped instance lawfulNumBigint : LawfulNumBigint where
  fromBytesBe_eq _ := rfl
  fromSignedBytesBe_eq _ := rfl
  toBytesBe_value := value_toBytesBe
  toBytesBe_ne_nil n h := by
    have hlen := congrArg List.length h
    simp [NumBigint.toBytesBe, toBytesBe] at hlen
  toBytesBe_shortest n bytes hne h := by
    change (toBytesBe n).length ≤ _
    have hlt := value_lt bytes
    rw [h, show (256 : ℕ) = 2 ^ 8 from rfl, ← pow_mul] at hlt
    rw [toBytesBe, length_word]
    exact (lt_two_pow_iff_log2_div (List.length_pos_iff.mpr hne)).mp hlt
  toSignedBytesBe_signed := signed_toSignedBytesBe
  toSignedBytesBe_ne_nil n h := by
    have hlen := congrArg List.length h
    simp [NumBigint.toSignedBytesBe, toSignedBytesBe, signedLength] at hlen
  toSignedBytesBe_shortest n bytes hne h := by
    change (toSignedBytesBe n).length ≤ _
    have hrange := signed_range (bytesToBits bytes)
    rw [h, length_bytesToBits] at hrange
    rw [toSignedBytesBe, length_word]
    have hpos : 0 < bytes.length := List.length_pos_iff.mpr hne
    exact (lt_two_pow_iff_log2_div hpos).mp ((magnitude_lt_iff (by omega)).mpr hrange)

/-! ### Builders -/

def append (f : Fragment) : Mut Error BuilderData Unit :=
  Mut.ofFun fun b =>
    if h : (b.toFragment * f).Fits then (.ok (), ⟨_, h⟩) else (.error ⟨"cell overflow"⟩, b)

theorem append_appends (f : Fragment) : BuilderData.Appends (append f) f where
  fits b h := by simp [append, h]
  overflow b h := ⟨⟨"cell overflow"⟩, by simp [append, h]⟩

def appendRaw (buf : List UInt8) (bits : ℕ) : Mut Error BuilderData Unit :=
  if bits ≤ 8 * buf.length then
    append (.ofBits ((bytesToBits buf).take bits))
  else
    throw ⟨"fatal error"⟩

def withRaw (buf : List UInt8) (bits : ℕ) : Except Error BuilderData :=
  if h : bits ≤ maxBits then
    .ok ⟨.ofBits ((bytesToBits buf).take bits), (List.length_take_le _ _).trans h, Nat.zero_le _⟩
  else
    .error ⟨"cell overflow"⟩

/-! ### Slices -/

def underflow : Error := ⟨"cell underflow"⟩

/-- The slice after its next `n` bits. -/
def dropBits (s : SliceData) (n : ℕ) (h : n ≤ s.bits.length) : SliceData :=
  { s with
    bitStart := s.bitStart + n
    bit_le := by
      have := s.bit_le
      rw [s.length_bits] at h
      omega }

theorem dropBits_advances (s : SliceData) (n : ℕ) (h : n ≤ s.bits.length) :
    s.Advances (.ofBits (s.bits.take n)) (dropBits s n h) where
  content := by
    refine Fragment.ext ?_ rfl
    change s.bits = s.bits.take n ++ (s.cell.data.take s.bitEnd).drop (s.bitStart + n)
    rw [← List.drop_drop]
    exact (List.take_append_drop n s.bits).symm
  cell := rfl
  bitStart := by
    rw [Fragment.ofBits_bits, List.length_take_of_le h]
    rfl
  bitEnd := rfl
  refStart := rfl
  refEnd := rfl

/-- The slice after its next reference. -/
def dropRef (s : SliceData) (h : s.refs ≠ []) : SliceData :=
  { s with
    refStart := s.refStart + 1
    ref_le := by
      have hpos := List.length_pos_iff.mpr h
      rw [s.length_refs] at hpos
      omega }

theorem dropRef_advances (s : SliceData) (h : s.refs ≠ []) :
    s.Advances (.ofRef (s.refs.head h)) (dropRef s h) where
  content := by
    refine Fragment.ext rfl ?_
    change s.refs = s.refs.head h :: (s.cell.refs.take s.refEnd).drop (s.refStart + 1)
    rw [← List.drop_drop, List.drop_one]
    exact (List.cons_head_tail h).symm
  cell := rfl
  bitStart := rfl
  bitEnd := rfl
  refStart := rfl
  refEnd := rfl

/-- Bits completed by zeros to whole bytes. -/
def padBits (w : List Bool) : List Bool :=
  w ++ List.replicate (8 * ((w.length + 7) / 8) - w.length) false

theorem length_padBits (w : List Bool) : (padBits w).length = 8 * ((w.length + 7) / 8) := by
  rw [padBits, List.length_append, List.length_replicate]
  omega

/-- Bits left-aligned in bytes. -/
def packBits (w : List Bool) : List UInt8 := word ((w.length + 7) / 8) (value (padBits w))

theorem bytesToBits_packBits (w : List Bool) : bytesToBits (packBits w) = padBits w := by
  have hbits : bytesToBits (packBits w) = word (8 * ((w.length + 7) / 8)) (value (padBits w)) :=
    expand_word rfl _ _
  rw [hbits, ← length_padBits, word_value]

def getNextBits (n : ℕ) : Mut Error SliceData (List UInt8) :=
  Mut.ofFun fun s =>
    if h : n ≤ s.bits.length then (.ok (packBits (s.bits.take n)), dropBits s n h)
    else (.error underflow, s)

def moveBy (n : ℕ) : Mut Error SliceData Unit :=
  Mut.ofFun fun s =>
    if h : usizeAdd s.bitStart n ≤ s.bitEnd then (.ok (), s.startAt _ h) else (.error underflow, s)

def reference (s : SliceData) (i : ℕ) : Except Error Cell :=
  if h : usizeAdd s.refStart i < s.refEnd then
    .ok (s.cell.refs.get ⟨_, h.trans_le s.refEnd_le⟩)
  else
    .error underflow

def getNextBit : Mut Error SliceData Bool :=
  Mut.ofFun fun s =>
    if h : 1 ≤ s.bits.length then (.ok (s.bits.headD false), dropBits s 1 h)
    else (.error underflow, s)

def checkedDrainReference : Mut Error SliceData Cell :=
  Mut.ofFun fun s =>
    if h : s.refs ≠ [] then (.ok (s.refs.head h), dropRef s h)
    else (.error underflow, s)

/-! ### Hexadecimal spelling -/

/-- The digits of a bit string whose length is a multiple of four. -/
def nibbleChars (w : List Bool) : List Char :=
  (word (w.length / 4) (value w)).map fun d : Fin 16 => Nat.digitChar d

def completion (w : List Bool) : List Bool := true :: List.replicate (3 - w.length % 4) false

def toHex (w : List Bool) : List Char :=
  if w.length % 4 = 0 then nibbleChars w else nibbleChars (w ++ completion w) ++ ['_']

def hexDigit (c : Char) : Option (Fin 16) :=
  (List.finRange 16).find? fun d => Nat.digitChar d == c.toLower

def dropCompletion (w : List Bool) : List Bool := (w.reverse.dropWhile (· == false)).tail.reverse

def fromHex (cs : List Char) : Option (List Bool) :=
  if cs.getLast? = some '_' then
    (cs.dropLast.mapM hexDigit).map fun ds => dropCompletion (expand 4 ds)
  else
    (cs.mapM hexDigit).map fun ds => expand 4 ds

theorem hexDigit_digitChar (d : Fin 16) : hexDigit (Nat.digitChar d) = some d := by
  revert d
  decide

theorem mapM_hexDigit_nibbleChars {w : List Bool} (h : w.length % 4 = 0) :
    ∃ ds, (nibbleChars w).mapM hexDigit = some ds ∧ expand 4 ds = w := by
  -- digit by digit
  have hall (ds : List (Fin 16)) :
      (ds.map fun d : Fin 16 => Nat.digitChar d).mapM hexDigit = some ds := by
    induction ds with
    | nil => rfl
    | cons d ds ih => rw [List.map_cons, List.mapM_cons, hexDigit_digitChar, ih]; rfl
  refine ⟨word (w.length / 4) (value w), hall _, ?_⟩
  have hlen : 4 * (w.length / 4) = w.length := by omega
  have hbits : (expand 4 (word (w.length / 4) (value w) : List (Fin 16)) : List Bool) =
      word (4 * (w.length / 4)) (value w) := expand_word rfl _ _
  rw [hbits, hlen, word_value]

theorem dropCompletion_append (w : List Bool) : dropCompletion (w ++ completion w) = w := by
  -- read from the end, the completion is zeros and then a one
  have hdrop (j : ℕ) (v : List Bool) :
      (List.replicate j false ++ true :: v).dropWhile (· == false) = true :: v := by
    induction j with
    | zero => rfl
    | succ j ih => exact ih
  rw [dropCompletion, completion, List.reverse_append, List.reverse_cons, List.reverse_replicate,
    List.append_assoc, List.singleton_append, hdrop, List.tail_cons, List.reverse_reverse]

theorem digitChar_isHexDigit (d : Fin 16) : (Nat.digitChar d).isHexDigit = true := by
  revert d
  decide

theorem nibbleChars_chars {w : List Bool} {c : Char} (h : c ∈ nibbleChars w) :
    c.isHexDigit = true := by
  obtain ⟨d, -, hd⟩ := List.mem_map.mp h
  rw [← hd]
  exact digitChar_isHexDigit d

theorem toHex_chars {w : List Bool} {c : Char} (h : c ∈ toHex w) :
    c.isHexDigit = true ∨ c = '_' := by
  unfold toHex at h
  split_ifs at h
  · exact Or.inl (nibbleChars_chars h)
  · rcases List.mem_append.mp h with h | h
    · exact Or.inl (nibbleChars_chars h)
    · exact Or.inr (List.mem_singleton.mp h)

theorem fromHex_toHex (w : List Bool) : fromHex (toHex w) = some w := by
  unfold toHex
  split_ifs with h
  · obtain ⟨ds, hds, hw⟩ := mapM_hexDigit_nibbleChars h
    -- a spelling without completion does not end in an underscore
    have hlast : (nibbleChars w).getLast? ≠ some '_' := by
      intro hlast
      have hhex := nibbleChars_chars (List.mem_of_getLast? hlast)
      exact absurd hhex (by decide)
    rw [fromHex, if_neg hlast, hds, Option.map_some, hw]
  · have hlen : (w ++ completion w).length % 4 = 0 := by
      rw [List.length_append, completion, List.length_cons, List.length_replicate]
      omega
    obtain ⟨ds, hds, hw⟩ := mapM_hexDigit_nibbleChars hlen
    rw [fromHex, if_pos (by simp), List.dropLast_concat, hds, Option.map_some, hw,
      dropCompletion_append]

/-- A whole cell of data bits, as a slice. -/
def sliceOfBits (w : List Bool) (h : w.length ≤ maxBits) : SliceData :=
  .ofCell (.ordinary ⟨.ofBits w, h, Nat.zero_le _⟩)

def fromString (s : String) : Except Error SliceData :=
  match fromHex s.toList with
  | some w => if h : w.length ≤ maxBits then .ok (sliceOfBits w h) else .error ⟨"cell overflow"⟩
  | none => .error ⟨"invalid hex"⟩

/-! ### The instances -/

scoped instance tonTypes : TonTypes where
  appendRaw := appendRaw
  appendBitZero := append (.ofBits [false])
  appendBitOne := append (.ofBits [true])
  appendBuilder b := append b.toFragment
  checkedAppendReference c := append (.ofRef c)
  checkedAppendReferencesAndData s := append s.content
  withRaw := withRaw
  checkEnoughSpace b n := b.bits.length + n ≤ maxBits
  checkEnoughRefs b n := b.refs.length + n ≤ maxRefs
  intoCell b := .ok (.ordinary b)
  loadBuilder b := .ok (.ofCell (.ordinary b))
  loadCell c := if c.exotic then .error ⟨"exotic cell"⟩ else .ok (.ofCell c)
  fromString := fromString
  asBuilder s := ⟨s.content, s.content_fits⟩
  getNextBit := getNextBit
  getNextBits := getNextBits
  moveBy := moveBy
  checkedDrainReference := checkedDrainReference
  reference := reference
  toHexString c lower :=
    .ofList (if lower then toHex c.data else (toHex c.data).map Char.toUpper)
  writeHashmapData map := append map.fragment

scoped instance lawfulTonTypes : LawfulTonTypes where
  appendRaw buf bits h := by
    change BuilderData.Appends (appendRaw buf bits) _
    rw [appendRaw, if_pos h]
    exact append_appends _
  appendRaw_short buf bits b h := by
    change (appendRaw buf bits).Raises b
    rw [appendRaw, if_neg (not_le.mpr h)]
    exact ⟨_, rfl⟩
  appendBitZero := append_appends _
  appendBitOne := append_appends _
  appendBuilder b := append_appends _
  checkedAppendReference c := append_appends _
  checkedAppendReferencesAndData s := append_appends _
  withRaw buf bits _ h := ⟨_, dif_pos h, rfl⟩
  withRaw_overflow buf bits h := ⟨_, dif_neg (not_le.mpr h)⟩
  checkEnoughSpace _ _ := decide_eq_true_iff
  checkEnoughRefs _ _ := decide_eq_true_iff
  intoCell _ := rfl
  loadBuilder b := ⟨_, rfl, by ext1 <;> simp⟩
  loadCell c h := by simp [TonTypes.loadCell, h]
  asBuilder _ := rfl
  getNextBit s b w h := by
    have hlen : 1 ≤ s.bits.length := by simp [h]
    have hadv := dropBits_advances s 1 hlen
    rw [h] at hadv
    refine ⟨dropBits s 1 hlen, ?_, hadv⟩
    simp [TonTypes.getNextBit, getNextBit, h]
  getNextBit_empty s h := ⟨underflow, by simp [TonTypes.getNextBit, getNextBit, h]⟩
  getNextBits s n h := by
    have hw : (s.bits.take n).length = n := List.length_take_of_le h
    refine ⟨_, _, dropBits s n h, ?_, ?_, bytesToBits_packBits _, dropBits_advances s n h⟩
    · simp [TonTypes.getNextBits, getNextBits, h]
    · rw [packBits, length_word, hw]
  getNextBits_short s n h :=
    ⟨underflow, by simp [TonTypes.getNextBits, getNextBits, not_le.mpr h]⟩
  checkedDrainReference s c rs h := by
    have hne : s.refs ≠ [] := by simp [h]
    have hadv := dropRef_advances s hne
    have hhead : s.refs.head hne = c := by simp [h]
    rw [hhead] at hadv
    refine ⟨dropRef s hne, ?_, hadv⟩
    simp [TonTypes.checkedDrainReference, checkedDrainReference, h]
  checkedDrainReference_empty s h :=
    ⟨underflow, by simp [TonTypes.checkedDrainReference, checkedDrainReference, h]⟩
  toHexString_chars c ch h := by
    simp only [TonTypes.toHexString, if_true, String.toList_ofList] at h
    exact toHex_chars h
  fromString_toHexString c := by
    refine ⟨sliceOfBits c.data c.data_length_le, ?_, by ext1 <;> simp [sliceOfBits]⟩
    simp [TonTypes.toHexString, TonTypes.fromString, fromString, fromHex_toHex, c.data_length_le]
  writeHashmapData map := append_appends _

scoped instance lawfulTonWindows : LawfulTonWindows where
  moveBy _ _ _ h := dif_pos h
  moveBy_past _ _ _ h := ⟨underflow, dif_neg (not_le.mpr h)⟩
  reference _ _ _ h := dif_pos h
  reference_past _ _ _ h := ⟨underflow, dif_neg (not_lt.mpr h)⟩

/-- A string without completion is the spelling of its bits. -/
theorem toHex_expand (ds : List (Fin 16)) :
    toHex (expand 4 ds) = ds.map fun d : Fin 16 => Nat.digitChar d := by
  have hlen : (expand 4 ds : List Bool).length = 4 * ds.length := length_expand 4 ds
  have hvalue : value (expand 4 ds : List Bool) = value ds := value_expand rfl ds
  rw [toHex, if_pos (by omega), nibbleChars, hlen, hvalue, Nat.mul_div_cancel_left _ (by decide),
    word_value]

scoped instance lawfulHexStrings : LawfulHexStrings where
  fromString_digits ds h := by
    have hlen : (expand 4 ds : List Bool).length ≤ maxBits := by rwa [length_expand]
    refine ⟨sliceOfBits (expand 4 ds) hlen, ?_, by ext1 <;> simp [sliceOfBits]⟩
    simp only [TonTypes.fromString, fromString, String.toList_ofList, ← toHex_expand, fromHex_toHex,
      dif_pos hlen]

scoped instance lawfulLoad : LawfulLoad where
  loadCell c s h := by
    simp only [TonTypes.loadCell] at h
    split_ifs at h
    exact (Except.ok.inj h).symm
  loadBuilder _ _ h := (Except.ok.inj h).symm

end EverPlayground.Reference
