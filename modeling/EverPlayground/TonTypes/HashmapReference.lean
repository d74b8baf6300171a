import EverPlayground.Data.PrefixTree
import EverPlayground.TonTypes.Hashmap
import EverPlayground.TonTypes.Reference

/-!
# A reference implementation of dictionaries

The tree of cells of the TL-B scheme `Hashmap n X`: every cell begins with a label in the
shortest of three forms, and holds a value where the key ends and two references where it
does not.

## Main definitions

* `encodeLabel`, `decodeLabel` — `HmLabel ~l n`
* `encodeTree`, `decodeTree` — `Hashmap n X`

## Main results

* `decodeLabel_encodeLabel`, `decodeTree_encodeTree` — the codecs
* `Made.represents` — a dictionary made by calls encodes a tree with its entries
-/

set_option autoImplicit false

namespace EverPlayground.Reference

open Data Math.Positional Semantics

/-! ### Labels -/

/-- All bits are the same. -/
def isConstant (label : List Bool) : Prop := label = List.replicate label.length (label.headD false)

instance (label : List Bool) : Decidable (isConstant label) :=
  inferInstanceAs (Decidable (_ = _))

/-- `hml_same$11 v:Bit n:(#<= m)`, `hml_long$10 n:(#<= m) s:(n * Bit)` or
`hml_short$0 len:(Unary ~n) s:(n * Bit)`, the shortest that there is. -/
def encodeLabel (m : ℕ) (label : List Bool) : List Bool :=
  if 1 < label.length ∧ m.size < 2 * label.length - 1 ∧ isConstant label then
    true :: true :: label.headD false :: word m.size label.length
  else if m.size < label.length then
    true :: false :: (word m.size label.length ++ label)
  else
    false :: (List.replicate label.length true ++ false :: label)

/-- The label at the front, and what follows it. -/
def decodeLabel (m : ℕ) : List Bool → Option (List Bool × List Bool)
  | true :: true :: bit :: w =>
    some (List.replicate (value (w.take m.size)) bit, w.drop m.size)
  | true :: false :: w =>
    let len := value (w.take m.size)
    some ((w.drop m.size).take len, (w.drop m.size).drop len)
  | false :: w =>
    let len := (w.takeWhile id).length
    match w.drop len with
    | false :: w => some (w.take len, w.drop len)
    | _ => none
  | _ => none

theorem length_encodeLabel_le {m : ℕ} {label : List Bool} (h : label.length ≤ m) :
    (encodeLabel m label).length ≤ maxLabelBits m := by
  unfold encodeLabel maxLabelBits
  split_ifs with hsame hlong
  · simp only [List.length_cons, length_word]
    omega
  · simp only [List.length_cons, List.length_append, length_word]
    omega
  · simp only [List.length_cons, List.length_append, List.length_replicate]
    omega

theorem length_lt_of_decodeLabel {m : ℕ} {w label rest : List Bool}
    (h : decodeLabel m w = some (label, rest)) : rest.length < w.length := by
  unfold decodeLabel at h
  split at h
  · cases h
    simp only [List.length_cons, List.length_drop]
    omega
  · cases h
    simp only [List.length_cons, List.length_drop]
    omega
  · next w =>
    simp only at h
    split at h
    · next w' hdrop =>
      cases h
      have hlen := congrArg List.length hdrop
      simp only [List.length_cons, List.length_drop] at hlen ⊢
      omega
    · cases h
  · cases h

theorem decodeLabel_encodeLabel {m : ℕ} (label rest : List Bool) (h : label.length ≤ m) :
    decodeLabel m (encodeLabel m label ++ rest) = some (label, rest) := by
  -- the width of the length field is enough for any length
  have hlen : value (word m.size label.length : List Bool) = label.length :=
    value_word_of_lt (h.trans_lt (Nat.lt_size_self m))
  have hwidth : (word m.size label.length : List Bool).length = m.size := length_word _ _
  unfold encodeLabel
  split_ifs with hsame hlong
  · simp only [List.cons_append, decodeLabel, List.take_left' hwidth, List.drop_left' hwidth, hlen]
    rw [← hsame.2.2]
  · simp only [List.cons_append, List.append_assoc, decodeLabel, List.take_left' hwidth,
      List.drop_left' hwidth, hlen, List.take_left, List.drop_left]
  · -- the ones before the first zero count the bits after it
    have hunary : ((List.replicate label.length true ++ false :: label ++ rest).takeWhile
        id).length = label.length := by
      rw [List.append_assoc, List.takeWhile_append_of_pos (by simp)]
      simp
    simp only [List.cons_append, decodeLabel]
    rw [hunary, List.append_assoc, List.drop_left' List.length_replicate]
    simp

/-! ### Trees -/

def cellOf (f : Fragment) : Option Cell :=
  if h : f.Fits then some (.ordinary ⟨f, h⟩) else none

/-- A tree with keys of `m` bits, as cells. -/
def encodeTree : PrefixTree Fragment → ℕ → Option Cell
  | .leaf label value, m => cellOf (.ofBits (encodeLabel m label) * value)
  | .fork label left right, m => do
    let left ← encodeTree left (m - label.length - 1)
    let right ← encodeTree right (m - label.length - 1)
    cellOf (.ofBits (encodeLabel m label) * ⟨[], [left, right]⟩)

/-- The last bits of a cell, and all its references. -/
def windowOf (c : Cell) (rest : List Bool) : SliceData :=
  { SliceData.ofCell c with
    bitStart := c.data.length - rest.length
    bit_le := Nat.sub_le _ _ }

def decodeTree : Cell → ℕ → Option (PrefixTree SliceData)
  | .mk exotic data data_le count child, m => do
    let (label, rest) ← decodeLabel m data
    if label.length = m then
      some (.leaf label (windowOf (.mk exotic data data_le count child) rest))
    else if h : label.length < m ∧ (count : ℕ) = 2 then do
      let left ← decodeTree (child ⟨0, by omega⟩) (m - label.length - 1)
      let right ← decodeTree (child ⟨1, by omega⟩) (m - label.length - 1)
      some (.fork label left right)
    else
      none

theorem windowOf_content {c : Cell} (label : List Bool) {rest : List Bool}
    (h : c.data = label ++ rest) : (windowOf c rest).content = ⟨rest, c.refs⟩ := by
  have hstart : c.data.length - rest.length = label.length := by
    rw [h, List.length_append]
    omega
  ext1
  · change (c.data.take c.data.length).drop (c.data.length - rest.length) = rest
    rw [List.take_length, hstart, h, List.drop_left]
  · change (c.refs.take c.refs.length).drop 0 = c.refs
    rw [List.take_length, List.drop_zero]

theorem cellOf_eq_some {f : Fragment} {c : Cell} (h : cellOf f = some c) :
    ∃ hfits : f.Fits, c = .ordinary ⟨f, hfits⟩ := by
  unfold cellOf at h
  split_ifs at h with hfits
  exact ⟨hfits, (Option.some.inj h).symm⟩

/-- Decoding an encoded tree gives windows on the values. -/
theorem decodeTree_encodeTree {t : PrefixTree Fragment} {m : ℕ} {c : Cell} (hdepth : t.HasDepth m)
    (h : encodeTree t m = some c) :
    ∃ t', decodeTree c m = some t' ∧ t'.map SliceData.content = t := by
  induction t generalizing m c with
  | leaf label value =>
    obtain ⟨hfits, rfl⟩ := cellOf_eq_some h
    have hlabel : label.length ≤ m := le_of_eq hdepth
    have hdecode := decodeLabel_encodeLabel label value.bits hlabel
    refine ⟨.leaf label (windowOf (.ordinary ⟨_, hfits⟩) value.bits), ?_, ?_⟩
    · rw [Cell.ordinary, decodeTree]
      change (decodeLabel m (encodeLabel m label ++ value.bits) >>= _) = _
      rw [hdecode]
      exact if_pos hdepth
    · rw [PrefixTree.map, windowOf_content (encodeLabel m label) rfl]
      simp
  | fork label left right ihleft ihright =>
    obtain ⟨n, hm, hleft, hright⟩ := hdepth
    have hn : m - label.length - 1 = n := by omega
    rw [encodeTree, hn] at h
    obtain ⟨l, hl, h⟩ := Option.bind_eq_some_iff.mp h
    obtain ⟨r, hr, h⟩ := Option.bind_eq_some_iff.mp h
    obtain ⟨hfits, rfl⟩ := cellOf_eq_some h
    obtain ⟨left', hdecodeLeft, hmapLeft⟩ := ihleft hleft hl
    obtain ⟨right', hdecodeRight, hmapRight⟩ := ihright hright hr
    have hlabel : label.length ≤ m := by omega
    have hdecode := decodeLabel_encodeLabel label [] hlabel
    refine ⟨.fork label left' right', ?_, ?_⟩
    · rw [Cell.ordinary, decodeTree]
      change (decodeLabel m (encodeLabel m label ++ []) >>= _) = _
      rw [hdecode]
      change (if label.length = m then _ else dite _ _ _) = _
      rw [if_neg (by omega), dif_pos ⟨by omega, rfl⟩, hn]
      change (decodeTree l n >>= fun left => decodeTree r n >>= fun right =>
        some (PrefixTree.fork label left right)) = _
      rw [hdecodeLeft, hdecodeRight]
      rfl
    · rw [PrefixTree.map, hmapLeft, hmapRight]

/-- Every value stands behind a label. -/
theorem all_decodeTree {c : Cell} {m : ℕ} {t : PrefixTree SliceData} (h : decodeTree c m = some t) :
    t.All fun s => 0 < s.bitStart ∧ s.ToEnd := by
  induction c generalizing m t with
  | mk exotic data data_le count child ih =>
    obtain ⟨⟨label, rest⟩, hlabel, h⟩ := Option.bind_eq_some_iff.mp h
    have hlt := length_lt_of_decodeLabel hlabel
    simp only at h
    split_ifs at h with hleaf hfork
    · obtain rfl := Option.some.inj h
      exact ⟨Nat.sub_pos_of_lt hlt, rfl, rfl, rfl⟩
    · obtain ⟨left, hleft, h⟩ := Option.bind_eq_some_iff.mp h
      obtain ⟨right, hright, h⟩ := Option.bind_eq_some_iff.mp h
      obtain rfl := Option.some.inj h
      exact ⟨ih _ hleft, ih _ hright⟩

/-- The fragment has room behind any label of a tree with keys of `n` bits. -/
def Small (n : ℕ) (f : Fragment) : Prop :=
  f.bits.length + maxLabelBits n ≤ maxBits ∧ f.refs.length ≤ maxRefs

theorem maxLabelBits_mono {m n : ℕ} (h : m ≤ n) : maxLabelBits m ≤ maxLabelBits n := by
  have hsize := Nat.size_le_size h
  unfold maxLabelBits
  omega

/-- A tree of small values can be encoded. -/
theorem exists_encodeTree {t : PrefixTree Fragment} {m n : ℕ} (hdepth : t.HasDepth m) (hmn : m ≤ n)
    (hroom : maxLabelBits n ≤ maxBits) (hsmall : t.All (Small n)) :
    ∃ c, encodeTree t m = some c := by
  induction t generalizing m with
  | leaf label value =>
    have hlabel := length_encodeLabel_le (m := m) (le_of_eq hdepth)
    have hlabels := maxLabelBits_mono hmn
    have hfits : (.ofBits (encodeLabel m label) * value : Fragment).Fits := by
      constructor
      · rw [Fragment.mul_bits, Fragment.ofBits_bits, List.length_append]
        have hbits := hsmall.1
        omega
      · exact hsmall.2
    exact ⟨_, dif_pos hfits⟩
  | fork label left right ihleft ihright =>
    obtain ⟨k, hm, hleft, hright⟩ := hdepth
    have hk : m - label.length - 1 = k := by omega
    have hshort : label.length ≤ m := by omega
    have hlabel := length_encodeLabel_le hshort
    have hlabels := maxLabelBits_mono hmn
    obtain ⟨l, hl⟩ := ihleft hleft (by omega) hsmall.1
    obtain ⟨r, hr⟩ := ihright hright (by omega) hsmall.2
    have hfits : (.ofBits (encodeLabel m label) * ⟨[], [l, r]⟩ : Fragment).Fits := by
      constructor
      · rw [Fragment.mul_bits, Fragment.ofBits_bits, List.append_nil]
        omega
      · exact Nat.le_of_ble_eq_true rfl
    refine ⟨.ordinary ⟨_, hfits⟩, ?_⟩
    rw [encodeTree, hk, hl, hr]
    exact dif_pos hfits

/-! ### Dictionaries -/

/-- The tree of a dictionary, if it has one. -/
def treeOf (map : HashmapE) : Except Error (Option (PrefixTree SliceData)) :=
  match map.data with
  | none => .ok none
  | some root =>
    match decodeTree root map.bitLen with
    | none => .error ⟨"invalid dictionary"⟩
    | some t => .ok (some t)

def getValue (map : HashmapE) (key : SliceData) : Except Error (Option SliceData) :=
  if key.bits.length = map.bitLen then do
    let t ← treeOf map
    .ok (t.bind fun t => t.lookup key.bits)
  else
    .error ⟨"invalid key length"⟩

/-- The tree with one more value. -/
def insertValue (t : Option (PrefixTree Fragment)) (key : List Bool) (value : Fragment) :
    PrefixTree Fragment :=
  match t with
  | none => .leaf key value
  | some t => t.insert key value

def storeValue (key value : SliceData) (map : HashmapE) : Except Error HashmapE :=
  if key.bits.length = map.bitLen then do
    let t ← treeOf map
    match encodeTree (insertValue (t.map (PrefixTree.map SliceData.content)) key.bits
        value.content) map.bitLen with
    | none => .error ⟨"cell overflow"⟩
    | some root => .ok { map with data := some root }
  else
    .error ⟨"invalid key length"⟩

def setValue (key value : SliceData) : Mut Error HashmapE Unit :=
  Mut.ofFun fun map =>
    match storeValue key value map with
    | .ok map' => (.ok (), map')
    | .error e => (.error e, map)

scoped instance tonHashmaps : TonHashmaps where
  withBitLen bits := { bitLen := bits, data := none }
  get := getValue
  set := setValue

/-- The tree of fragments that the dictionary encodes, absent when it is empty. -/
def Encodes (map : HashmapE) : Option (PrefixTree Fragment) → Prop
  | none => map.data = none
  | some t => t.HasDepth map.bitLen ∧ t.All (Small map.bitLen) ∧
      ∃ root, map.data = some root ∧ encodeTree t map.bitLen = some root

def entriesOf (t : Option (PrefixTree Fragment)) (key : List Bool) : Option Fragment :=
  t.bind fun t => t.lookup key

theorem treeOf_eq {map : HashmapE} {t : Option (PrefixTree Fragment)} (h : Encodes map t) :
    ∃ t', treeOf map = .ok t' ∧ t'.map (PrefixTree.map SliceData.content) = t := by
  unfold treeOf
  cases t with
  | none =>
    have hdata : map.data = none := h
    rw [hdata]
    exact ⟨none, rfl, rfl⟩
  | some t =>
    obtain ⟨hdepth, -, root, hdata, hroot⟩ := h
    obtain ⟨t', hdecode, hmap⟩ := decodeTree_encodeTree hdepth hroot
    rw [hdata]
    refine ⟨some t', ?_, congrArg some hmap⟩
    simp only [hdecode]

theorem all_treeOf {map : HashmapE} {t : PrefixTree SliceData} (h : treeOf map = .ok (some t)) :
    t.All fun s => 0 < s.bitStart ∧ s.ToEnd := by
  unfold treeOf at h
  cases hdata : map.data with
  | none =>
    rw [hdata] at h
    cases h
  | some root =>
    rw [hdata] at h
    cases hdecode : decodeTree root map.bitLen with
    | none =>
      simp only [hdecode] at h
      cases h
    | some t' =>
      simp only [hdecode] at h
      cases h
      exact all_decodeTree hdecode

theorem entriesOf_insertValue {map : HashmapE} {t : Option (PrefixTree Fragment)}
    (h : Encodes map t) {key : List Bool} (hkey : key.length = map.bitLen) (value : Fragment) :
    entriesOf (some (insertValue t key value)) =
      Function.update (entriesOf t) key (some value) := by
  cases t with
  | none =>
    funext key'
    rw [Function.update_apply]
    exact PrefixTree.lookup_leaf key key' value
  | some t => exact PrefixTree.lookup_insert h.1 hkey value

theorem storeValue_eq {map : HashmapE} {t : Option (PrefixTree Fragment)} {key value : SliceData}
    (h : Encodes map t) (hstores : map.Stores key value) :
    ∃ map', storeValue key value map = .ok map' ∧ map'.bitLen = map.bitLen ∧
      Encodes map' (some (insertValue t key.bits value.content)) := by
  obtain ⟨hpos, hkey, hroom⟩ := hstores
  obtain ⟨t', htree, hmap⟩ := treeOf_eq h
  have hvalue : Small map.bitLen value.content := ⟨hroom, value.content_fits.2⟩
  have hdepth : (insertValue t key.bits value.content).HasDepth map.bitLen := by
    cases t with
    | none => exact hkey
    | some t => exact h.1.insert hkey _
  have hall : (insertValue t key.bits value.content).All (Small map.bitLen) := by
    cases t with
    | none => exact hvalue
    | some t => exact h.2.1.insert _ hvalue
  obtain ⟨root, hroot⟩ := exists_encodeTree hdepth le_rfl (by omega) hall
  refine ⟨{ map with data := some root }, ?_, rfl, hdepth, hall, root, rfl, hroot⟩
  rw [storeValue, if_pos hkey, htree]
  change (match encodeTree (insertValue (t'.map (PrefixTree.map SliceData.content)) _ _) _ with
    | none => _
    | some root => _) = _
  rw [hmap, hroot]

/-- A dictionary made by calls encodes a tree with its entries. -/
theorem Made.represents {map : HashmapE} {entries : List Bool → Option Fragment}
    (h : map.Made entries) : ∃ t, Encodes map t ∧ entries = entriesOf t := by
  induction h with
  | withBitLen bits => exact ⟨none, rfl, rfl⟩
  | @set map map' entries key value _ hstores hrun ih =>
    obtain ⟨t, ht, rfl⟩ := ih
    obtain ⟨map'', hstore, -, hencodes⟩ := storeValue_eq ht hstores
    have hrun' : (setValue key value).exec map = (.ok (), map'') := by
      simp only [setValue, Mut.exec_ofFun, hstore]
    obtain rfl : map'' = map' := congrArg Prod.snd (hrun'.symm.trans hrun)
    exact ⟨_, hencodes, (entriesOf_insertValue ht hstores.2.1 _).symm⟩

scoped instance lawfulTonHashmaps : LawfulTonHashmaps where
  withBitLen _ := rfl
  set map entries key value hmade hstores := by
    obtain ⟨t, ht, -⟩ := Made.represents hmade
    obtain ⟨map', hstore, hlen, -⟩ := storeValue_eq ht hstores
    refine ⟨map', ?_, hlen⟩
    simp only [TonHashmaps.set, setValue, Mut.exec_ofFun, hstore]
  get map entries key hmade _ hkey := by
    obtain ⟨t, ht, rfl⟩ := Made.represents hmade
    obtain ⟨t', htree, rfl⟩ := treeOf_eq ht
    refine ⟨t'.bind fun t => t.lookup key.bits, ?_, ?_⟩
    · change getValue map key = _
      rw [getValue, if_pos hkey, htree]
      rfl
    · cases t' with
      | none => rfl
      | some t' => exact (PrefixTree.lookup_map SliceData.content t' key.bits).symm
  get_window map key value h := by
    change getValue map key = _ at h
    unfold getValue at h
    split_ifs at h with hkey
    obtain ⟨t, htree, hlookup⟩ := exists_of_bind_eq_ok h
    obtain ⟨t, rfl, hvalue⟩ := Option.bind_eq_some_iff.mp (Except.ok.inj hlookup)
    exact (all_treeOf htree).lookup hvalue

/-! ### Further calls -/

def countValues (map : HashmapE) : Except Error ℕ := do
  let t ← treeOf map
  .ok (t.elim 0 fun t => t.keys.length)

/-- The ordinary cell with one reference. -/
def refCell (cell : Cell) : Cell :=
  .ordinary ⟨.ofRef cell, (Fragment.within_ofRef cell).fits (Nat.zero_le _) (by decide)⟩

theorem content_refCell (cell : Cell) :
    (SliceData.ofCell (refCell cell)).content = .ofRef cell := by
  ext1 <;> simp [refCell]

/-- The next `n` bits, without references. -/
def cutBits (s : SliceData) (n : ℕ) (h : n ≤ s.bits.length) : SliceData :=
  { s with
    bitEnd := s.bitStart + n
    bit_le := Nat.le_add_right _ _
    bitEnd_le := by
      have hend := s.bitEnd_le
      have hle := s.bit_le
      rw [s.length_bits] at h
      omega
    refEnd := s.refStart
    ref_le := le_rfl
    refEnd_le := s.ref_le.trans s.refEnd_le }

theorem bits_cutBits (s : SliceData) (n : ℕ) (h : n ≤ s.bits.length) :
    (cutBits s n h).bits = s.bits.take n := by
  have hle := h
  rw [s.length_bits] at hle
  have hend := s.bit_le
  change (s.cell.data.take (s.bitStart + n)).drop s.bitStart =
    ((s.cell.data.take s.bitEnd).drop s.bitStart).take n
  rw [List.take_drop, List.take_take, Nat.min_eq_left (by omega)]

def getNextSlice (n : ℕ) : Mut Error SliceData SliceData :=
  Mut.ofFun fun s =>
    if h : n ≤ s.bits.length then (.ok (cutBits s n h), dropBits s n h) else (.error underflow, s)

scoped instance tonHashmapCalls : TonHashmapCalls where
  count := countValues
  setRef key cell := setValue key (.ofCell (refCell cell))
  getNextSlice := getNextSlice

/-- What is stored is the content of the value. -/
theorem setValue_congr {key value value' : SliceData} (h : value.content = value'.content) :
    setValue key value = setValue key value' := by
  have hstore : storeValue key value = storeValue key value' := by
    funext map
    rw [storeValue, storeValue, h]
  rw [setValue, setValue, hstore]

scoped instance lawfulTonHashmapCalls : LawfulTonHashmapCalls where
  set_width map key value hkey := by
    refine ⟨⟨"invalid key length"⟩, ?_⟩
    change (setValue key value).exec map = _
    rw [setValue, Mut.exec_ofFun, storeValue, if_neg hkey]
  get_width map key hkey := ⟨_, if_neg hkey⟩
  data_eq_none_iff map entries hmade := by
    obtain ⟨t, ht, rfl⟩ := Made.represents hmade
    cases t with
    | none => exact iff_of_true ht fun _ => rfl
    | some t =>
      obtain ⟨-, -, root, hdata, -⟩ := ht
      obtain ⟨key, hkey⟩ := List.exists_mem_of_ne_nil _ t.keys_ne_nil
      refine iff_of_false (by simp [hdata]) fun hnone => ?_
      exact PrefixTree.mem_keys_iff.mp hkey (hnone key)
  count map entries hmade := by
    obtain ⟨t, ht, rfl⟩ := Made.represents hmade
    obtain ⟨t', htree, rfl⟩ := treeOf_eq ht
    refine ⟨(t'.elim [] PrefixTree.keys).toFinset, fun key => ?_, ?_⟩
    · rw [List.mem_toFinset]
      cases t' with
      | none => simp [entriesOf]
      | some t' =>
        change key ∈ t'.keys ↔ (t'.map SliceData.content).lookup key ≠ none
        rw [PrefixTree.mem_keys_iff, PrefixTree.lookup_map, ne_eq, ne_eq, Option.map_eq_none_iff]
    · change countValues map = _
      rw [countValues, htree]
      cases t' with
      | none => rfl
      | some t' => exact congrArg Except.ok (List.toFinset_card_of_nodup t'.nodup_keys).symm
  setRef map entries key value cell _ _ h := by
    change (setValue key (.ofCell (refCell cell))).exec map = (setValue key value).exec map
    rw [setValue_congr ((content_refCell cell).trans h.symm)]
  getNextSlice s n h := ⟨_, _, dif_pos h, bits_cutBits s n h, dropBits_advances s n h⟩
  getNextSlice_short s n _ h := ⟨underflow, dif_neg (not_le.mpr h)⟩

end EverPlayground.Reference
