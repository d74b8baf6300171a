import EverPlayground.Builder.Append
import EverPlayground.Dictionary.Run
import EverPlayground.Python.Format
import EverPlayground.UniqueCells

/-!
# Libraries

Code can refer to a cell by its hash. The machine looks such a cell up in dictionaries with
the hash as key, which a script fills with one call per cell: it prints the hash as text and
reads the text into a builder to get the key.

## Main definitions

* `Libraries.libKey` — the key that the script makes for a cell
* `Libraries.addLib` — the call that adds a cell

## Main results

* `Libraries.libKey_bits` — the key is the hash
* `Libraries.addLib_get` — every added cell is found under its hash, and nothing else is
-/

set_option autoImplicit false

namespace EverPlayground

open Math.Positional Semantics Semantics.Cursor

namespace Libraries

section

variable [TonTypes] [TonCells]

/-- `"{:064x}".format(cell.repr_hash())`. -/
def libCellHash (cell : Cell) : String :=
  .ofList (Python.hexText 64 ((TonCells.reprHash cell).toNat : ℤ))

/-- `Builder().x(lib_cell_hash).slice()`. -/
def libKey (cell : Cell) : Except PyErr PySlice := do
  let b ← PyBuilder.build (PyBuilder.x (libCellHash cell))
  PyBuilder.slice b

/-- `lib.add_ref(Builder().x(lib_cell_hash).slice(), cell)`. -/
def addLib [TonHashmaps] [TonHashmapCalls] (cell : Cell) : Mut PyErr PyDictionary PUnit := do
  let key ← Mut.ofExcept (libKey cell)
  PyDictionary.addRef key cell

/-- The bits of a hash. -/
def hashBits (hash : BitVec 256) : List Bool := word 256 hash.toNat

omit [TonTypes] [TonCells] in
theorem hashBits_inj {hash hash' : BitVec 256} : hashBits hash = hashBits hash' ↔ hash = hash' := by
  refine ⟨fun h => BitVec.eq_of_toNat_eq ?_, congrArg hashBits⟩
  rw [← value_word_of_lt (α := Bool) hash.isLt, ← value_word_of_lt (α := Bool) hash'.isLt]
  exact congrArg value h

variable [LawfulTonTypes] [LawfulHexStrings]

/-- The printed hash is read back digit by digit. -/
theorem libKey_bits (cell : Cell) :
    ∃ key, libKey cell = .ok key ∧ key.bits = hashBits (TonCells.reprHash cell) := by
  have hlt : (TonCells.reprHash cell).toNat < 16 ^ (63 + 1) := (TonCells.reprHash cell).isLt
  -- the text has 64 digits, zeros in front included
  have hlen : (word 64 (TonCells.reprHash cell).toNat : List (Fin 16)).length = 64 :=
    length_word 64 _
  obtain ⟨slice, hstring, hslice⟩ := LawfulHexStrings.fromString_digits
    (word 64 (TonCells.reprHash cell).toNat) (by rw [hlen]; decide)
  have hbits : (expand 4 (word 64 (TonCells.reprHash cell).toNat : List (Fin 16)) : List Bool) =
      hashBits (TonCells.reprHash cell) := expand_word rfl _ _
  have hx : PyBuilder.x (libCellHash cell) = PyBuilder.s slice := by
    rw [libCellHash, Python.hexText_eq_word hlt]
    exact PyBuilder.x_eq_s hstring
  have hfits : slice.content.Fits := slice.content_fits
  obtain ⟨key, hkey, hcontent⟩ := PyBuilder.slice_eq ⟨slice.content, hfits⟩
  refine ⟨key, ?_, ?_⟩
  · rw [libKey, hx, PyBuilder.build_eq (PyBuilder.s_writesExactly slice).writes hfits]
    exact hkey
  · have hall : key.content = .ofBits (hashBits (TonCells.reprHash cell)) := by
      rw [hcontent, ← hbits]
      exact hslice
    exact congrArg Fragment.bits hall

variable [TonHashmaps] [TonHashmapCalls] [LawfulTonHashmaps] [LawfulTonHashmapCalls]

/-- What the call for a cell stores. -/
def entry (cell : Cell) : Option (List Bool × Fragment) :=
  some (hashBits (TonCells.reprHash cell), .ofRef cell)

theorem keepsEntry (cell : Cell) :
    KeepsEntry addLib (PyDictionary.Holds 256) cell (entry cell) := by
  obtain ⟨key, hkey, hbits⟩ := libKey_bits cell
  have hcall : addLib cell = (PyDictionary.Op.addRef key cell).call := by
    rw [addLib, hkey]
    rfl
  -- a reference takes no bits of the leaf
  have hroom : (PyDictionary.Op.addRef key cell).Room 256 := by
    rintro _ ⟨rfl⟩
    change 0 + maxLabelBits 256 ≤ maxBits
    decide
  have hentry : (PyDictionary.Op.addRef key cell).entry 256 = entry cell := by
    rw [PyDictionary.Op.entry, PyDictionary.Op.parts, Option.filter_some, hbits]
    exact if_pos (decide_eq_true (length_word 256 _))
  have hkeeps := PyDictionary.Op.keepsEntry (by decide) hroom trivial
  rw [hentry] at hkeeps
  intro map entries hmap
  rw [hcall]
  exact hkeeps map entries hmap

/-! ### The dictionary -/

omit [TonTypes] [LawfulTonTypes] [LawfulHexStrings] [TonHashmaps] [TonHashmapCalls]
  [LawfulTonHashmaps] [LawfulTonHashmapCalls] in
/-- Nothing is stored under the hash of no cell. -/
theorem lastWrite_hashBits_eq_none_iff {cells : List Cell} {hash : BitVec 256} :
    lastWrite entry cells (hashBits hash) = none ↔ ∀ c ∈ cells, TonCells.reprHash c ≠ hash := by
  rw [lastWrite_eq_none_iff]
  refine forall₂_congr fun c _ => ?_
  simp only [entry, ne_eq, Option.some.injEq, Prod.mk.injEq, hashBits_inj, not_and]
  exact ⟨fun h heq => h _ heq rfl, fun h _ heq => absurd heq h⟩

omit [TonTypes] [LawfulTonTypes] [LawfulHexStrings] [TonHashmaps] [TonHashmapCalls]
  [LawfulTonHashmaps] [LawfulTonHashmapCalls] in
/-- Under the hash of a cell that was added there is that cell. -/
theorem lastWrite_hashBits_of_mem {cells : List Cell}
    (hhash : Set.InjOn TonCells.reprHash {c | c ∈ cells}) {cell : Cell} (h : cell ∈ cells) :
    lastWrite entry cells (hashBits (TonCells.reprHash cell)) = some (.ofRef cell) := by
  cases hlast : lastWrite entry cells (hashBits (TonCells.reprHash cell)) with
  | none => exact absurd rfl (lastWrite_hashBits_eq_none_iff.mp hlast cell h)
  | some f =>
    obtain ⟨c, hc, hentry⟩ := exists_of_lastWrite_eq_some hlast
    obtain ⟨hbits, rfl⟩ := Prod.mk.inj (Option.some.inj hentry)
    rw [hhash hc h (hashBits_inj.mp hbits)]

omit [TonTypes] [LawfulTonTypes] [LawfulHexStrings] [TonHashmaps] [TonHashmapCalls]
  [LawfulTonHashmaps] [LawfulTonHashmapCalls] in
/-- There is one key for every cell. -/
theorem card_keys {cells : List Cell} (hhash : Set.InjOn TonCells.reprHash {c | c ∈ cells})
    {keys : Finset (List Bool)} (hkeys : ∀ key, key ∈ keys ↔ lastWrite entry cells key ≠ none) :
    keys.card = {c | c ∈ cells}.ncard := by
  -- the keys are the hashes of the cells
  have himage : (keys : Set (List Bool)) =
      (fun c => hashBits (TonCells.reprHash c)) '' {c | c ∈ cells} := by
    ext key
    rw [Finset.mem_coe, hkeys]
    constructor
    · intro h
      obtain ⟨f, hf⟩ := Option.ne_none_iff_exists'.mp h
      obtain ⟨c, hc, hentry⟩ := exists_of_lastWrite_eq_some hf
      obtain ⟨hbits, -⟩ := Prod.mk.inj (Option.some.inj hentry)
      exact ⟨c, hc, hbits⟩
    · rintro ⟨c, hc, hkey⟩
      have hstored := lastWrite_hashBits_of_mem hhash hc
      rw [← hkey]
      exact Option.ne_none_iff_exists'.mpr ⟨_, hstored⟩
  have hinj : Set.InjOn (fun c => hashBits (TonCells.reprHash c)) {c | c ∈ cells} :=
    fun c hc d hd heq => hhash hc hd (hashBits_inj.mp heq)
  rw [← Set.ncard_coe_finset, himage, hinj.ncard_image]

/-- A dictionary that any cells with different hashes have been added to has one value for
each of them. The key that the script makes for a cell finds that cell if it was added, and
nothing if no cell with its hash was. -/
theorem addLib_get {cells : List Cell} (hhash : Set.InjOn TonCells.reprHash {c | c ∈ cells}) :
    ∃ map, (forM cells addLib : Mut PyErr PyDictionary PUnit).exec (PyDictionary.create 256) =
        (.ok ⟨⟩, map) ∧
      PyDictionary.len map = .ok {c | c ∈ cells}.ncard ∧
      ∀ cell, ∃ key found, libKey cell = .ok key ∧ PyDictionary.get map key = .ok found ∧
        (cell ∈ cells → found.map SliceData.content = some (.ofRef cell)) ∧
        (TonCells.reprHash cell ∉ cells.map TonCells.reprHash → found = none) := by
  have hstart : PyDictionary.Holds 256 (PyDictionary.create 256) fun _ => none :=
    ⟨LawfulTonHashmaps.withBitLen 256, .withBitLen 256⟩
  rcases holds_forM (fun cell (_ : cell ∈ cells) => keepsEntry cell) hstart with
    ⟨-, map, hrun, hholds⟩ | ⟨⟨cell, -, hnone⟩, -⟩
  · simp only [Option.or_none] at hholds
    have hshows := hholds.shows (by decide)
    obtain ⟨keys, hkeys, hlen⟩ := hshows.len
    -- the key that is asked for is made like the keys that were stored under
    refine ⟨map, hrun, by rw [hlen, card_keys hhash hkeys], fun cell => ?_⟩
    obtain ⟨key, hkey, hbits⟩ := libKey_bits cell
    have hwidth : key.bits.length = 256 := by
      rw [hbits]
      exact length_word 256 _
    obtain ⟨found, hget, hfound⟩ := hshows.get key hwidth
    rw [hbits] at hfound
    refine ⟨key, found, hkey, hget, fun hmem => ?_, fun hnew => ?_⟩
    · rw [hfound, lastWrite_hashBits_of_mem hhash hmem]
    · have hnone : lastWrite entry cells (hashBits (TonCells.reprHash cell)) = none :=
        lastWrite_hashBits_eq_none_iff.mpr fun c hc heq =>
          hnew (heq ▸ List.mem_map_of_mem hc)
      rw [hnone] at hfound
      exact Option.map_eq_none_iff.mp hfound
  · cases hnone

end

section Reference

open scoped Reference

/-- One library, of two bits. -/
theorem addLib_get_oneLeaf :
    ∃ map, (forM [PyCell.oneLeaf] addLib : Mut PyErr PyDictionary PUnit).exec
        (PyDictionary.create 256) = (.ok ⟨⟩, map) ∧
      PyDictionary.len map = .ok {c | c ∈ [PyCell.oneLeaf]}.ncard ∧
      ∀ cell, ∃ key found, libKey cell = .ok key ∧ PyDictionary.get map key = .ok found ∧
        (cell ∈ [PyCell.oneLeaf] → found.map SliceData.content = some (.ofRef cell)) ∧
        (TonCells.reprHash cell ∉ [PyCell.oneLeaf].map TonCells.reprHash → found = none) := by
  refine addLib_get fun c hc d hd _ => ?_
  rw [List.mem_singleton.mp hc, List.mem_singleton.mp hd]

end Reference

end Libraries

end EverPlayground
