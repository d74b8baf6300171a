import EverPlayground.HighloadWallet.Orders

/-!
# Collecting orders

The loop of the highload script on a file of arbitrary lines. A line that makes no order
stops the script, and so does the order after the 255th; until then every order is stored
under its number.

## Main definitions

* `ordersOf` — the orders of the lines in front of the first one that makes none
* `Collected` — the invariant of the loop

## Main results

* `ordersOf_lines` — well-formed lines make as many orders
* `forM_processLine_collected` — the loop, for any file
-/

set_option autoImplicit false

namespace EverPlayground

open Math.Positional Semantics Semantics.Cursor

namespace HighloadWallet

/-! ### Orders of a file -/

section

variable [NumBigint] [TonTypes] [Python.Unicode]

/-- The orders of the lines in front of the first one that makes none. -/
def ordersOf (args : Args) : List String → List PySlice
  | [] => []
  | line :: lines =>
    match orderOf args line with
    | .ok order => order :: ordersOf args lines
    | .error _ => []

theorem length_ordersOf_le (args : Args) (lines : List String) :
    (ordersOf args lines).length ≤ lines.length := by
  induction lines with
  | nil => exact le_rfl
  | cons line lines ih =>
    rw [ordersOf]
    cases orderOf args line with
    | error e => exact Nat.zero_le _
    | ok order => exact Nat.succ_le_succ ih

variable [LawfulNumBigint] [LawfulTonTypes] [LawfulLoad]

/-- Every well-formed line makes an order, that of its transfer. -/
theorem ordersOf_lines (args : Args) (lines : List Line) :
    List.Forall₂ (fun line order => OrderLayout args line (SliceData.content order)) lines
      (ordersOf args (lines.map Line.text)) := by
  induction lines with
  | nil => exact .nil
  | cons line lines ih =>
    obtain ⟨order, horder, hlayout⟩ := orderOf_line args line
    rw [List.map_cons, ordersOf, horder]
    exact .cons hlayout ih

end

/-! ### One order -/

/-- Entries under their running numbers, as keys of sixteen bits. -/
def numbered (contents : List Fragment) (key : List Bool) : Option Fragment :=
  if key.length = 16 then contents[value key]? else none

theorem numbered_nil : numbered [] = fun _ => none := by
  funext key
  simp [numbered]

theorem numbered_concat {contents : List Fragment} (h : contents.length < 2 ^ 16) (f : Fragment) :
    Function.update (numbered contents) (word 16 contents.length) (some f) =
      numbered (contents ++ [f]) := by
  have hlen : (word 16 contents.length : List Bool).length = 16 := length_word _ _
  have hvalue : value (word 16 contents.length : List Bool) = contents.length := value_word_of_lt h
  funext key
  rw [Function.update_apply]
  by_cases hkey : key = word 16 contents.length
  · rw [if_pos hkey, hkey, numbered, if_pos hlen, hvalue, List.getElem?_concat_length]
  · rw [if_neg hkey, numbered, numbered]
    split_ifs with hwidth
    · -- another key of this width has another number
      have hne : value key ≠ contents.length := fun heq =>
        hkey (value_inj (hwidth.trans hlen.symm) (heq.trans hvalue.symm))
      grind
    · rfl

/-- The orders are stored under their numbers, and nothing has been signed. -/
structure Collected [TonHashmaps] (contents : List Fragment) (w : Wallet) : Prop where
  orderNumber : w.orderNumber = contents.length
  bitLen : w.orders.bitLen = 16
  signed : w.signed = []
  made : w.orders.Made (numbered contents)

section

variable [TonHashmaps] [LawfulTonHashmaps]

theorem collected_start : Collected [] Wallet.start where
  orderNumber := rfl
  bitLen := LawfulTonHashmaps.withBitLen 16
  signed := rfl
  made := by
    rw [numbered_nil]
    exact .withBitLen 16

theorem Collected.get_eq {contents : List Fragment} {w : Wallet} (h : Collected contents w)
    {key : PySlice} (hkey : key.bits.length = 16) :
    ∃ found, PyDictionary.get w.orders key = .ok found ∧
      found.map SliceData.content = contents[value key.bits]? := by
  obtain ⟨found, hget, hfound⟩ :=
    LawfulTonHashmaps.get w.orders _ key h.made (by rw [h.bitLen]; decide)
      (hkey.trans h.bitLen.symm)
  rw [numbered, if_pos hkey] at hfound
  exact ⟨found, mapError_eq_ok_iff.mpr hget, hfound⟩

variable [NumBigint] [TonTypes] [LawfulNumBigint] [LawfulTonTypes]

omit [TonHashmaps] [LawfulTonHashmaps] in
theorem keyOf_eq {k : ℕ} (h : k < 2 ^ 16) :
    ∃ key : PySlice, keyOf k = .ok key ∧ key.bits = word 16 k := by
  have hfits := (TlB.within_uint 16 k).fits (by decide) (by decide)
  have hwrites : PyBuilder.BuilderWrites (PyBuilder.i 16 k) (TlB.uint 16 k) :=
    PyBuilder.i_writes_uint (by decide) (Int.natCast_nonneg k) (by exact_mod_cast h)
  obtain ⟨c, key, hc, hcreate, hcontent⟩ :=
    PyBuilder.create_finalize_eq (⟨TlB.uint 16 k, hfits⟩ : PyBuilder)
  refine ⟨key, ?_, congrArg Fragment.bits hcontent⟩
  rw [keyOf, PyBuilder.build_eq hwrites hfits, ok_bind, hc]
  exact hcreate

/-- The number of the next order is never taken, so it is added up to the limit. -/
theorem addOrder_collected {contents : List Fragment} {w : Wallet} (h : Collected contents w)
    {order : PySlice} (horder : order.bits.length = 8) (hle : contents.length ≤ 254) :
    ∃ w', (addOrder order).exec w = (.ok ⟨⟩, w') ∧
      Collected (contents ++ [order.content]) w' := by
  obtain ⟨key, hkeyOf, hkey⟩ := keyOf_eq (k := contents.length) (by omega)
  have hwidth : key.bits.length = 16 := by rw [hkey, length_word]
  -- only smaller numbers are taken
  have hfree : PyDictionary.get w.orders key = .ok none := by
    obtain ⟨found, hget, hfound⟩ := h.get_eq hwidth
    rw [hkey, value_word_of_lt (by omega), List.getElem?_eq_none le_rfl,
      Option.map_eq_none_iff] at hfound
    rw [hget, hfound]
  have hstores : w.orders.Stores key order := by
    rw [HashmapE.Stores, h.bitLen, horder]
    exact ⟨by decide, hwidth, by decide⟩
  obtain ⟨orders, hset, hbitLen⟩ := LawfulTonHashmaps.set w.orders _ key order h.made hstores
  have hadd : (PyDictionary.add key order).exec w.orders = (.ok ⟨⟩, orders) :=
    Mut.exec_mapErr_eq_ok_iff.mpr hset
  refine ⟨Wallet.next (Wallet.setOrders orders w), ?_, ?_⟩
  · rw [addOrder, Mut.exec_bind_ok (Mut.exec_get w), h.orderNumber, if_neg (by omega), hkeyOf,
      Mut.ofExcept_ok_bind, hfree, Mut.ofExcept_ok_bind, if_neg (by simp),
      Mut.exec_bind_ok (Mut.exec_zoom hadd)]
    rfl
  · refine ⟨?_, hbitLen.trans h.bitLen, h.signed, ?_⟩
    · rw [List.length_append]
      exact congrArg (· + 1) h.orderNumber
    · have hmade := h.made.set hstores hset
      rw [hkey, numbered_concat (by omega)] at hmade
      exact hmade

omit [LawfulTonHashmaps] [LawfulNumBigint] [LawfulTonTypes] in
theorem addOrder_raises {contents : List Fragment} {w : Wallet} (h : Collected contents w)
    (order : PySlice) (hlt : 254 < contents.length) : (addOrder order).Raises w := by
  refine ⟨.exception "more that 254 orders", ?_⟩
  rw [addOrder, Mut.exec_bind_ok (Mut.exec_get w), h.orderNumber, if_pos hlt]
  rfl

/-! ### The loop -/

variable [Python.Unicode]

/-- The loop goes on while the lines make orders and there is room. -/
theorem forM_processLine_collected (args : Args) (lines : List String) {contents : List Fragment}
    {w : Wallet} (h : Collected contents w) (hle : contents.length ≤ 255) :
    ∃ outcome w', (forM lines (processLine args)).exec w = (outcome, w') ∧
      Collected (contents ++
        ((ordersOf args lines).take (255 - contents.length)).map SliceData.content) w' ∧
      ((∃ e, outcome = .error e) ↔
        (ordersOf args lines).length < lines.length ∨ 255 < contents.length + lines.length) := by
  induction lines generalizing contents w with
  | nil =>
    refine ⟨.ok ⟨⟩, w, rfl, by simpa [ordersOf] using h, iff_of_false nofun ?_⟩
    simpa [ordersOf] using hle
  | cons line lines ih =>
    rw [List.forM_cons, processLine_eq_bind]
    cases horder : orderOf args line with
    | error e =>
      -- the line stops the loop before anything is added
      refine ⟨.error e, w, ?_, ?_, iff_of_true ⟨e, rfl⟩ (Or.inl ?_)⟩
      · rw [Mut.ofExcept_error_bind, Mut.ofExcept_error_bind, Mut.exec_ofExcept]
      · simpa [ordersOf, horder] using h
      · simp [ordersOf, horder]
    | ok order =>
      obtain ⟨mode, t, hmode, hcontent⟩ := content_orderOf horder
      have hbits : order.bits.length = 8 := by
        rw [← SliceData.content_bits, hcontent, Fragment.mul_bits, Fragment.ofRef_bits,
          List.append_nil]
        exact hmode.1
      rw [Mut.ofExcept_ok_bind]
      rcases Nat.lt_or_ge 254 contents.length with hfull | hroom
      · obtain ⟨e, hraise⟩ := addOrder_raises h order hfull
        refine ⟨.error e, w, Mut.exec_bind_error hraise, ?_, iff_of_true ⟨e, rfl⟩ (Or.inr ?_)⟩
        · rw [Nat.sub_eq_zero_of_le (by omega)]
          simpa using h
        · rw [List.length_cons]
          omega
      · obtain ⟨w₁, hadd, hw₁⟩ := addOrder_collected h hbits hroom
        have hlen : (contents ++ [order.content]).length = contents.length + 1 :=
          List.length_append
        obtain ⟨outcome, w', hloop, hw', hiff⟩ := ih hw₁ (by omega)
        refine ⟨outcome, w', (Mut.exec_bind_ok hadd).trans hloop, ?_, ?_⟩
        · have hsub : 255 - contents.length = (255 - (contents.length + 1)) + 1 := by
            omega
          rw [hlen, List.append_assoc] at hw'
          simpa [ordersOf, horder, hsub] using hw'
        · rw [hiff, hlen, ordersOf, horder, List.length_cons, List.length_cons]
          omega

end

end HighloadWallet

end EverPlayground
