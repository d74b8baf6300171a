import EverPlayground.Python.Int

/-!
# The grammar of integer literals

`int(text, base)` is a reader: it strips, looks for a sign and a prefix, and accumulates
digits. Here the texts it accepts are described by their parts, and the reader is shown to
accept exactly these. Decimal literals are left aside, since their length is limited.

## Main definitions

* `Numeral` — digits with single underscores between them
* `Literal` — a numeral behind a prefix and a sign, with blanks around it

## Main results

* `int_eq_some_iff` — the reader returns the number of a literal, and nothing else
-/

set_option autoImplicit false

namespace Python

/-! ### The grammar -/

/-- Digits, each of which may follow an underscore. -/
inductive MoreDigits (base : ℕ) : List Char → List ℕ → Prop
  | nil : MoreDigits base [] []
  | digit {c : Char} {cs : List Char} {value : ℕ} {values : List ℕ} :
      digitValue base c = some value → MoreDigits base cs values →
        MoreDigits base (c :: cs) (value :: values)
  | underscore {c : Char} {cs : List Char} {value : ℕ} {values : List ℕ} :
      digitValue base c = some value → MoreDigits base cs values →
        MoreDigits base ('_' :: c :: cs) (value :: values)

/-- A digit, and more digits. -/
inductive Numeral (base : ℕ) : List Char → List ℕ → Prop
  | mk {c : Char} {cs : List Char} {value : ℕ} {values : List ℕ} :
      digitValue base c = some value → MoreDigits base cs values →
        Numeral base (c :: cs) (value :: values)

/-- An optional sign, and whether it is a minus. -/
inductive SignText : List Char → Bool → Prop
  | none : SignText [] false
  | plus : SignText ['+'] false
  | minus : SignText ['-'] true

def prefixLetters (base : ℕ) : List Char :=
  if base = 16 then ['x', 'X'] else if base = 2 then ['b', 'B'] else []

/-- An optional prefix, which may end in an underscore. -/
inductive PrefixText (base : ℕ) : List Char → Prop
  | none : PrefixText base []
  | letter {c : Char} : c ∈ prefixLetters base → PrefixText base ['0', c]
  | underscore {c : Char} : c ∈ prefixLetters base → PrefixText base ['0', c, '_']

inductive Literal (base : ℕ) : List Char → Bool → List ℕ → Prop
  | mk {before sign pre digits after : List Char} {negative : Bool} {values : List ℕ} :
      (∀ c ∈ before, c = ' ') → SignText sign negative → PrefixText base pre →
        Numeral base digits values → (∀ c ∈ after, c = ' ') →
          Literal base (before ++ (sign ++ (pre ++ digits)) ++ after) negative values

/-! ### Digits -/

theorem readDigits_eq_some_iff {base acc n : ℕ} {cs : List Char} :
    readDigits base acc cs = some n ↔
      ∃ values, MoreDigits base cs values ∧
        n = values.foldl (fun acc value => acc * base + value) acc := by
  constructor
  · intro h
    fun_induction readDigits base acc cs with
    | case1 acc =>
      cases h
      exact ⟨[], .nil, rfl⟩
    | case2 acc c cs ih =>
      obtain ⟨value, hvalue, hread⟩ := Option.bind_eq_some_iff.mp h
      obtain ⟨values, hdigits, hn⟩ := ih value hread
      exact ⟨value :: values, .underscore hvalue hdigits, hn⟩
    | case3 acc c cs hsingle ih =>
      obtain ⟨value, hvalue, hread⟩ := Option.bind_eq_some_iff.mp h
      obtain ⟨values, hdigits, hn⟩ := ih value hread
      exact ⟨value :: values, .digit hvalue hdigits, hn⟩
  · rintro ⟨values, hdigits, rfl⟩
    induction hdigits generalizing acc with
    | nil => rfl
    | digit hvalue _ ih =>
      rw [readDigits_cons (ne_of_digitValue hvalue (digitValue_underscore base)), hvalue,
        Option.bind_some, ih, List.foldl_cons]
    | underscore hvalue _ ih => rw [readDigits, hvalue, Option.bind_some, ih, List.foldl_cons]

theorem readNumeral_eq_some_iff {base n : ℕ} {cs : List Char} :
    readNumeral base cs = some n ↔
      ∃ values, Numeral base cs values ∧ n = accumulate base values := by
  -- the first digit is the value accumulated before the others
  have haccumulate (value : ℕ) (values : List ℕ) : accumulate base (value :: values) =
      values.foldl (fun acc value => acc * base + value) value := by
    rw [accumulate, List.foldl_cons, Nat.zero_mul, Nat.zero_add]
  constructor
  · intro h
    cases cs with
    | nil => cases h
    | cons c cs =>
      obtain ⟨value, hvalue, hread⟩ := Option.bind_eq_some_iff.mp h
      obtain ⟨values, hdigits, hn⟩ := readDigits_eq_some_iff.mp hread
      exact ⟨value :: values, .mk hvalue hdigits, hn.trans (haccumulate value values).symm⟩
  · rintro ⟨values, hnumeral, rfl⟩
    obtain ⟨hvalue, hdigits⟩ := hnumeral
    rw [readNumeral, hvalue, Option.bind_some, haccumulate]
    exact readDigits_eq_some_iff.mpr ⟨_, hdigits, rfl⟩

theorem MoreDigits.mem {base : ℕ} {cs : List Char} {values : List ℕ}
    (h : MoreDigits base cs values) {c : Char} (hc : c ∈ cs) :
    c = '_' ∨ ∃ value, digitValue base c = some value := by
  induction h with
  | nil => exact absurd hc List.not_mem_nil
  | digit hvalue _ ih =>
    rcases List.mem_cons.mp hc with rfl | hc
    · exact Or.inr ⟨_, hvalue⟩
    · exact ih hc
  | underscore hvalue _ ih =>
    rcases List.mem_cons.mp hc with rfl | hc
    · exact Or.inl rfl
    rcases List.mem_cons.mp hc with rfl | hc
    · exact Or.inr ⟨_, hvalue⟩
    · exact ih hc

theorem Numeral.mem {base : ℕ} {cs : List Char} {values : List ℕ} (h : Numeral base cs values)
    {c : Char} (hc : c ∈ cs) : c = '_' ∨ ∃ value, digitValue base c = some value := by
  obtain ⟨hvalue, hdigits⟩ := h
  rcases List.mem_cons.mp hc with rfl | hc
  · exact Or.inr ⟨_, hvalue⟩
  · exact hdigits.mem hc

/-- A character that is neither a digit nor an underscore does not occur. -/
theorem Numeral.ne {base : ℕ} {cs : List Char} {values : List ℕ} (h : Numeral base cs values)
    {d : Char} (hd : digitValue base d = none) (hunderscore : d ≠ '_') : ∀ c ∈ cs, c ≠ d := by
  intro c hc
  rcases h.mem hc with rfl | ⟨value, hvalue⟩
  · exact hunderscore.symm
  · exact ne_of_digitValue hvalue hd

/-- The letter of a prefix is no part of a numeral and no blank. -/
theorem digitValue_prefixLetter {base : ℕ} {c : Char} (h : c ∈ prefixLetters base) :
    digitValue base c = none ∧ c ≠ '_' ∧ c ≠ ' ' := by
  unfold prefixLetters at h
  split_ifs at h with hhex hbin
  · subst hhex
    rcases List.mem_pair.mp h with rfl | rfl <;> decide
  · subst hbin
    rcases List.mem_pair.mp h with rfl | rfl <;> decide
  · exact absurd h List.not_mem_nil

/-! ### Prefix and sign -/

theorem dropPrefix_cases (lower upper : Char) (cs : List Char) :
    dropPrefix lower upper cs = cs ∨ ∃ c, (c = lower ∨ c = upper) ∧
      (cs = '0' :: c :: dropPrefix lower upper cs ∨
        cs = '0' :: c :: '_' :: dropPrefix lower upper cs) := by
  unfold dropPrefix
  split
  · split_ifs with hletter
    · refine Or.inr ⟨_, hletter, ?_⟩
      split
      · exact Or.inr rfl
      · exact Or.inl rfl
    · exact Or.inl rfl
  · exact Or.inl rfl

theorem dropPrefix_letter {lower upper c d : Char} {cs : List Char} (hc : c = lower ∨ c = upper)
    (hd : d ≠ '_') : dropPrefix lower upper ('0' :: c :: d :: cs) = d :: cs := by
  simp only [dropPrefix, if_pos hc]
  split
  · next heq => exact absurd (List.cons.inj heq).1 hd
  · rfl

theorem dropPrefix_underscore {lower upper c : Char} {cs : List Char}
    (hc : c = lower ∨ c = upper) : dropPrefix lower upper ('0' :: c :: '_' :: cs) = cs := by
  simp only [dropPrefix, if_pos hc]

/-- What the reader drops is a prefix. -/
theorem dropBasePrefix_spec (base : ℕ) (cs : List Char) :
    ∃ pre, PrefixText base pre ∧ cs = pre ++ dropBasePrefix base cs := by
  -- the two letters of a base that has any
  have hletters : ∀ lower upper, prefixLetters base = [lower, upper] →
      ∃ pre, PrefixText base pre ∧ cs = pre ++ dropPrefix lower upper cs := by
    intro lower upper hbase
    have hmem : ∀ c, c = lower ∨ c = upper → c ∈ prefixLetters base := by
      intro c hc
      rw [hbase]
      exact List.mem_pair.mpr hc
    rcases dropPrefix_cases lower upper cs with heq | ⟨c, hc, heq | heq⟩
    · exact ⟨[], .none, heq.symm⟩
    · exact ⟨_, .letter (hmem c hc), heq⟩
    · exact ⟨_, .underscore (hmem c hc), heq⟩
  unfold dropBasePrefix
  split_ifs with hhex hbin
  · exact hletters _ _ (if_pos hhex)
  · exact hletters _ _ ((if_neg hhex).trans (if_pos hbin))
  · exact ⟨[], .none, rfl⟩

/-- A prefix is dropped, and nothing of the numeral behind it. -/
theorem dropBasePrefix_append {base : ℕ} {pre digits : List Char} {values : List ℕ}
    (hpre : PrefixText base pre) (hdigits : Numeral base digits values) :
    dropBasePrefix base (pre ++ digits) = digits := by
  have hletters : ∀ lower upper, prefixLetters base = [lower, upper] →
      dropPrefix lower upper (pre ++ digits) = digits := by
    intro lower upper hbase
    have hletter : ∀ c, c ∈ prefixLetters base → c = lower ∨ c = upper := by
      intro c hc
      rw [hbase] at hc
      exact List.mem_pair.mp hc
    cases hpre with
    | none =>
      refine dropPrefix_eq fun c hc => ⟨?_, ?_⟩
      · have hlower := digitValue_prefixLetter (c := lower) (hbase ▸ List.mem_cons_self)
        exact hdigits.ne hlower.1 hlower.2.1 c hc
      · have hupper := digitValue_prefixLetter (c := upper)
          (hbase ▸ List.mem_cons_of_mem _ List.mem_cons_self)
        exact hdigits.ne hupper.1 hupper.2.1 c hc
    | letter hc =>
      obtain ⟨hvalue, -⟩ := hdigits
      exact dropPrefix_letter (hletter _ hc)
        (ne_of_digitValue hvalue (digitValue_underscore base))
    | underscore hc => exact dropPrefix_underscore (hletter _ hc)
  unfold dropBasePrefix
  split_ifs with hhex hbin
  · exact hletters _ _ (if_pos hhex)
  · exact hletters _ _ ((if_neg hhex).trans (if_pos hbin))
  · -- a base without letters has no prefix
    have hnone : prefixLetters base = [] := (if_neg hhex).trans (if_neg hbin)
    cases hpre with
    | none => rfl
    | letter hc => exact absurd (hnone ▸ hc) List.not_mem_nil
    | underscore hc => exact absurd (hnone ▸ hc) List.not_mem_nil

theorem readSign_spec (cs : List Char) :
    ∃ sign, SignText sign (readSign cs).1 ∧ cs = sign ++ (readSign cs).2 := by
  unfold readSign
  split
  · exact ⟨_, .minus, rfl⟩
  · exact ⟨_, .plus, rfl⟩
  · exact ⟨_, .none, rfl⟩

theorem readSign_append {sign cs : List Char} {negative : Bool} (h : SignText sign negative)
    (hhead : ∀ c ∈ cs.head?, c ≠ '-' ∧ c ≠ '+') : readSign (sign ++ cs) = (negative, cs) := by
  cases h with
  | plus => rfl
  | minus => rfl
  | none =>
    rw [List.nil_append]
    unfold readSign
    split
    · exact absurd rfl (hhead '-' rfl).1
    · exact absurd rfl (hhead '+' rfl).2
    · rfl

/-- Behind the sign stands a digit. -/
theorem PrefixText.head {base : ℕ} {pre digits : List Char} {values : List ℕ}
    (hpre : PrefixText base pre) (hdigits : Numeral base digits values) :
    ∀ c ∈ (pre ++ digits).head?, c ≠ '-' ∧ c ≠ '+' := by
  intro c hc
  cases hpre with
  | none =>
    obtain ⟨hvalue, -⟩ := hdigits
    cases hc
    exact ⟨ne_of_digitValue hvalue (by simp [digitValue]),
      ne_of_digitValue hvalue (by simp [digitValue])⟩
  | letter =>
    cases hc
    decide
  | underscore =>
    cases hc
    decide

/-! ### Blanks -/

theorem strip_spec (cs : List Char) :
    ∃ before after, (∀ c ∈ before, c = ' ') ∧ (∀ c ∈ after, c = ' ') ∧
      cs = before ++ strip cs ++ after := by
  refine ⟨cs.takeWhile (· == ' '), (cs.dropWhile (· == ' ')).rtakeWhile (· == ' '),
    fun c hc => ?_, fun c hc => ?_, ?_⟩
  · simpa using List.mem_takeWhile_imp hc
  · simpa using List.mem_rtakeWhile_imp hc
  · rw [strip, List.append_assoc, List.rdropWhile_append_rtakeWhile,
      List.takeWhile_append_dropWhile]

theorem SignText.ne_blank {sign : List Char} {negative : Bool} (h : SignText sign negative) :
    ∀ c ∈ sign, c ≠ ' ' := by
  cases h with
  | none => exact nofun
  | plus => exact List.forall_mem_singleton.mpr (by decide)
  | minus => exact List.forall_mem_singleton.mpr (by decide)

theorem PrefixText.ne_blank {base : ℕ} {pre : List Char} (h : PrefixText base pre) :
    ∀ c ∈ pre, c ≠ ' ' := by
  have hzero : '0' ≠ ' ' := by decide
  have hunderscore : '_' ≠ ' ' := by decide
  cases h with
  | none => exact nofun
  | letter hletter => simp [hzero, (digitValue_prefixLetter hletter).2.2]
  | underscore hletter => simp [hzero, hunderscore, (digitValue_prefixLetter hletter).2.2]

theorem strip_append {before core after : List Char} (hbefore : ∀ c ∈ before, c = ' ')
    (hafter : ∀ c ∈ after, c = ' ') (hcore : ∀ c ∈ core, c ≠ ' ') (hne : core ≠ []) :
    strip (before ++ core ++ after) = core := by
  have hfront : (before ++ core ++ after).dropWhile (· == ' ') = core ++ after := by
    obtain ⟨c, cs, rfl⟩ := List.exists_cons_of_ne_nil hne
    have hc := hcore c List.mem_cons_self
    rw [List.append_assoc, List.dropWhile_append_of_pos (by simpa using hbefore),
      List.cons_append, List.dropWhile_cons_of_neg (by simpa using hc)]
  -- from the other end the same happens in reverse
  have hback : (core ++ after).reverse.dropWhile (· == ' ') = core.reverse := by
    have hcore' : core.reverse.dropWhile (· == ' ') = core.reverse := by
      rw [List.dropWhile_eq_self_iff]
      intro hlen
      simpa using hcore _ (List.mem_reverse.mp (List.getElem_mem hlen))
    rw [List.reverse_append, List.dropWhile_append_of_pos (by simpa using hafter), hcore']
  rw [strip, hfront, List.rdropWhile, hback, List.reverse_reverse]

/-! ### The reader -/

section

variable [Unicode]

/-- The signed number that digits denote. -/
def signedNumber (base : ℕ) (negative : Bool) (values : List ℕ) : ℤ :=
  if negative then -(accumulate base values : ℤ) else accumulate base values

/-- The reader returns the number of a literal, and nothing else. -/
theorem int_eq_some_iff {base : ℕ} (hbase : base ≠ 10) {text : List Char} {n : ℤ} :
    int base text = some n ↔ ∃ negative values,
      Literal base (text.map toAscii) negative values ∧ n = signedNumber base negative values := by
  have hlimit : ∀ cs : List Char,
      ¬ (base = 10 ∧ maxStrDigits < (cs.filter (· != '_')).length) := fun _ h => hbase h.1
  unfold int
  simp only [hlimit, if_false]
  constructor
  · intro h
    obtain ⟨value, hread, hn⟩ := Option.map_eq_some_iff.mp h
    obtain ⟨values, hdigits, rfl⟩ := readNumeral_eq_some_iff.mp hread
    -- the parts that were taken off, from the outside in
    obtain ⟨before, after, hbefore, hafter, hstrip⟩ := strip_spec (text.map toAscii)
    obtain ⟨sign, hsign, hcore⟩ := readSign_spec (strip (text.map toAscii))
    obtain ⟨pre, hpre, hunsigned⟩ :=
      dropBasePrefix_spec base (readSign (strip (text.map toAscii))).2
    have hliteral := Literal.mk hbefore hsign hpre hdigits hafter
    rw [← hunsigned, ← hcore, ← hstrip] at hliteral
    exact ⟨_, values, hliteral, hn.symm⟩
  · rintro ⟨negative, values, hliteral, rfl⟩
    generalize text.map toAscii = cs at hliteral
    obtain @⟨before, sign, pre, digits, after, _, _, hbefore, hsign, hpre, hdigits, hafter⟩ :=
      hliteral
    have hblank : ∀ c ∈ sign ++ (pre ++ digits), c ≠ ' ' := by
      intro c hc
      rcases List.mem_append.mp hc with hc | hc
      · exact hsign.ne_blank c hc
      rcases List.mem_append.mp hc with hc | hc
      · exact hpre.ne_blank c hc
      · exact hdigits.ne (by simp [digitValue]) (by decide) c hc
    have hne : sign ++ (pre ++ digits) ≠ [] := by
      obtain ⟨-, -⟩ := hdigits
      simp
    rw [strip_append hbefore hafter hblank hne, readSign_append hsign (hpre.head hdigits),
      dropBasePrefix_append hpre hdigits, readNumeral_eq_some_iff.mpr ⟨values, hdigits, rfl⟩]
    rfl

end

end Python
