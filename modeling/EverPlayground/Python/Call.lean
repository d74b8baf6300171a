import Mathlib.Data.List.Basic

/-!
# Nested call expressions

The fragment of Python's expressions that consists of calls of a name on one string
literal and further such calls, `f("…", g("…"), …)`, over any number of lines: blanks
and line ends between the parentheses separate nothing.

A text is read in two passes, into tokens and then into an expression. Either pass has a
rule for appending: what a piece of text contributes does not depend on what follows.

## Main definitions

* `Token`, `tokenize` — names, string literals without escapes, and punctuation
* `Call` — call expressions; `Call.tokens` is the token sequence of one
* `parse` — the expression a text spells, if it spells one

## Main results

* `Lexes.append` — the pieces of a text contribute their tokens one after the other
* `parse_eq_some` — a text that lexes to the tokens of a call is read as that call
-/

set_option autoImplicit false

namespace Python

inductive Token where
  | name (text : List Char)
  | literal (text : List Char)
  | leftParen
  | rightParen
  | comma

/-! ### Tokens -/

/-- What the tokenizer is in the middle of, with the characters read so far, last one
first. -/
inductive Mode where
  | idle
  | name (text : List Char)
  | literal (text : List Char)

def isNameChar (c : Char) : Bool := c.isAlphanum || c = '_'

/-- A name ends with the first character that cannot belong to it. -/
def Mode.flush : Mode → List Token
  | name text => [.name text.reverse]
  | _ => []

def Mode.extend (c : Char) : Mode → Mode
  | name text => .name (c :: text)
  | _ => .name [c]

/-- Punctuation and blanks. -/
def punctuation : Char → Option (List Token)
  | '(' => some [.leftParen]
  | ')' => some [.rightParen]
  | ',' => some [.comma]
  | ' ' => some []
  | '\n' => some []
  | _ => none

/-- A literal may not contain a backslash or a line end. -/
def tokenizeFrom : Mode → List Char → Option (List Token)
  | .literal _, [] => none
  | mode, [] => some mode.flush
  | .literal text, c :: cs =>
    if c = '"' then (tokenizeFrom .idle cs).map (.literal text.reverse :: ·)
    else if c = '\\' ∨ c = '\n' then none
    else tokenizeFrom (.literal (c :: text)) cs
  | mode, c :: cs =>
    if isNameChar c then tokenizeFrom (mode.extend c) cs
    else if c = '"' then (tokenizeFrom (.literal []) cs).map (mode.flush ++ ·)
    else (punctuation c).bind fun ts => (tokenizeFrom .idle cs).map (mode.flush ++ ts ++ ·)

def tokenize (cs : List Char) : Option (List Token) := tokenizeFrom .idle cs

/-- The text contributes the given tokens, whatever follows it. -/
def Lexes (text : List Char) (tokens : List Token) : Prop :=
  ∀ rest, tokenizeFrom .idle (text ++ rest) = (tokenizeFrom .idle rest).map (tokens ++ ·)

theorem Lexes.nil : Lexes [] [] := by
  intro rest
  simp

theorem Lexes.append {t u : List Char} {ts us : List Token} (ht : Lexes t ts) (hu : Lexes u us) :
    Lexes (t ++ u) (ts ++ us) := by
  intro rest
  rw [List.append_assoc, ht, hu, Option.map_map]
  congr 1
  funext tokens
  exact (List.append_assoc ts us tokens).symm

theorem Lexes.tokenize_eq {text : List Char} {tokens : List Token} (h : Lexes text tokens) :
    tokenize text = some tokens := by
  have hall := h []
  rw [List.append_nil] at hall
  rw [tokenize, hall]
  simp [tokenizeFrom, Mode.flush]

theorem lexes_punctuation {c : Char} {ts : List Token} (h : punctuation c = some ts) :
    Lexes [c] ts := by
  intro rest
  -- punctuation neither belongs to a name nor starts a literal
  have hname : isNameChar c = false := by
    unfold punctuation at h
    split at h <;> first | rfl | simp at h
  have hquote : c ≠ '"' := by
    rintro rfl
    simp [punctuation] at h
  rw [List.singleton_append, tokenizeFrom]
  · simp [hname, hquote, h, Mode.flush]
  · nofun

/-- A name is read up to the parenthesis that follows it. -/
theorem tokenizeFrom_name {text : List Char} (htext : ∀ c ∈ text, isNameChar c = true)
    (acc rest : List Char) :
    tokenizeFrom (.name acc) (text ++ '(' :: rest) =
      (tokenizeFrom .idle rest).map ([.name (acc.reverse ++ text), .leftParen] ++ ·) := by
  induction text generalizing acc with
  | nil =>
    simp [tokenizeFrom, isNameChar, punctuation, Mode.flush]
  | cons c text ih =>
    rw [List.cons_append, tokenizeFrom, if_pos (htext c List.mem_cons_self), Mode.extend,
      ih fun c' hc' => htext c' (List.mem_cons_of_mem c hc')]
    · simp
    · nofun

/-- A literal is read up to the quote that closes it. -/
theorem tokenizeFrom_literal {text : List Char}
    (htext : ∀ c ∈ text, c ≠ '"' ∧ c ≠ '\\' ∧ c ≠ '\n') (acc rest : List Char) :
    tokenizeFrom (.literal acc) (text ++ '"' :: rest) =
      (tokenizeFrom .idle rest).map (.literal (acc.reverse ++ text) :: ·) := by
  induction text generalizing acc with
  | nil => simp [tokenizeFrom]
  | cons c text ih =>
    -- no character of the literal closes it or is an escape
    obtain ⟨hquote, hslash, hline⟩ := htext c List.mem_cons_self
    rw [List.cons_append, tokenizeFrom, if_neg hquote, if_neg (by simp [hslash, hline]),
      ih fun c' hc' => htext c' (List.mem_cons_of_mem c hc')]
    simp

/-- The beginning of a call. -/
theorem lexes_head {name literal : List Char} (hne : name ≠ [])
    (hname : ∀ c ∈ name, isNameChar c = true)
    (hliteral : ∀ c ∈ literal, c ≠ '"' ∧ c ≠ '\\' ∧ c ≠ '\n') :
    Lexes (name ++ ['(', '"'] ++ literal ++ ['"'])
      [.name name, .leftParen, .literal literal] := by
  intro rest
  obtain ⟨c, cs, rfl⟩ := List.exists_cons_of_ne_nil hne
  have htext : (c :: cs) ++ ['(', '"'] ++ literal ++ ['"'] ++ rest =
      c :: (cs ++ '(' :: '"' :: (literal ++ '"' :: rest)) := by
    simp
  -- the first character starts the name, the quote starts the literal
  have hfirst : tokenizeFrom .idle (c :: (cs ++ '(' :: '"' :: (literal ++ '"' :: rest))) =
      tokenizeFrom (.name [c]) (cs ++ '(' :: '"' :: (literal ++ '"' :: rest)) := by
    rw [tokenizeFrom, if_pos (hname c List.mem_cons_self)]
    · rfl
    · nofun
  have hopen : tokenizeFrom .idle ('"' :: (literal ++ '"' :: rest)) =
      tokenizeFrom (.literal []) (literal ++ '"' :: rest) := by
    simp [tokenizeFrom, isNameChar, Mode.flush]
  rw [htext, hfirst, tokenizeFrom_name fun c' hc' => hname c' (List.mem_cons_of_mem c hc'),
    hopen, tokenizeFrom_literal hliteral, Option.map_map]
  rfl

/-! ### Expressions -/

/-- A call of a name on a string literal and on further calls. -/
inductive Call where
  | mk (name literal : List Char) (args : List Call)

mutual

def Call.tokens : Call → List Token
  | .mk name literal args =>
    .name name :: .leftParen :: .literal literal :: argsTokens args

/-- The arguments after the literal, and the closing parenthesis. -/
def argsTokens : List Call → List Token
  | [] => [.rightParen]
  | arg :: args => .comma :: (arg.tokens ++ argsTokens args)

end

mutual

/-- Recursive descent; the first argument bounds the depth. -/
def parseCall : ℕ → List Token → Option (Call × List Token)
  | n + 1, .name name :: .leftParen :: .literal literal :: ts =>
    (parseArgs n ts).map fun (args, rest) => (.mk name literal args, rest)
  | _, _ => none

def parseArgs : ℕ → List Token → Option (List Call × List Token)
  | _ + 1, .rightParen :: ts => some ([], ts)
  | n + 1, .comma :: ts =>
    (parseCall n ts).bind fun (arg, rest) =>
      (parseArgs n rest).map fun (args, rest) => (arg :: args, rest)
  | _, _ => none

end

/-- The call that a text spells; a call has more tokens than its syntax tree is deep. -/
def parse (text : List Char) : Option Call :=
  (tokenize text).bind fun ts =>
    match parseCall ts.length ts with
    | some (call, []) => some call
    | _ => none

mutual

theorem parseCall_tokens (call : Call) {n : ℕ} (h : call.tokens.length ≤ n)
    (rest : List Token) : parseCall n (call.tokens ++ rest) = some (call, rest) := by
  cases call with
  | mk name literal args =>
    rw [Call.tokens, List.length_cons] at h
    obtain ⟨n, rfl⟩ : ∃ m, n = m + 1 := ⟨n - 1, by omega⟩
    -- three tokens of the call are read before its arguments
    have hargs := parseArgs_tokens args (n := n) (by
      rw [List.length_cons, List.length_cons] at h
      omega) rest
    simp only [Call.tokens, List.cons_append, parseCall, hargs, Option.map_some]

theorem parseArgs_tokens (args : List Call) {n : ℕ} (h : (argsTokens args).length ≤ n)
    (rest : List Token) : parseArgs n (argsTokens args ++ rest) = some (args, rest) := by
  cases args with
  | nil =>
    rw [argsTokens, List.length_singleton] at h
    obtain ⟨n, rfl⟩ : ∃ m, n = m + 1 := ⟨n - 1, by omega⟩
    simp only [argsTokens, List.singleton_append, parseArgs]
  | cons arg args =>
    rw [argsTokens, List.length_cons, List.length_append] at h
    obtain ⟨n, rfl⟩ : ∃ m, n = m + 1 := ⟨n - 1, by omega⟩
    have harg := parseCall_tokens arg (n := n) (by omega) (argsTokens args ++ rest)
    have hargs := parseArgs_tokens args (n := n) (by omega) rest
    simp only [argsTokens, List.cons_append, List.append_assoc, parseArgs, harg,
      Option.bind_some, hargs, Option.map_some]

end

/-- A text that lexes to the tokens of a call is read as that call. -/
theorem parse_eq_some {text : List Char} {call : Call} (h : Lexes text call.tokens) :
    parse text = some call := by
  have hcall := parseCall_tokens call (Nat.le_refl _) []
  rw [List.append_nil] at hcall
  simp only [parse, h.tokenize_eq, Option.bind_some, hcall]

end Python
