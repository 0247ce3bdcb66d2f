/-
  Repeater/Proofs/Hook/Integers.lean
  ==================================
  **Which integers hook code can write.**

  An integer in hook code is written in its decimal form. Sign and digits are read apart, and the
  digits have to fit in a signed word before the sign is looked at. The decimal form of an integer
  is therefore read as this integer, as one token, exactly if its absolute value fits in a signed
  word; anything else is out of range, and the fault is reported where the form starts
  (`lex_decimal`). Of the integers that fit in a signed word this leaves out one, the least of them
  (`fits_iff`).

  The terms of a compiled program come from its tokens, so every integer among them fits in a
  signed word (`inWord_of_compile`).
-/
import Repeater.Proofs.Hook.Grammar
import Repeater.Proofs.Hook.Places

namespace Repeater.Hook

open Text

variable {after before rest : List Char} {c : Char} {tokens : List Token} {m : Nat} {n : Int}

/-! ## Digits -/

theorem run_digits (m : Nat) (hafter : ∀ c ∈ after.head?, c.isDigit = false) :
    Run Char.isDigit (digits m) after := ⟨fun _ => isDigit_of_mem_digits, hafter⟩

theorem number_digits (hafter : ∀ c ∈ after.head?, c.isDigit = false)
    (hfits : m < 0x8000000000000000) : Number (digits m) m after :=
  ⟨run_digits m hafter, ofDigits?_digits m, hfits⟩

theorem readDigits_digits_error (hlarge : ¬ m < 0x8000000000000000) :
    readDigits (digits m) = .error .integerOutOfRange := by
  rcases hread : readDigits (digits m) with fault | i
  · unfold readDigits at hread
    rw [ofDigits?_digits] at hread
    dsimp only at hread
    split at hread <;> cases hread
    rfl
  · obtain ⟨k, hvalue, hfits, -⟩ := readDigits_eq.1 hread
    rw [ofDigits?_digits] at hvalue
    cases hvalue
    exact absurd hfits hlarge

/-- What the first digit of a number that is not followed by one is, and what is read from it. -/
theorem digits_cons (m : Nat) (hafter : ∀ c ∈ after.head?, c.isDigit = false) :
    ∃ c rest, digits m ++ after = c :: rest ∧ c.isDigit ∧
      c :: rest.takeWhile Char.isDigit = digits m := by
  obtain ⟨htake, -⟩ := run_iff.1 ⟨rfl, run_digits m hafter⟩
  have hne : digits m ≠ [] := Nat.toDigits_ne_nil
  obtain ⟨c, ds, hdigits⟩ := List.exists_cons_of_ne_nil hne
  have hmem : c ∈ digits m := hdigits ▸ List.mem_cons_self
  have hc := isDigit_of_mem_digits hmem
  refine ⟨c, ds ++ after, by rw [hdigits, List.cons_append], hc, ?_⟩
  rw [hdigits, List.cons_append, List.takeWhile_cons_of_pos hc] at htake
  rw [htake, hdigits]

/-! ## Decimal forms -/

/-- The decimal form of an integer with an absolute value that fits is one token. -/
theorem lexeme_decimal (hafter : ∀ c ∈ after.head?, c.isDigit = false)
    (hfits : n.natAbs < 0x8000000000000000) : Lexeme after (decimal n) (.int n) := by
  have hnumber := number_digits hafter hfits
  unfold decimal
  split
  · next hneg =>
    have hvalue : n = -(n.natAbs : Int) := by omega
    have hlexeme := Lexeme.negative hnumber
    rwa [← hvalue] at hlexeme
  · next hneg =>
    have hvalue : n = (n.natAbs : Int) := by omega
    have hlexeme := Lexeme.int hnumber
    rwa [← hvalue] at hlexeme

/-- No other decimal form is a token at all. -/
theorem scan_decimal_error (hafter : ∀ c ∈ after.head?, c.isDigit = false)
    (hlarge : ¬ n.natAbs < 0x8000000000000000) :
    ∃ c rest, decimal n ++ after = c :: rest ∧
      Token.scan c rest = .error .integerOutOfRange := by
  obtain ⟨c, rest, hcode, hc, hread⟩ := digits_cons n.natAbs hafter
  have herror := readDigits_digits_error hlarge
  unfold decimal
  split
  · refine ⟨'-', c :: rest, by rw [List.cons_append, hcode], ?_⟩
    rw [scan_minus hc, hread, herror]
    rfl
  · refine ⟨c, rest, hcode, ?_⟩
    rw [scan_digit hc, hread, herror]
    rfl

/-- The absolute value of every integer that fits in a signed word fits too, but for the least. -/
theorem fits_iff :
    n.natAbs < 0x8000000000000000 ↔ inWord n = true ∧ n ≠ -0x8000000000000000 := by
  unfold inWord
  rw [Bool.and_eq_true, decide_eq_true_iff, decide_eq_true_iff]
  omega

/-- The lexer at a place where the decimal form of an integer stands. -/
theorem lexFrom_decimal (hafter : ∀ c ∈ after.head?, c.isDigit = false) (n : Int)
    (offset : Nat) : lexFrom offset (decimal n ++ after) =
      if inWord n = true ∧ n ≠ -0x8000000000000000 then
        (lexFrom (offset + byteCount (decimal n)) after).map (⟨.int n, offset⟩ :: ·)
      else .error (.hookSyntax offset .integerOutOfRange) := by
  split
  · next hword =>
    have hpiece : Piece after (decimal n) (some (.int n)) :=
      lexeme_decimal hafter (fits_iff.2 hword)
    exact lexFrom_piece hpiece offset
  · next hword =>
    obtain ⟨c, rest, hcode, hscan⟩ := scan_decimal_error hafter (mt fits_iff.1 hword)
    rw [hcode, lexFrom_fault hscan]

/-- The decimal form of an integer alone is read as the one token of this integer, and behind
    other tokens it is read as the next one, provided that the integer fits in a signed word and is
    not the least that does. All others are out of range, and the fault is reported at the byte at
    which the form starts. -/
theorem lex_decimal (n : Int) :
    (lex (decimal n) =
      if inWord n = true ∧ n ≠ -0x8000000000000000 then .ok [⟨.int n, 0⟩]
      else .error (.hookSyntax 0 .integerOutOfRange)) ∧
    ∀ (before after : List Char) (tokens : List Token), Leads (decimal n ++ after) before tokens →
      (∀ c ∈ after.head?, c.isDigit = false) →
      ∃ placed, placed.map (·.token) = tokens ∧ lex (before ++ (decimal n ++ after)) =
        if inWord n = true ∧ n ≠ -0x8000000000000000 then
          (lexFrom (byteCount (before ++ decimal n)) after).map
            fun more => placed ++ ⟨.int n, byteCount before⟩ :: more
        else .error (.hookSyntax (byteCount before) .integerOutOfRange) := by
  constructor
  · have hread : lexFrom 0 (decimal n ++ []) = _ := lexFrom_decimal (by simp) n 0
    rw [List.append_nil] at hread
    rw [lex, hread, lexFrom]
    rfl
  · intro before after tokens hbefore hafter
    obtain ⟨placed, htokens, hlex⟩ := hbefore.lex
    refine ⟨placed, htokens, ?_⟩
    rw [hlex, lexFrom_decimal hafter]
    split
    · rw [byteCount_append]
      cases lexFrom (byteCount before + byteCount (decimal n)) after <;> rfl
    · rfl

/-- In the call of a method the least integer of a word is out of range, at the byte at which it
    starts, though it is one that fits. -/
theorem lex_decimal_least :
    inWord (-0x8000000000000000) = true ∧
      Leads (decimal (-0x8000000000000000) ++ [')']) ['f', '('] [.name "f", .leftParen] ∧
      (∀ c ∈ [')'].head?, c.isDigit = false) ∧
      lex (['f', '('] ++ (decimal (-0x8000000000000000) ++ [')'])) =
        .error (.hookSyntax 2 .integerOutOfRange) := by
  have hleads : Leads (decimal (-0x8000000000000000) ++ [')']) ['f', '(']
      [.name "f", .leftParen] := by
    refine ⟨[], ['f', '('], rfl, .nil, ?_⟩
    have hname : Lexeme ([] ++ (['('] ++ (decimal (-0x8000000000000000) ++ [')']))) ['f']
        (.name "f") := .name (by decide) ⟨by simp, by simp; decide⟩
    have hparen : Lexeme ([] ++ ([] ++ (decimal (-0x8000000000000000) ++ [')']))) ['(']
        .leftParen := .sign rfl
    exact .cons hname .nil (.cons hparen .nil .nil)
  have hafter : ∀ c ∈ [')'].head?, c.isDigit = false := by simp
  obtain ⟨_, -, hlex⟩ := (lex_decimal (-0x8000000000000000)).2 _ _ _ hleads hafter
  exact ⟨by decide, hleads, hafter, hlex⟩

/-! ## Integers of programs -/

section programs

variable {parameters : List String} {ts : List Token} {x : Term} {xs : List Term}
  {e : Expression} {s : Statement}

/-- The terms of a sum, in order. -/
def Expression.terms (e : Expression) : List Term := e.first :: e.others

theorem eq_int_of_termOf {t : Token} (h : TermOf parameters t (.int n)) : t = .int n := by
  cases h
  rfl

theorem mem_of_othersOf (h : OthersOf parameters ts xs) (hn : .int n ∈ xs) : .int n ∈ ts := by
  induction h with
  | nil => cases hn
  | cons hterm _ ih =>
    rcases List.mem_cons.1 hn with rfl | hn
    · simp [eq_int_of_termOf hterm]
    · simp [ih hn]

/-- An integer among the terms of a sum is one of the tokens that spell it. -/
theorem mem_of_expressionOf (h : ExpressionOf parameters ts e) (hn : .int n ∈ e.terms) :
    .int n ∈ ts := by
  obtain ⟨hterm, hothers⟩ := h
  rcases List.mem_cons.1 hn with rfl | hn
  · simp [eq_int_of_termOf hterm]
  · simp [mem_of_othersOf hothers hn]

theorem inWord_of_lexeme {written : List Char} (h : Lexeme after written (.int n)) :
    inWord n = true := by
  generalize htoken : Token.int n = token at h
  cases h with
  | sign hsign => exact absurd (htoken ▸ hsign) (sign?_ne_int _ _)
  | text => cases htoken
  | int hnumber =>
    cases htoken
    have hfits := hnumber.fits
    exact (fits_iff.1 (by omega)).1
  | negative hnumber =>
    cases htoken
    have hfits := hnumber.fits
    exact (fits_iff.1 (by omega)).1
  | name => cases htoken

theorem inWord_of_spells {code : List Char} (h : Spells code tokens) (hn : .int n ∈ tokens) :
    inWord n = true := by
  induction h with
  | nil => cases hn
  | skip _ _ ih => exact ih hn
  | token hlexeme _ ih =>
    rcases List.mem_cons.1 hn with rfl | hn
    · exact inWord_of_lexeme hlexeme
    · exact ih hn

/-- Every integer among the terms of a compiled program fits in a signed word. -/
theorem inWord_of_compile {code : String} {program : Program}
    (h : compile code parameters = .ok program) (hs : s ∈ program.statements)
    (he : e ∈ s.arguments) (hn : .int n ∈ e.terms) : inWord n = true := by
  obtain ⟨-, tokens, statements, hspells, hprogram, rfl⟩ := spells_of_compile h
  obtain ⟨used, hused, hstatement⟩ := hprogram.part hs
  obtain ⟨inside, hinside, hexpression⟩ := hstatement.part he
  exact inWord_of_spells hspells (hused (hinside (mem_of_expressionOf hexpression hn)))

end programs

end Repeater.Hook
