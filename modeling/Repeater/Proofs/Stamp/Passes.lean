/-
  Repeater/Proofs/Stamp/Passes.lean
  =================================
  **Passes over one value, one after the other.**

  Substituting the tokens of a scope is a pass over the value that has a number for what stands
  between some double braces and keeps the others (`sweep`). What a first pass writes is digits, and
  no token that a second pass looks for holds a digit: the second pass meets the tokens that the
  first one has kept, where they stood, and no others. Two passes are therefore one pass with the
  numbers of both, in which the first comes first (`sweep_sweep`).

  So substituting again changes nothing, with any counter (`substitute_idem`), and two scopes that
  are told apart by the tokens in the value may substitute theirs in any order (`substitute_comm`).
-/
import Repeater.Proofs.Stamp.Substitution

namespace Repeater.Stamp

open Text

variable {scope : String} {counter : Nat} {kind : TokenKind} {f g : List Char → Option Int}
  {inner inner' after rest rest' cs : List Char} {c : Char} {n : Int}

/-! ## Passes -/

/-- The value with what stands between double braces replaced where there is a number for it, in one
    pass from left to right; double braces that open something else are kept, and the pass goes on
    right after them. -/
def sweep (number? : List Char → Option Int) (cs : List Char) : List Char :=
  match cs with
  | [] => []
  | '{' :: '{' :: after =>
    match h : splitClosing? after with
    | none => '{' :: '{' :: after
    | some (inner, rest) =>
      match number? inner with
      | some n =>
        have : rest.length < after.length := length_splitClosing h
        decimal n ++ sweep number? rest
      | none => '{' :: '{' :: sweep number? after
  | c :: rest => c :: sweep number? rest
termination_by cs.length

theorem sweep_unclosed (h : splitClosing? after = none) :
    sweep f ('{' :: '{' :: after) = '{' :: '{' :: after := by
  rw [sweep]
  split
  · rfl
  · next hclosing => cases h.symm.trans hclosing

theorem sweep_token (h : splitClosing? after = some (inner, rest)) (hn : f inner = some n) :
    sweep f ('{' :: '{' :: after) = decimal n ++ sweep f rest := by
  rw [sweep]
  split
  · next hclosing => cases h.symm.trans hclosing
  · next hclosing =>
    cases h.symm.trans hclosing
    rw [hn]

theorem sweep_other (h : splitClosing? after = some (inner, rest)) (hnone : f inner = none) :
    sweep f ('{' :: '{' :: after) = '{' :: '{' :: sweep f after := by
  rw [sweep]
  split
  · next hclosing => cases h.symm.trans hclosing
  · next hclosing =>
    cases h.symm.trans hclosing
    rw [hnone]

theorem sweep_kept (h : ∀ after, c = '{' → cs = '{' :: after → False) :
    sweep f (c :: cs) = c :: sweep f cs := by
  rw [sweep]
  exact h

/-- The number for what stands between the braces, if this is a token for the scope. -/
def numberFor (scope : String) (counter : Nat) (inner : List Char) : Option Int :=
  ((Token.ofInner? inner).filter (·.isFor scope)).map (·.kind.resolve counter)

theorem substituteChars_eq_sweep (scope : String) (counter : Nat) (cs : List Char) :
    substituteChars scope counter cs = sweep (numberFor scope counter) cs := by
  fun_induction substituteChars scope counter cs with
  | case1 => rw [sweep]
  | case2 after hclosing => rw [sweep_unclosed hclosing]
  | case3 after inner rest hclosing token htoken _ ih =>
    rw [sweep_token hclosing (by rw [numberFor, htoken]; rfl), ih]
  | case4 after inner rest hclosing htoken ih =>
    rw [sweep_other hclosing (by rw [numberFor, htoken]; rfl), ih]
  | case5 c rest hother ih => rw [sweep_kept hother, ih]

/-! ## Closing braces -/

theorem splitClosing?_eq_none : splitClosing? cs = none ↔ ¬ ['}', '}'] <:+: cs := by
  constructor
  · exact closing_not_infix
  intro h
  rcases hclosing : splitClosing? cs with _ | ⟨inner, rest⟩
  · rfl
  · exact absurd ⟨inner, rest, by simp [eq_of_splitClosing hclosing]⟩ h

theorem splitClosing?_cons (h : ∀ after, c = '}' → cs = '}' :: after → False) :
    splitClosing? (c :: cs) =
      (splitClosing? cs).map fun (inner, after) => (c :: inner, after) := by
  rw [splitClosing?]
  exact h

/-- A stretch without closing braces comes before what closes. -/
theorem splitClosing?_plain (h : '}' ∉ inner) (cs : List Char) :
    splitClosing? (inner ++ cs) =
      (splitClosing? cs).map fun (inner', after) => (inner ++ inner', after) := by
  induction inner with
  | nil => simp
  | cons c rest ih =>
    rw [List.mem_cons, not_or] at h
    rw [List.cons_append, splitClosing?_cons, ih h.2, Option.map_map]
    · rfl
    · rintro _ rfl
      exact absurd rfl h.1

theorem infix_of_closing (h : splitClosing? after = some (inner, rest)) :
    '{' :: '{' :: (inner ++ ['}', '}']) <:+: '{' :: '{' :: after :=
  ⟨[], rest, by simp [eq_of_splitClosing h]⟩

/-! ## What a pass writes -/

/-- What is written for a number has no braces, and a digit in it. -/
theorem exists_digit_decimal (n : Int) : ∃ c ∈ decimal n, c.isDigit = true := by
  obtain ⟨c, hc⟩ := List.exists_mem_of_ne_nil (digits n.natAbs) Nat.toDigits_ne_nil
  refine ⟨c, ?_, isDigit_of_mem_digits hc⟩
  unfold decimal
  split
  · exact List.mem_cons_of_mem _ hc
  · exact hc

/-- A stretch without opening braces is kept. -/
theorem sweep_append (h : '{' ∉ inner) (cs : List Char) :
    sweep f (inner ++ cs) = inner ++ sweep f cs := by
  induction inner with
  | nil => rfl
  | cons c rest ih =>
    rw [List.mem_cons, not_or] at h
    rw [List.cons_append, sweep_kept, ih h.2, List.cons_append]
    rintro _ rfl
    exact absurd rfl h.1

/-- Without closing braces no token is left. -/
theorem sweep_of_unclosed (h : splitClosing? cs = none) : sweep f cs = cs := by
  rw [splitClosing?_eq_none] at h
  fun_induction sweep f cs with
  | case1 => rfl
  | case2 => rfl
  | case3 after inner rest hclosing _ _ _ _ | case4 after inner rest hclosing _ _ =>
    refine absurd (List.IsInfix.trans ?_ (List.suffix_append ['{', '{'] after).isInfix) h
    rw [eq_of_splitClosing hclosing]
    exact ⟨inner, rest, by simp⟩
  | case5 c rest _ ih =>
    rw [ih fun hrest => h (hrest.trans (List.suffix_cons c rest).isInfix)]

/-- A pass writes no braces: one that comes first has come first before. -/
theorem head_of_sweep (h : sweep f cs = c :: after) (hc : c = '{' ∨ c = '}') :
    ∃ rest, cs = c :: rest := by
  fun_cases sweep f cs with
  | case1 => simp [sweep] at h
  | case2 rest hclosing =>
    rw [sweep_unclosed hclosing] at h
    exact ⟨after, h⟩
  | case3 rest inner tail hclosing n hn _ =>
    rw [sweep_token hclosing hn] at h
    obtain ⟨d, hd, -⟩ := exists_digit_decimal n
    obtain ⟨e, digits, hdecimal⟩ := List.exists_cons_of_ne_nil (List.ne_nil_of_mem hd)
    have hplain := brace_not_mem_decimal n
    rw [hdecimal, List.cons_append, List.cons.injEq] at h
    rw [hdecimal, h.1] at hplain
    rcases hc with rfl | rfl <;> simp at hplain
  | case4 rest inner tail hclosing hnone =>
    rw [sweep_other hclosing hnone, List.cons.injEq] at h
    exact ⟨'{' :: rest, by rw [h.1]⟩
  | case5 d rest hother =>
    rw [sweep_kept hother, List.cons.injEq] at h
    exact ⟨rest, by rw [h.1]⟩

/-- What closes after a first pass has closed before, or a number has come in front of it. -/
theorem closing_sweep (h : splitClosing? (sweep f cs) = some (inner', rest')) :
    (∃ rest, splitClosing? cs = some (inner', rest)) ∨ ∃ c ∈ inner', c.isDigit = true := by
  fun_induction sweep f cs generalizing inner' rest' with
  | case1 => simp [splitClosing?] at h
  | case2 => exact .inl ⟨rest', h⟩
  | case3 after inner rest hclosing n _ _ _ =>
    rw [splitClosing?_plain (brace_not_mem_decimal n).2] at h
    obtain ⟨⟨inner'', rest''⟩, -, ⟨⟩⟩ := Option.map_eq_some_iff.1 h
    obtain ⟨c, hc, hdigit⟩ := exists_digit_decimal n
    exact .inr ⟨c, List.mem_append_left _ hc, hdigit⟩
  | case4 after inner rest _ _ ih =>
    have hplain : '}' ∉ ['{', '{'] := by decide
    have hopen : ∀ cs, splitClosing? ('{' :: '{' :: cs) = _ := splitClosing?_plain hplain
    rw [hopen] at h
    obtain ⟨⟨inner'', rest''⟩, hrest, ⟨⟩⟩ := Option.map_eq_some_iff.1 h
    refine (ih hrest).imp ?_ ?_
    · rintro ⟨tail, htail⟩
      exact ⟨tail, by rw [hopen, htail]; rfl⟩
    · rintro ⟨c, hc, hdigit⟩
      exact ⟨c, List.mem_append_right _ hc, hdigit⟩
  | case5 c rest _ ih =>
    by_cases hclose : ∃ after, c = '}' ∧ rest = '}' :: after
    · obtain ⟨after, rfl, rfl⟩ := hclose
      rw [sweep_kept (by simp)] at h
      cases h
      exact .inl ⟨after, rfl⟩
    · have hnot : ∀ after, c = '}' → rest = '}' :: after → False :=
        fun after hc hrest => hclose ⟨after, hc, hrest⟩
      have hnot' : ∀ after, c = '}' → sweep f rest = '}' :: after → False := by
        intro after hc hrewritten
        obtain ⟨after', hrest⟩ := head_of_sweep hrewritten (.inr rfl)
        exact hnot after' hc hrest
      rw [splitClosing?_cons hnot'] at h
      obtain ⟨⟨inner'', rest''⟩, hrest, ⟨⟩⟩ := Option.map_eq_some_iff.1 h
      refine (ih hrest).imp ?_ ?_
      · rintro ⟨tail, htail⟩
        exact ⟨tail, by rw [splitClosing?_cons hnot, htail]; rfl⟩
      · rintro ⟨d, hd, hdigit⟩
        exact ⟨d, List.mem_cons_of_mem _ hd, hdigit⟩

/-! ## Two passes -/

/-- Two passes are one pass with the numbers of both, if what the second one replaces holds no digit,
    and no brace where it is not replaced by the first one. -/
theorem sweep_sweep (hdigits : ∀ inner n, g inner = some n → ∀ c ∈ inner, c.isDigit = false)
    (hplain : ∀ inner n, f inner = none → g inner = some n → '{' ∉ inner ∧ '}' ∉ inner)
    (cs : List Char) :
    sweep g (sweep f cs) = sweep (fun inner => (f inner).or (g inner)) cs := by
  fun_induction sweep (fun inner => (f inner).or (g inner)) cs with
  | case1 => rw [sweep, sweep]
  | case2 after hclosing => rw [sweep_unclosed hclosing, sweep_unclosed hclosing]
  | case3 after inner rest hclosing n hn _ ih =>
    rcases hfirst : f inner with _ | m
    · -- the second pass meets the token as the first one has left it
      rw [hfirst, Option.none_or] at hn
      obtain ⟨hopen, hclose⟩ := hplain inner n hfirst hn
      have hkept : sweep f after = inner ++ '}' :: '}' :: sweep f rest := by
        have hopen' : '{' ∉ inner ++ ['}', '}'] := by simp [hopen]
        have hsplit : after = inner ++ ['}', '}'] ++ rest := by
          simp [eq_of_splitClosing hclosing]
        rw [hsplit, sweep_append hopen']
        simp
      rw [sweep_other hclosing hfirst, hkept, sweep_token (splitClosing?_append hclose _) hn, ih]
    · rw [hfirst, Option.some_or, Option.some.injEq] at hn
      rw [sweep_token hclosing hfirst, hn, sweep_append (brace_not_mem_decimal n).1, ih]
  | case4 after inner rest hclosing hnone ih =>
    obtain ⟨hfirst, hsecond⟩ := Option.or_eq_none_iff.1 hnone
    rw [sweep_other hclosing hfirst, ← ih]
    rcases hclosing' : splitClosing? (sweep f after) with _ | ⟨inner', rest'⟩
    · rw [sweep_unclosed hclosing', sweep_of_unclosed hclosing']
    · refine sweep_other hclosing' (Option.eq_none_iff_forall_ne_some.2 fun n hn => ?_)
      rcases closing_sweep hclosing' with ⟨rest'', hsame⟩ | ⟨c, hc, hdigit⟩
      · cases hclosing.symm.trans hsame
        rw [hsecond] at hn
        cases hn
      · rw [hdigits inner' n hn c hc] at hdigit
        cases hdigit
  | case5 c rest hother ih =>
    rw [sweep_kept hother, sweep_kept, ih]
    intro after hc hrewritten
    obtain ⟨after', hrest⟩ := head_of_sweep hrewritten (.inl rfl)
    exact hother after' hc hrest

/-- A pass depends on nothing but the numbers for what stands between double braces in the value. -/
theorem sweep_congr
    (h : ∀ inner, '{' :: '{' :: (inner ++ ['}', '}']) <:+: cs → f inner = g inner) :
    sweep f cs = sweep g cs := by
  fun_induction sweep f cs with
  | case1 => rw [sweep]
  | case2 after hclosing => rw [sweep_unclosed hclosing]
  | case3 after inner rest hclosing n hn _ ih =>
    have hsame := h inner (infix_of_closing hclosing)
    rw [sweep_token hclosing (hsame ▸ hn), ih fun inner' hinner' => h inner' (hinner'.trans ?_)]
    rw [eq_of_splitClosing hclosing]
    exact ⟨'{' :: '{' :: (inner ++ ['}', '}']), [], by simp⟩
  | case4 after inner rest hclosing hnone ih =>
    have hsame := h inner (infix_of_closing hclosing)
    rw [sweep_other hclosing (hsame ▸ hnone), ih fun inner' hinner' => h inner' (hinner'.trans ?_)]
    exact (List.suffix_append ['{', '{'] after).isInfix
  | case5 c rest hother ih =>
    rw [sweep_kept hother, ih]
    exact fun inner hinner => h inner (hinner.trans (List.suffix_cons c rest).isInfix)

/-! ## The tokens of scopes -/

/-- No character of the text is a decimal digit. -/
def DigitFree (text : String) : Prop := ∀ c ∈ text.toList, c.isDigit = false

theorem digitFree_of_all {text : String} (h : text.toList.all (! ·.isDigit) = true) :
    DigitFree text := by simpa [DigitFree] using h

theorem inner_of_numberFor (h : numberFor scope counter inner = some n) :
    ∃ kind, Inner scope kind inner := by
  obtain ⟨token, htoken, -⟩ := Option.map_eq_some_iff.1 h
  exact ⟨token.kind, inner_of_token htoken⟩

theorem digitFree_inner (hscope : DigitFree scope) (h : numberFor scope counter inner = some n) :
    ∀ c ∈ inner, c.isDigit = false := by
  intro c hc
  obtain ⟨kind, hinner⟩ := inner_of_numberFor h
  have hword : DigitFree kind.word := digitFree_of_all (by cases kind <;> decide)
  rcases hinner with rfl | rfl
  · exact hword c hc
  · simp only [List.mem_append, List.mem_cons] at hc
    rcases hc with hc | rfl | hc
    · exact hscope c hc
    · decide
    · exact hword c hc

/-- Substituting the tokens of a scope again, with any counter, changes nothing. -/
theorem substitute_idem (hscope : DigitFree scope) (value : String) (counter counter' : Nat) :
    substitute (substitute value scope counter) scope counter' = substitute value scope counter := by
  have hsame : ∀ inner, (numberFor scope counter inner).or (numberFor scope counter' inner) =
      numberFor scope counter inner := by
    intro inner
    unfold numberFor
    cases (Token.ofInner? inner).filter (·.isFor scope) <;> rfl
  have hchars : substituteChars scope counter' (substituteChars scope counter value.toList) =
      substituteChars scope counter value.toList := by
    simp only [substituteChars_eq_sweep]
    rw [sweep_sweep (fun inner n => digitFree_inner hscope), funext hsame]
    intro inner n hnone hn
    rw [← hsame, hn] at hnone
    cases (Option.or_eq_none_iff.1 hnone).2
  simp only [substitute, String.toList_ofList, hchars]

/-- A token between the braces of something else: what is left of these is no token. -/
theorem substitute_idem_nested :
    let value := "\x7b\x7b\x7b\x7blist:index++\x7d\x7dindex\x7d\x7d \x7b\x7bindex--\x7d\x7d"
    DigitFree "list" ∧ substitute value "list" 0 = "\x7b\x7b1index\x7d\x7d -1" ∧
      substitute (substitute value "list" 0) "list" 7 = substitute value "list" 0 := by
  intro value
  have hscope : DigitFree "list" := digitFree_of_all (by decide)
  exact ⟨hscope, by decide +kernel, substitute_idem hscope value 0 7⟩

/-- With a digit for an identifier, a number can complete a token. -/
example :
    let once := substitute "\x7b\x7b\x7b\x7bindex\x7d\x7d:index\x7d\x7d" "5" 5
    once = "\x7b\x7b5:index\x7d\x7d" ∧ substitute once "5" 5 = "5" := by decide +kernel

/-- The text of a token that is for every scope. -/
def unqualified (kind : TokenKind) : List Char := '{' :: '{' :: (kind.word.toList ++ ['}', '}'])

/-- What is a token for two scopes names neither of them. -/
theorem unqualified_of_both {a b : String} {i j : Nat} {m : Int} (hne : a ≠ b)
    (ha : numberFor a i inner = some m) (hb : numberFor b j inner = some n) :
    ∃ kind : TokenKind, inner = kind.word.toList := by
  obtain ⟨kind, hinner⟩ := inner_of_numberFor ha
  obtain ⟨kind', hinner'⟩ := inner_of_numberFor hb
  have hcolon : ∀ kind : TokenKind, ':' ∉ kind.word.toList :=
    fun kind hmem => (plain_word hmem).2.2 rfl
  rcases hinner with hinner | hinner
  · exact ⟨kind, hinner⟩
  rcases hinner' with hinner' | hinner'
  · exact ⟨kind', hinner'⟩
  -- the last colon is in front of the word
  have hsplit := (splitLast?_eq_some.2 ⟨hcolon kind, hinner⟩).symm.trans
    (splitLast?_eq_some.2 ⟨hcolon kind', hinner'⟩)
  rw [Option.some.injEq, Prod.mk.injEq] at hsplit
  exact absurd (String.toList_inj.1 hsplit.1) hne

/-- Two scopes with tokens of their own may substitute them in a value in any order, if it holds none
    that is for both. -/
theorem substitute_comm {a b : String} (hne : a ≠ b) (ha : Nameable a) (hb : Nameable b)
    (hda : DigitFree a) (hdb : DigitFree b) {value : String}
    (hvalue : ∀ kind, ¬ unqualified kind <:+: value.toList) (i j : Nat) :
    substitute (substitute value a i) b j = substitute (substitute value b j) a i := by
  have hplain : ∀ {scope counter inner n}, Nameable scope →
      numberFor scope counter inner = some n → '{' ∉ inner ∧ '}' ∉ inner := by
    intro scope counter inner n hscope hn
    obtain ⟨kind, hinner⟩ := inner_of_numberFor hn
    exact ⟨fun hc => (hinner.plain hscope hc).1 rfl, fun hc => (hinner.plain hscope hc).2 rfl⟩
  have hswap : ∀ inner, '{' :: '{' :: (inner ++ ['}', '}']) <:+: value.toList →
      (numberFor a i inner).or (numberFor b j inner) =
        (numberFor b j inner).or (numberFor a i inner) := by
    intro inner hinner
    rcases hai : numberFor a i inner with _ | m
    · simp
    rcases hbj : numberFor b j inner with _ | n
    · simp
    obtain ⟨kind, rfl⟩ := unqualified_of_both hne hai hbj
    exact absurd hinner (hvalue kind)
  have hchars : substituteChars b j (substituteChars a i value.toList) =
      substituteChars a i (substituteChars b j value.toList) := by
    simp only [substituteChars_eq_sweep]
    rw [sweep_sweep (fun _ _ => digitFree_inner hdb) fun _ _ _ => hplain hb,
      sweep_sweep (fun _ _ => digitFree_inner hda) fun _ _ _ => hplain ha,
      sweep_congr hswap]
  simp only [substitute, String.toList_ofList, hchars]

theorem plain_of_all {text : String} (h : text.toList.all (fun c => c != '{' && c != '}') = true) :
    ∀ c ∈ text.toList, c ≠ '{' ∧ c ≠ '}' := by simpa using h

/-- Two scopes of which one has an identifier that begins with that of the other. -/
theorem substitute_comm_rows :
    let value := "\x7b\x7brow:index\x7d\x7d-\x7b\x7b\x7b\x7brow:cell:index++\x7d\x7d"
    ("row" ≠ "row:cell" ∧ Nameable "row" ∧ Nameable "row:cell" ∧ DigitFree "row" ∧
        DigitFree "row:cell" ∧ ∀ kind, ¬ unqualified kind <:+: value.toList) ∧
      substitute (substitute value "row" 3) "row:cell" 7 = "3-\x7b\x7b8" ∧
      substitute (substitute value "row" 3) "row:cell" 7 =
        substitute (substitute value "row:cell" 7) "row" 3 := by
  intro value
  have hne : "row" ≠ "row:cell" := by decide
  have hrow : Nameable "row" := ⟨by decide, plain_of_all (by decide)⟩
  have hcell : Nameable "row:cell" := ⟨by decide, plain_of_all (by decide)⟩
  have hrow' : DigitFree "row" := digitFree_of_all (by decide)
  have hcell' : DigitFree "row:cell" := digitFree_of_all (by decide)
  have hvalue : ∀ kind, ¬ unqualified kind <:+: value.toList := by
    intro kind
    cases kind <;> decide +kernel
  exact ⟨⟨hne, hrow, hcell, hrow', hcell', hvalue⟩, by decide +kernel,
    substitute_comm hne hrow hcell hrow' hcell' hvalue 3 7⟩

end Repeater.Stamp
