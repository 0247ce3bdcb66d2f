/-
  Repeater/Proofs/Hook/Lexing.lean
  ================================
  **What the lexer accepts.**

  The tokens of hook code are described without reading it: how each kind of token is written
  (`Lexeme`), what stands between tokens (`Skipped`), and when a code spells a list of tokens
  (`Spells`). Numbers, names and comments are read as far as they go, so the description looks at
  the character that follows.

  One scan takes exactly one such piece off the code (`piece_of_scan`, `scan_of_piece`), and the
  lexer succeeds exactly on the codes that spell something (`lex_spells`).
-/
import Repeater.Hook.Token
import Repeater.Proofs.Run

namespace Repeater.Hook

open Text

/-! ## How tokens are written -/

/-- The characters all pass, and the one that follows does not. -/
def Run (p : Char → Bool) (cs after : List Char) : Prop :=
  (∀ c ∈ cs, p c) ∧ ∀ c ∈ after.head?, p c = false

/-- How a text is written between its quotes. -/
inductive Quoted (quote : Char) : List Char → List Char → Prop where
  | nil : Quoted quote [] []
  | plain {c : Char} {written text : List Char} : c ≠ quote → c ≠ '\\' →
      Quoted quote written text → Quoted quote (c :: written) (c :: text)
  | escaped {c : Char} {written text : List Char} : Quoted quote written text →
      Quoted quote ('\\' :: c :: written) (unescape c :: text)

/-- The tokens of one character. -/
def sign? : Char → Option Token
  | '\n' | ';' => some .separator
  | '(' => some .leftParen
  | ')' => some .rightParen
  | ',' => some .comma
  | '.' => some .dot
  | '+' => some .plus
  | _ => none

theorem sign?_ne_int (c : Char) (n : Int) : sign? c ≠ some (.int n) := by
  unfold sign?
  split <;> simp

theorem sign?_ne_name (c : Char) (name : String) : sign? c ≠ some (.name name) := by
  unfold sign?
  split <;> simp

/-- A run of digits with a value that fits in a signed word. -/
structure Number (ds : List Char) (n : Nat) (after : List Char) : Prop where
  run : Run Char.isDigit ds after
  value : ofDigits? ds = some n
  fits : n < 0x8000000000000000

/-- How a token is written in front of what comes after it. -/
inductive Lexeme (after : List Char) : List Char → Token → Prop where
  | sign {c : Char} {token : Token} : sign? c = some token → Lexeme after [c] token
  | text {quote : Char} {written text : List Char} : quote = '\'' ∨ quote = '"' →
      Quoted quote written text →
      Lexeme after (quote :: (written ++ [quote])) (.text (String.ofList text))
  | int {ds : List Char} {n : Nat} : Number ds n after → Lexeme after ds (.int n)
  | negative {ds : List Char} {n : Nat} : Number ds n after →
      Lexeme after ('-' :: ds) (.int (-n))
  | name {c : Char} {cs : List Char} : startsName c → Run continuesName cs after →
      Lexeme after (c :: cs) (.name (String.ofList (c :: cs)))

/-- What may stand between tokens: a blank, or a comment up to the end of its line. -/
inductive Skipped (after : List Char) : List Char → Prop where
  | blank {c : Char} : c = ' ' ∨ c = '\t' ∨ c = '\r' → Skipped after [c]
  | comment {text : List Char} : Run (· != '\n') text after → Skipped after ('/' :: '/' :: text)

/-- The code spells the tokens. -/
inductive Spells : List Char → List Token → Prop where
  | nil : Spells [] []
  | skip {written after : List Char} {tokens : List Token} : Skipped after written →
      Spells after tokens → Spells (written ++ after) tokens
  | token {written after : List Char} {token : Token} {tokens : List Token} :
      Lexeme after written token → Spells after tokens →
      Spells (written ++ after) (token :: tokens)

/-! ## Runs, numbers and texts -/

variable {c quote : Char} {cs code rest written text after left ds : List Char}
  {token : Token} {tokens : List Token} {n : Nat}

theorem run_iff {p : Char → Bool} :
    code = cs ++ after ∧ Run p cs after ↔ code.takeWhile p = cs ∧ code.dropWhile p = after := by
  constructor
  · rintro ⟨rfl, hall, hnext⟩
    rw [List.takeWhile_append_of_pos hall, List.dropWhile_append_of_pos hall]
    cases after with
    | nil => simp
    | cons d after => simp [hnext d rfl]
  · rintro ⟨rfl, rfl⟩
    refine ⟨(List.takeWhile_append_dropWhile ..).symm, ?_, ?_⟩
    · exact fun c hc => List.all_eq_true.1 List.all_takeWhile c hc
    · intro c hc
      have := List.head?_dropWhile_not p code
      rw [Option.mem_def.1 hc] at this
      simpa using this

theorem readDigits_eq {i : Int} :
    readDigits ds = .ok i ↔ ∃ n, ofDigits? ds = some n ∧ n < 0x8000000000000000 ∧ i = n := by
  unfold readDigits
  rcases hvalue : ofDigits? ds with _ | n
  · simp
  · have hword : inWord n = decide (n < 0x8000000000000000) := by
      unfold inWord
      rw [Bool.eq_iff_iff, Bool.and_eq_true, decide_eq_true_iff, decide_eq_true_iff,
        decide_eq_true_iff]
      omega
    by_cases hfits : n < 0x8000000000000000
    · rw [decide_eq_true hfits] at hword
      constructor
      · intro h
        simp only [hword, ↓reduceIte, Except.ok.injEq] at h
        exact ⟨n, rfl, hfits, h.symm⟩
      · rintro ⟨_, ⟨⟩, -, rfl⟩
        simp only [hword, ↓reduceIte]
    · rw [decide_eq_false hfits] at hword
      constructor
      · intro h
        simp only [hword, Bool.false_eq_true, ↓reduceIte] at h
        cases h
      · rintro ⟨_, ⟨⟩, hfits', -⟩
        exact absurd hfits' hfits

/-- A number is what the digits up to the next character that is none are read as. -/
theorem number_iff {i : Int} :
    (∃ ds n, code = ds ++ left ∧ Number ds n left ∧ i = n) ↔
      readDigits (code.takeWhile Char.isDigit) = .ok i ∧ code.dropWhile Char.isDigit = left := by
  rw [readDigits_eq]
  constructor
  · rintro ⟨ds, n, hcode, hnumber, rfl⟩
    obtain ⟨htake, hdrop⟩ := run_iff.1 ⟨hcode, hnumber.run⟩
    exact ⟨⟨n, htake ▸ hnumber.value, hnumber.fits, rfl⟩, hdrop⟩
  · rintro ⟨⟨n, hvalue, hfits, rfl⟩, hdrop⟩
    obtain ⟨hcode, hrun⟩ := run_iff.2 ⟨rfl, hdrop⟩
    exact ⟨_, n, hcode, ⟨hrun, hvalue, hfits⟩, rfl⟩

theorem Number.read (h : Number ds n left) : ∃ c rest, ds ++ left = c :: rest ∧ c.isDigit ∧
    readDigits (c :: rest.takeWhile Char.isDigit) = .ok n ∧ rest.dropWhile Char.isDigit = left := by
  obtain ⟨hread, hdrop⟩ := number_iff.1 ⟨ds, n, rfl, h, rfl⟩
  obtain _ | ⟨c, ds⟩ := ds
  · cases h.value
  · have hc : c.isDigit := h.run.1 c (by simp)
    simp only [List.cons_append, List.takeWhile_cons, List.dropWhile_cons, hc, ↓reduceIte]
      at hread hdrop
    exact ⟨c, ds ++ left, rfl, hc, hread, hdrop⟩

theorem readText_eq (hquote : quote ≠ '\\') :
    readText quote code = some (text, left) ↔
      ∃ written, code = written ++ quote :: left ∧ Quoted quote written text := by
  constructor
  · intro h
    fun_induction readText quote code generalizing text left with
    | case1 => cases h
    | case2 => cases h
    | case3 c rest ih =>
      obtain ⟨⟨s, left'⟩, hrest, ⟨⟩⟩ := Option.map_eq_some_iff.1 h
      obtain ⟨written, rfl, hwritten⟩ := ih hrest
      exact ⟨'\\' :: c :: written, rfl, hwritten.escaped⟩
    | case4 c rest hlone hescape hc =>
      cases h
      obtain rfl := beq_iff_eq.1 hc
      exact ⟨[], rfl, .nil⟩
    | case5 c rest hlone hescape hc ih =>
      obtain ⟨⟨s, left'⟩, hrest, ⟨⟩⟩ := Option.map_eq_some_iff.1 h
      obtain ⟨written, rfl, hwritten⟩ := ih hrest
      refine ⟨c :: written, rfl, hwritten.plain ?_ ?_⟩
      · simpa using hc
      · rintro rfl
        cases written with
        | nil => exact hescape _ _ rfl rfl
        | cons => exact hescape _ _ rfl rfl
  · rintro ⟨written, rfl, hwritten⟩
    induction hwritten with
    | nil => simp [readText, hquote]
    | plain hc hescape _ ih => simp [readText, hc, hescape, ih]
    | escaped _ ih => simp [readText, ih]

/-! ## One scan -/

theorem not_startsName_digit (hc : c.isDigit) : startsName c = false := by
  have hcode : 48 ≤ c.toNat ∧ c.toNat ≤ 57 := by
    simpa [Char.isDigit, UInt32.le_iff_toNat_le] using hc
  have hother : ∀ d : Char, d.toNat < 48 ∨ 57 < d.toNat → c ≠ d := by
    rintro d hd rfl
    omega
  have hbelow : ∀ bound : UInt32, 57 < bound.toNat → ¬ bound ≤ c.val := by
    intro bound hbound hle
    have hle' : bound.toNat ≤ c.toNat := UInt32.le_iff_toNat_le.1 hle
    omega
  have hupper : c.isUpper = false := decide_eq_false fun h => hbelow _ (by decide) h.1
  have hlower : c.isLower = false := Bool.and_eq_false_imp.2 fun h =>
    absurd (of_decide_eq_true h) (hbelow _ (by decide))
  have halpha : c.isAlpha = false := Bool.or_eq_false_iff.2 ⟨hupper, hlower⟩
  have hascii : c.toNat < 128 := by omega
  simp [startsName, isLetter, hascii, halpha, hother '_' (by decide), hother '$' (by decide)]

theorem scan_digit (hc : c.isDigit) : Token.scan c rest = (do
    let n ← readDigits (c :: rest.takeWhile Char.isDigit)
    return (some (.int n), rest.dropWhile Char.isDigit)) := by
  have hother : ∀ d : Char, d.isDigit = false → c ≠ d := by
    rintro d hd rfl
    simp [hc] at hd
  unfold Token.scan
  split
  all_goals try exact absurd rfl (hother _ (by decide))
  simp [hother '/' (by decide), hother '\'' (by decide), hother '"' (by decide),
    hother '-' (by decide), hc]

theorem scan_minus (hc : c.isDigit) : Token.scan '-' (c :: rest) = (do
    let n ← readDigits (c :: rest.takeWhile Char.isDigit)
    return (some (.int (-n)), rest.dropWhile Char.isDigit)) := by
  simp [Token.scan, hc]

theorem scan_name (hc : startsName c) : Token.scan c rest =
    .ok (some (.name (String.ofList (c :: rest.takeWhile continuesName))),
      rest.dropWhile continuesName) := by
  have hother : ∀ d : Char, startsName d = false → c ≠ d := by
    rintro d hd rfl
    simp [hc] at hd
  have hdigit : c.isDigit = false := by
    refine Bool.eq_false_iff.2 fun hdigit => ?_
    simp [not_startsName_digit hdigit] at hc
  unfold Token.scan
  split
  all_goals try exact absurd rfl (hother _ (by decide))
  simp [hother '/' (by decide), hother '\'' (by decide), hother '"' (by decide),
    hother '-' (by decide), hc, hdigit]

theorem Lexeme.ne_nil {token : Token} (h : Lexeme after written token) : written ≠ [] := by
  cases h with
  | int hnumber =>
    rintro rfl
    cases hnumber.value
  | sign _ => exact List.cons_ne_nil _ _
  | text _ _ => exact List.cons_ne_nil _ _
  | negative _ => exact List.cons_ne_nil _ _
  | name _ _ => exact List.cons_ne_nil _ _

/-- What one scan takes off the code. -/
def Piece (after written : List Char) : Option Token → Prop
  | none => Skipped after written
  | some token => Lexeme after written token

/-- A scan that succeeds takes off what it says. -/
theorem piece_of_scan {found : Option Token} (h : Token.scan c rest = .ok (found, left)) :
    ∃ written, c :: rest = written ++ left ∧ Piece left written found := by
  unfold Token.scan at h
  split at h
  case h_1 => cases h; exact ⟨[_], rfl, .blank (.inl rfl)⟩
  case h_2 => cases h; exact ⟨[_], rfl, .blank (.inr (.inl rfl))⟩
  case h_3 => cases h; exact ⟨[_], rfl, .blank (.inr (.inr rfl))⟩
  case h_11 =>
    split at h
    · next hcomment =>
      simp only [Bool.and_eq_true, beq_iff_eq, List.head?_eq_some_iff] at hcomment
      obtain ⟨rfl, rest, rfl⟩ := hcomment
      cases h
      obtain ⟨hcode, hrun⟩ := run_iff.2 ⟨rfl, rfl⟩
      exact ⟨'/' :: '/' :: rest.takeWhile (· != '\n'), by simp, .comment hrun⟩
    split at h
    · next hquote =>
      have hquote : c = '\'' ∨ c = '"' := by simpa using hquote
      split at h
      · next text left' hread =>
        cases h
        have hescape : c ≠ '\\' := by rintro rfl; simp at hquote
        obtain ⟨written, rfl, hwritten⟩ := (readText_eq hescape).1 hread
        exact ⟨c :: (written ++ [c]), by simp, .text hquote hwritten⟩
      · cases h
    split at h
    · next hminus =>
      simp only [Bool.and_eq_true, beq_iff_eq] at hminus
      obtain ⟨i, hi, hpure⟩ := bind_eq_ok.1 h
      simp only [pure, Except.pure, Except.ok.injEq, Prod.mk.injEq] at hpure
      obtain ⟨rfl, hleft⟩ := hpure
      obtain ⟨ds, n, rfl, hnumber, rfl⟩ := number_iff.2 ⟨hi, hleft⟩
      exact ⟨'-' :: ds, by rw [hminus.1]; rfl, .negative hnumber⟩
    split at h
    · next hdigit =>
      obtain ⟨i, hi, hpure⟩ := bind_eq_ok.1 h
      simp only [pure, Except.pure, Except.ok.injEq, Prod.mk.injEq] at hpure
      obtain ⟨rfl, hleft⟩ := hpure
      have hrun : readDigits ((c :: rest).takeWhile Char.isDigit) = .ok i ∧
          (c :: rest).dropWhile Char.isDigit = left := by
        rw [List.takeWhile_cons_of_pos hdigit, List.dropWhile_cons_of_pos hdigit]
        exact ⟨hi, hleft⟩
      obtain ⟨ds, n, hcode, hnumber, rfl⟩ := number_iff.2 hrun
      exact ⟨ds, hcode, .int hnumber⟩
    split at h
    · next hname =>
      cases h
      obtain ⟨hcode, hrun⟩ := run_iff.2 ⟨rfl, rfl⟩
      exact ⟨_, by rw [List.cons_append, ← hcode], .name hname hrun⟩
    · cases h
  all_goals
    cases h
    exact ⟨[_], rfl, .sign rfl⟩

/-- A scan takes off what stands at the front of the code. -/
theorem scan_of_piece {found : Option Token} (h : Piece left written found) :
    ∃ c rest, written ++ left = c :: rest ∧ Token.scan c rest = .ok (found, left) := by
  cases found with
  | none =>
    cases h with
    | blank hc =>
      refine ⟨_, left, rfl, ?_⟩
      rcases hc with rfl | rfl | rfl <;> rfl
    | comment hrun =>
      obtain ⟨-, hdrop⟩ := run_iff.1 ⟨rfl, hrun⟩
      refine ⟨_, _, rfl, ?_⟩
      simp [Token.scan, hdrop]
  | some token =>
    cases h with
    | sign hsign =>
      refine ⟨_, left, rfl, ?_⟩
      unfold sign? at hsign
      split at hsign <;> cases hsign <;> rfl
    | @text quote written text hquote hwritten =>
      have hread : readText quote (written ++ [quote] ++ left) = some (text, left) := by
        refine (readText_eq ?_).2 ⟨written, by simp, hwritten⟩
        rintro rfl
        simp at hquote
      refine ⟨quote, written ++ [quote] ++ left, by simp, ?_⟩
      rcases hquote with rfl | rfl <;> simp only [Token.scan, hread] <;> simp
    | int hnumber =>
      obtain ⟨c, rest, hcode, hc, hread, hdrop⟩ := hnumber.read
      refine ⟨c, rest, hcode, ?_⟩
      rw [scan_digit hc, hread, hdrop]
      rfl
    | negative hnumber =>
      obtain ⟨c, rest, hcode, hc, hread, hdrop⟩ := hnumber.read
      refine ⟨'-', c :: rest, by rw [List.cons_append, hcode], ?_⟩
      rw [scan_minus hc, hread, hdrop]
      rfl
    | name hc hrun =>
      obtain ⟨htake, hdrop⟩ := run_iff.1 ⟨rfl, hrun⟩
      refine ⟨_, _, List.cons_append, ?_⟩
      rw [scan_name hc, htake, hdrop]

/-! ## All tokens -/

/-- The tokens of a code are what its first scan finds, and the tokens of what that leaves. -/
theorem lexFrom_of_scan {found : Option Token} (hscan : Token.scan c rest = .ok (found, left))
    (offset : Nat) : lexFrom offset (c :: rest) =
      (lexFrom (offset + (byteCount (c :: rest) - byteCount left)) left).map fun more =>
        (found.map (⟨·, offset⟩)).toList ++ more := by
  rw [lexFrom]
  split
  · next hfault => cases hscan.symm.trans hfault
  · next found' left' hscan' =>
    cases hscan.symm.trans hscan'
    cases lexFrom _ left with
    | error => rfl
    | ok more => cases found <;> rfl

theorem lexFrom_fault {fault : HookFault} (hscan : Token.scan c rest = .error fault)
    (offset : Nat) : lexFrom offset (c :: rest) = .error (.hookSyntax offset fault) := by
  rw [lexFrom]
  split
  · next hfault =>
    cases hscan.symm.trans hfault
    rfl
  · next hok => cases hscan.symm.trans hok

theorem spells_of_lexFrom {offset : Nat} {placed : List Placed}
    (h : lexFrom offset code = .ok placed) : Spells code (placed.map (·.token)) := by
  fun_induction lexFrom offset code generalizing placed with
  | case1 => cases h; exact .nil
  | case2 => cases h
  | case3 => cases h
  | case4 offset c rest left more hmore token _ hscan _ ih =>
    cases h
    obtain ⟨written, hcode, hlexeme⟩ := piece_of_scan hscan
    rw [hcode]
    exact .token hlexeme (ih hmore)
  | case5 offset c rest left more hmore _ hscan _ ih =>
    cases h
    obtain ⟨written, hcode, hskipped⟩ := piece_of_scan hscan
    rw [hcode]
    exact .skip hskipped (ih hmore)

theorem lexFrom_of_spells (h : Spells code tokens) (offset : Nat) :
    ∃ placed, lexFrom offset code = .ok placed ∧ placed.map (·.token) = tokens := by
  induction h generalizing offset with
  | nil => exact ⟨[], by rw [lexFrom], rfl⟩
  | skip hskipped _ ih =>
    have hpiece : Piece _ _ none := hskipped
    obtain ⟨c, rest, hcode, hscan⟩ := scan_of_piece hpiece
    obtain ⟨placed, hplaced, htokens⟩ := ih _
    exact ⟨placed, by rw [hcode, lexFrom_of_scan hscan, hplaced]; rfl, htokens⟩
  | @token _ _ token _ hlexeme _ ih =>
    have hpiece : Piece _ _ (some token) := hlexeme
    obtain ⟨c, rest, hcode, hscan⟩ := scan_of_piece hpiece
    obtain ⟨placed, hplaced, htokens⟩ := ih _
    refine ⟨⟨token, offset⟩ :: placed, by rw [hcode, lexFrom_of_scan hscan, hplaced]; rfl, ?_⟩
    rw [List.map_cons, htokens]

/-- The lexer finds the tokens that the code spells, and fails if it spells none. -/
theorem lex_spells :
    (∃ placed, lex code = .ok placed ∧ placed.map (·.token) = tokens) ↔ Spells code tokens := by
  constructor
  · rintro ⟨placed, hlex, rfl⟩
    exact spells_of_lexFrom hlex
  · exact fun h => lexFrom_of_spells h 0

end Repeater.Hook
