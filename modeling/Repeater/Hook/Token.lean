/-
  Repeater/Hook/Token.lean
  ========================
  **The tokens of hook code.**

  `Token.scan` reads one token, or skips a blank or a comment, and says what is left; `lex` repeats
  this to the end and notes for each token the byte offset at which it starts. A fault is always
  reported at the start of the token in which it shows.
-/
import Repeater.Error
import Repeater.Text.Bytes
import Repeater.Text.Letter

namespace Repeater.Hook

open Text

/-- A token of hook code. A semicolon and a line break are both separators. -/
inductive Token where
  | name (s : String)
  | text (s : String)
  | int (n : Int)
  | leftParen | rightParen | comma | dot | plus | separator
deriving DecidableEq, Repr

/-- A token with the byte offset at which it starts. -/
structure Placed where
  token : Token
  offset : Nat
deriving DecidableEq, Repr

/-- A character that starts a name. -/
def startsName (c : Char) : Bool := isLetter c || c == '_' || c == '$'

/-- A character that continues a name. -/
def continuesName (c : Char) : Bool := isLetter c || isNumber c || c == '_' || c == '$'

/-! ## One token -/

/-- The character that an escape stands for: a line break, a tab, or the character itself. -/
def unescape : Char → Char
  | 'n' => '\n'
  | 't' => '\t'
  | c => c

/-- Reads a text up to its closing quote and gives what is left after it. -/
def readText (quote : Char) : List Char → Option (List Char × List Char)
  | [] => none
  | ['\\'] => none
  | '\\' :: c :: rest => (readText quote rest).map fun (s, left) => (unescape c :: s, left)
  | c :: rest =>
    if c == quote then some ([], rest)
    else (readText quote rest).map fun (s, left) => (c :: s, left)

/-- The value of a run of digits, if it fits in a signed word. -/
def readDigits (ds : List Char) : Except HookFault Int :=
  match ofDigits? ds with
  | some n => if inWord n then .ok n else .error .integerOutOfRange
  | none => .error .integerOutOfRange

/-- Reads the token that starts with `c`, and gives it with what is left. Blanks and comments give
    no token. -/
def Token.scan (c : Char) (rest : List Char) : Except HookFault (Option Token × List Char) :=
  match c with
  | ' ' | '\t' | '\r' => .ok (none, rest)
  | '\n' | ';' => .ok (some .separator, rest)
  | '(' => .ok (some .leftParen, rest)
  | ')' => .ok (some .rightParen, rest)
  | ',' => .ok (some .comma, rest)
  | '.' => .ok (some .dot, rest)
  | '+' => .ok (some .plus, rest)
  | _ =>
    if c == '/' && rest.head? == some '/' then .ok (none, rest.dropWhile (· != '\n'))
    else if c == '\'' || c == '"' then
      match readText c rest with
      | some (s, left) => .ok (some (.text (String.ofList s)), left)
      | none => .error .unterminatedText
    else if c == '-' && rest.head?.any Char.isDigit then do
      let n ← readDigits (rest.takeWhile Char.isDigit)
      return (some (.int (-n)), rest.dropWhile Char.isDigit)
    else if c.isDigit then do
      let n ← readDigits (c :: rest.takeWhile Char.isDigit)
      return (some (.int n), rest.dropWhile Char.isDigit)
    else if startsName c then
      .ok (some (.name (String.ofList (c :: rest.takeWhile continuesName))),
        rest.dropWhile continuesName)
    else .error (.strayCharacter c)

theorem length_dropWhile_le {α : Type} (p : α → Bool) (l : List α) :
    (l.dropWhile p).length ≤ l.length := (List.dropWhile_sublist p).length_le

theorem length_readText {quote : Char} {cs s left : List Char}
    (h : readText quote cs = some (s, left)) : left.length ≤ cs.length := by
  fun_induction readText quote cs generalizing s left with
  | case1 => simp at h
  | case2 => simp at h
  | case3 c rest ih =>
    obtain ⟨⟨s', left'⟩, hr, heq⟩ := Option.map_eq_some_iff.1 h
    have := ih hr
    simp only [Prod.mk.injEq] at heq
    simp only [List.length_cons, ← heq.2]
    omega
  | case4 c rest =>
    simp only [Option.some.injEq, Prod.mk.injEq] at h
    simp [← h.2]
  | case5 c rest _ _ _ ih =>
    obtain ⟨⟨s', left'⟩, hr, heq⟩ := Option.map_eq_some_iff.1 h
    have := ih hr
    simp only [Prod.mk.injEq] at heq
    simp only [List.length_cons, ← heq.2]
    omega

/-- Scanning never leaves more than there was. -/
theorem Token.length_scan {c : Char} {rest left : List Char} {token : Option Token}
    (h : Token.scan c rest = .ok (token, left)) : left.length ≤ rest.length := by
  unfold Token.scan at h
  split at h
  all_goals try (cases h; exact Nat.le_refl _)
  split at h
  · cases h; exact length_dropWhile_le _ _
  split at h
  · split at h
    · next hr => cases h; exact length_readText hr
    · cases h
  split at h
  · cases hd : readDigits (rest.takeWhile Char.isDigit) with
    | error => simp [hd, bind, Except.bind] at h
    | ok n =>
      simp only [hd, bind, Except.bind, pure, Except.pure, Except.ok.injEq, Prod.mk.injEq] at h
      rw [← h.2]; exact length_dropWhile_le _ _
  split at h
  · cases hd : readDigits (c :: rest.takeWhile Char.isDigit) with
    | error => simp [hd, bind, Except.bind] at h
    | ok n =>
      simp only [hd, bind, Except.bind, pure, Except.pure, Except.ok.injEq, Prod.mk.injEq] at h
      rw [← h.2]; exact length_dropWhile_le _ _
  split at h
  · cases h; exact length_dropWhile_le _ _
  · cases h

/-! ## All tokens -/

/-- The tokens of the code that starts at the byte `offset`. -/
def lexFrom (offset : Nat) (code : List Char) : Except Error (List Placed) :=
  match code with
  | [] => .ok []
  | c :: rest =>
    match h : Token.scan c rest with
    | .error fault => .error (.hookSyntax offset fault)
    | .ok (token, left) =>
      have : left.length < (c :: rest).length := Nat.lt_succ_of_le (Token.length_scan h)
      match lexFrom (offset + (byteCount (c :: rest) - byteCount left)) left with
      | .error e => .error e
      | .ok placed =>
        match token with
        | some token => .ok (⟨token, offset⟩ :: placed)
        | none => .ok placed
termination_by code.length
decreasing_by assumption

/-- The tokens of hook code, in order. -/
def lex (code : List Char) : Except Error (List Placed) := lexFrom 0 code

end Repeater.Hook
