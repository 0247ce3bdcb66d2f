/-
  Repeater/Stamp/Token.lean
  =========================
  **Index tokens.**

  An attribute may hold tokens between double braces that stand for the counter of a scope, for the
  number after it or for the one before it, alone or qualified by the identifier of a scope.
  `substitute` replaces the tokens that are for a scope, in one pass from left to right: replaced
  text is not looked at again, and where double braces open something else they are kept and the
  search goes on right after them.
-/
import Repeater.Text.Decimal
import Repeater.Text.Split

namespace Repeater.Stamp

open Text

/-- Which number a token stands for. -/
inductive TokenKind where
  /-- The counter. -/
  | current
  /-- The number after the counter. -/
  | next
  /-- The number before the counter. -/
  | previous
deriving DecidableEq, Repr

namespace TokenKind

/-- All kinds of tokens. -/
def all : List TokenKind := [current, next, previous]

/-- The word for a kind. -/
def word : TokenKind → String
  | current => "index"
  | next => "index++"
  | previous => "index--"

/-- The kind with the word. -/
def ofWord? (cs : List Char) : Option TokenKind := all.find? (·.word.toList == cs)

/-- What is added to the counter. -/
def shift : TokenKind → Int
  | current => 0
  | next => 1
  | previous => -1

/-- The number a token stands for. The counter is a word of 64 bits and is read as signed. -/
def resolve (kind : TokenKind) (counter : Nat) : Int := wrapWord (counter + kind.shift)

end TokenKind

/-- A token: its kind, and the scope it is restricted to, if any. -/
structure Token where
  qualifier : Option String
  kind : TokenKind
deriving DecidableEq, Repr

namespace Token

/-- Reads what stands between the braces: a word, or a qualifier that is not empty and a word around
    the last colon. -/
def ofInner? (inner : List Char) : Option Token :=
  match splitLast? ':' inner with
  | some (qualifier, word) =>
    if qualifier.isEmpty then none
    else (TokenKind.ofWord? word).map fun kind => ⟨some (String.ofList qualifier), kind⟩
  | none => (TokenKind.ofWord? inner).map fun kind => ⟨none, kind⟩

/-- Whether a token is for the scope. -/
def isFor (token : Token) (scope : String) : Bool := token.qualifier.all (· == scope)

end Token

/-- What stands before and after the first closing pair of braces. -/
def splitClosing? : List Char → Option (List Char × List Char)
  | [] => none
  | '}' :: '}' :: after => some ([], after)
  | c :: rest => (splitClosing? rest).map fun (inner, after) => (c :: inner, after)

theorem length_splitClosing {cs inner after : List Char}
    (h : splitClosing? cs = some (inner, after)) : after.length < cs.length := by
  fun_induction splitClosing? cs generalizing inner after with
  | case1 => simp at h
  | case2 after' =>
    simp only [Option.some.injEq, Prod.mk.injEq] at h
    simp only [← h.2, List.length_cons]
    omega
  | case3 c rest _ ih =>
    obtain ⟨⟨inner', after'⟩, hr, heq⟩ := Option.map_eq_some_iff.1 h
    have := ih hr
    simp only [Prod.mk.injEq] at heq
    simp only [List.length_cons, ← heq.2]
    omega

/-- Replaces the tokens that are for the scope by their numbers. -/
def substituteChars (scope : String) (counter : Nat) (cs : List Char) : List Char :=
  match cs with
  | [] => []
  | '{' :: '{' :: after =>
    match h : splitClosing? after with
    | none => '{' :: '{' :: after
    | some (inner, rest) =>
      match (Token.ofInner? inner).filter (·.isFor scope) with
      | some token =>
        have : rest.length < after.length := length_splitClosing h
        decimal (token.kind.resolve counter) ++ substituteChars scope counter rest
      | none => '{' :: '{' :: substituteChars scope counter after
  | c :: rest => c :: substituteChars scope counter rest
termination_by cs.length

/-- The value with the tokens that are for the scope replaced by their numbers. -/
def substitute (value scope : String) (counter : Nat) : String :=
  String.ofList (substituteChars scope counter value.toList)

theorem substituteChars_ne_nil {scope : String} {counter : Nat} {cs : List Char} (h : cs ≠ []) :
    substituteChars scope counter cs ≠ [] := by
  have hdecimal (n : Int) : decimal n ≠ [] := by
    have hdigits : digits n.natAbs ≠ [] := Nat.toDigits_ne_nil
    unfold decimal
    split
    · simp
    · exact hdigits
  fun_cases substituteChars scope counter cs <;> simp_all

/-- A value that says something still says something with its tokens replaced. -/
theorem isEmpty_substitute {value scope : String} {counter : Nat} (h : value.isEmpty = false) :
    (substitute value scope counter).isEmpty = false := by
  have hchars : value.toList ≠ [] := by
    rintro hnil
    have : value = "" := String.toList_eq_nil_iff.1 hnil
    simp [this] at h
  unfold substitute
  simpa using substituteChars_ne_nil hchars

end Repeater.Stamp
