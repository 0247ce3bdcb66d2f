/-
  Repeater/Hook/Positions.lean
  ============================
  **Hook code read by positions.**

  The same lexer and parser once more, as they go about it with positions. The lexer keeps the byte
  at which it is and cuts out of the code what it needs; the parser keeps the index of the token at
  which it is, in a list that ends with a mark for the end of the code.

  Nothing here keeps a position where it belongs. A cut inside a character or a look outside the
  list is a `misread`, and the loops go on for as long as what they wait for does not come. What
  keeps the positions right is the theory of this module.
-/
import Repeater.Hook.Compile
import Repeater.Text.Slice

namespace Repeater.Hook

open Text

/-- Why a reading stops without a result. -/
inductive Stop where
  /-- A part of the code was asked for that is not cut at characters, or a token outside the
      list. -/
  | misread
  /-- The code is refused. -/
  | refused (error : Error)
deriving DecidableEq, Repr

/-- A reading that moves a state, which it keeps when it stops. A reading that never ends is
    `none`. -/
abbrev Reading (σ α : Type) := ExceptT Stop (StateT σ Option) α

/-- A token with the byte at which it starts, or the end of the code, which has no token. -/
structure Mark where
  token : Option Token
  offset : Nat
deriving DecidableEq, Repr

/-- The marks of the tokens of a code of `length` bytes. -/
def marksOf (placed : List Placed) (length : Nat) : List Mark :=
  (placed.map fun t => ⟨some t.token, t.offset⟩) ++ [⟨none, length⟩]

/-! ## The lexer by bytes -/

/-- Code that is read by bytes. -/
abbrev ByByte := List Char

namespace ByByte

variable (code : ByByte)

/-- The next character, if the code does not end here. -/
def peek : Reading Nat (Option Char) := do
  match from? (← get) code with
  | some rest => return rest.head?
  | none => throw .misread

/-- Takes the next character. -/
def bump : Reading Nat (Option Char) := do
  match ← peek code with
  | some c =>
    modify (· + c.utf8Size)
    return some c
  | none => return none

/-- The code from a byte up to here. -/
def since (start : Nat) : Reading Nat (List Char) := do
  match between? start (← get) code with
  | some part => return part
  | none => throw .misread

/-- Takes characters for as long as they pass. -/
def skipWhile (code : ByByte) (p : Char → Bool) : Reading Nat Unit := do
  if (← peek code).any p then
    discard (bump code)
    code |>.skipWhile p
partial_fixpoint

/-- Takes a text up to its closing quote. The opening one is at `start`, and `read` has been
    read. -/
def text (code : ByByte) (quote : Char) (start : Nat) (read : List Char) :
    Reading Nat (List Char) := do
  match ← bump code with
  | none => throw (.refused (.hookSyntax start .unterminatedText))
  | some c =>
    if c == quote then return read
    else if c == '\\' then
      match ← bump code with
      | some c => code |>.text quote start (read ++ [unescape c])
      | none => throw (.refused (.hookSyntax start .unterminatedText))
    else code |>.text quote start (read ++ [c])
partial_fixpoint

/-- Takes the digits of an integer, which go on here and start at `first`. -/
def integer (start first : Nat) : Reading Nat Int := do
  skipWhile code Char.isDigit
  match readDigits (← since code first) with
  | .ok n => return n
  | .error fault => throw (.refused (.hookSyntax start fault))

/-- Whether `c` is the first of two characters of which the next one is the second. -/
def leads (c first : Char) (second : Char → Bool) : Reading Nat Bool := do
  if c == first then return (← peek code).any second else return false

/-- Takes the token that starts with `c`, which has been taken at `start`. Blanks and comments give
    no token. -/
def token (start : Nat) (c : Char) : Reading Nat (Option Token) := do
  match c with
  | ' ' | '\t' | '\r' => return none
  | '\n' | ';' => return some .separator
  | '(' => return some .leftParen
  | ')' => return some .rightParen
  | ',' => return some .comma
  | '.' => return some .dot
  | '+' => return some .plus
  | _ =>
    if ← leads code c '/' (· == '/') then
      skipWhile code (· != '\n')
      return none
    else if c == '\'' || c == '"' then
      return some (.text (String.ofList (← text code c start [])))
    else if ← leads code c '-' Char.isDigit then
      return some (.int (-(← integer code start (← get))))
    else if c.isDigit then
      return some (.int (← integer code start start))
    else if startsName c then
      skipWhile code continuesName
      return some (.name (String.ofList (← since code start)))
    else throw (.refused (.hookSyntax start (.strayCharacter c)))

/-- Takes all tokens, behind those in `marks`, and marks the end of the code. -/
def marks (code : ByByte) (found : List Mark) : Reading Nat (List Mark) := do
  let start ← get
  match ← bump code with
  | none => return found ++ [⟨none, start⟩]
  | some c =>
    match ← token code start c with
    | none => code |>.marks found
    | some token => code |>.marks (found ++ [⟨some token, start⟩])
partial_fixpoint

end ByByte

/-! ## The parser by index -/

/-- Where the parser is, and how many statements it has begun. -/
structure Place where
  index : Nat := 0
  begun : Nat := 0
deriving DecidableEq, Repr

/-- Marks that are read by index. -/
abbrev ByIndex := List Mark

namespace ByIndex

variable (parameters : List String) (marks : ByIndex)

/-- The mark at the index, or the last one if the index is behind it. -/
def mark : Reading Place Mark := do
  match marks[min (← get).index (marks.length - 1)]? with
  | some mark => return mark
  | none => throw .misread

/-- The next token, if the code does not end here. -/
def peek : Reading Place (Option Token) := do
  return (← mark marks).token

/-- Takes the next token. The end of the code is not taken. -/
def next : Reading Place (Option Token) := do
  let token ← peek marks
  modify fun place =>
    if place.index < marks.length - 1 then { place with index := place.index + 1 } else place
  return token

/-- Fails at the next token. -/
def fail {α : Type} (fault : HookFault) : Reading Place α := do
  throw (.refused (.hookSyntax (← mark marks).offset fault))

/-- Takes a token that has to come next. -/
def expect (token : Token) (what : String) : Reading Place Unit := do
  if (← peek marks) == some token then discard (next marks)
  else fail marks (.expected what)

/-- Takes separators for as long as they come. -/
def skipSeparators (marks : ByIndex) : Reading Place Unit := do
  if (← peek marks) == some .separator then
    discard (next marks)
    marks |>.skipSeparators
partial_fixpoint

/-- The position of a parameter; of two with one name, the first. -/
def position? (name : String) : Option Nat := parameters.findIdx? (· == name)

/-- Takes a term. -/
def term : Reading Place Term := do
  match ← next marks with
  | some (.text s) => return .text s
  | some (.int n) => return .int n
  | some (.name s) =>
    match position? parameters s with
    | some i => return .parameter i
    | none => fail marks (.unknownName s)
  | _ => fail marks .termExpected

/-- Takes the terms of a sum behind those in `read`, each behind a plus sign. -/
def others (parameters : List String) (marks : ByIndex) (read : List Term) :
    Reading Place (List Term) := do
  if (← peek marks) == some .plus then
    discard (next marks)
    let x ← term parameters marks
    marks |>.others parameters (read ++ [x])
  else return read
partial_fixpoint

/-- Takes a sum. -/
def expression : Reading Place Expression := do
  let first ← term parameters marks
  let others ← others parameters marks []
  return { first, others }

/-- Takes arguments behind those in `read`, each behind a comma. -/
def more (parameters : List String) (marks : ByIndex) (read : List Expression) :
    Reading Place (List Expression) := do
  if (← peek marks) == some .comma then
    discard (next marks)
    let e ← expression parameters marks
    marks |>.more parameters (read ++ [e])
  else return read
partial_fixpoint

/-- Takes the arguments of a call, up to the closing parenthesis. -/
def arguments : Reading Place (List Expression) := do
  if (← peek marks) != some .rightParen then
    let e ← expression parameters marks
    more parameters marks [e]
  else return []

/-- What a member of a name stands for. -/
def memberCallee (receiver member : String) : Reading Place Callee := do
  if receiver == "console" then
    match consoleLevel? member with
    | some level => return .console level
    | none => fail marks (.unknownConsole member)
  else
    match position? parameters receiver with
    | none => fail marks (.unknownName receiver)
    | some i =>
      match ElementMethod.ofMember? member with
      | some method => return .method i method
      | none => fail marks (.unknownMethod receiver member)

/-- Takes what a statement calls. -/
def callee : Reading Place Callee := do
  match ← next marks with
  | some (.name s) =>
    if (← peek marks) != some .dot then
      if s == "alert" then return .alert
      else if (position? parameters s).isSome then fail marks (.notCallable s)
      else return .callback s
    else
      discard (next marks)
      match ← next marks with
      | some (.name member) => memberCallee parameters marks s member
      | _ => fail marks .memberExpected
  | _ => fail marks .callExpected

/-- Refuses a call of an element method with the wrong number of arguments. -/
def checkCount (callee : Callee) (given : Nat) : Reading Place Unit := do
  match callee with
  | .method _ method =>
    if given ≠ method.arity then
      fail marks (.argumentCount method.title method.arity given)
  | _ => return

/-- Takes a statement. -/
def statement : Reading Place Statement := do
  let callee ← callee parameters marks
  expect marks .leftParen "`(`"
  let arguments ← arguments parameters marks
  expect marks .rightParen "`)`"
  checkCount marks callee arguments.length
  return { callee, arguments }

/-- Takes the separators behind a statement, if there is more code. -/
def separate : Reading Place Unit := do
  match ← peek marks with
  | some .separator => skipSeparators marks
  | none => return
  | _ => fail marks (.expected "`;` or a new line")

/-- Takes all statements behind those in `read`. -/
def statements (parameters : List String) (marks : ByIndex) (read : List Statement) :
    Reading Place (List Statement) := do
  if (← peek marks) != none then
    modify fun place => { place with begun := place.begun + 1 }
    let s ← statement parameters marks
    separate marks
    marks |>.statements parameters (read ++ [s])
  else return read
partial_fixpoint

/-- Takes a whole program. -/
def program : Reading Place (List Statement) := do
  skipSeparators marks
  statements parameters marks []

end ByIndex

end Repeater.Hook
