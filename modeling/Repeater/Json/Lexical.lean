/-
  Repeater/Json/Lexical.lean
  ==========================
  **The smallest parts of JSON.**

  Blanks, words, numbers and strings. Every reader takes the characters that are left and gives what
  is left after it, or a `Fault` that tells a text that is not JSON from one that is cut short and
  from one that says something of the wrong shape.
-/
import Repeater.Text.Bytes
import Repeater.Text.Decimal

namespace Repeater.Json

open Text

/-- Why a text is refused. -/
inductive Fault where
  /-- The text is not JSON. -/
  | malformed
  /-- The text ends too early. -/
  | cut
  /-- The text is JSON of another shape than the one asked for. -/
  | shape
deriving DecidableEq, Repr

/-- A reader: it takes the characters that are left, and gives a value and what is left then. -/
abbrev Reader (α : Type) := StateT (List Char) (Except Fault) α

/-- A blank between the parts of JSON. -/
def isBlank (c : Char) : Bool := c == ' ' || c == '\n' || c == '\t' || c == '\r'

/-- Skips blanks and shows the character that comes next. -/
def peek : Reader (Option Char) := do
  modify (·.dropWhile isBlank)
  return (← get).head?

/-- Skips one character. -/
def skipChar : Reader Unit := modify (·.drop 1)

/-- Takes one character; `atEnd` is the fault where there is none. -/
def takeChar (atEnd : Fault := .cut) : Reader Char := do
  match ← get with
  | [] => throw atEnd
  | c :: rest => do
    set rest
    return c

/-- Takes the characters of a word. -/
def word : List Char → Reader Unit
  | [] => pure ()
  | w :: ws => do
    if (← takeChar) == w then word ws else throw .malformed

/-! ## Numbers -/

/-- Takes a run of digits. -/
def digitRun : Reader (List Char) := do
  let cs ← get
  set (cs.dropWhile Char.isDigit)
  return cs.takeWhile Char.isDigit

/-- Takes a digit and the run after it; `atEnd` is the fault where the text ends before. -/
def someDigits (atEnd : Fault) : Reader (List Char) := do
  let c ← takeChar atEnd
  if c.isDigit then return c :: (← digitRun) else throw .malformed

/-- The largest magnitude that a number may have: from here on, the nearest double would be
    infinite. -/
def numberBound : Nat := Nat.pow 2 1024 - Nat.pow 2 970

/-- Whether the number with the given digits before and after the point, and the given exponent, is
    within bounds. -/
def inBounds (whole fraction : List Char) (exponent : Int) : Bool :=
  let significand := (ofDigits? (whole ++ fraction)).getD 0
  let shift := exponent - fraction.length
  if significand = 0 then true
  else if shift > 308 then false
  else if shift ≥ 0 then significand * Nat.pow 10 shift.toNat < numberBound
  else if shift.natAbs > (whole ++ fraction).length then true
  else significand < numberBound * Nat.pow 10 shift.natAbs

/-- Reads a number after its sign, and gives whether it is within bounds. -/
def number (atEnd : Fault) : Reader Bool := do
  let first ← takeChar atEnd
  unless first.isDigit do throw .malformed
  let more ← digitRun
  if first == '0' && !more.isEmpty then throw .malformed
  let fraction ←
    if (← get).head? == some '.' then do
      skipChar
      someDigits atEnd
    else pure []
  let exponent ←
    if (← get).head?.any (fun c => c == 'e' || c == 'E') then do
      skipChar
      let sign := (← get).head?
      if sign == some '+' || sign == some '-' then skipChar
      let ds ← someDigits atEnd
      let magnitude : Int := (ofDigits? ds).getD 0
      pure (if sign == some '-' then -magnitude else magnitude)
    else pure 0
  return inBounds (first :: more) fraction exponent

/-! ## Strings -/

/-- Reads the four hexadecimal digits of an escape. The text is cut where fewer than four bytes are
    left. -/
def fourHexDigits : Reader Nat := do
  let cs ← get
  match (cs.take 4).mapM hexDigit? with
  | some [a, b, c, d] => do
    set (cs.drop 4)
    return ((a * 16 + b) * 16 + c) * 16 + d
  | _ => if byteCount cs < 4 then throw .cut else throw .malformed

/-- What the short escapes stand for. -/
def shortEscape? : Char → Option Char
  | '"' => some '"'
  | '\\' => some '\\'
  | '/' => some '/'
  | 'b' => some '\x08'
  | 'f' => some '\x0c'
  | 'n' => some '\n'
  | 'r' => some '\r'
  | 't' => some '\t'
  | _ => none

/-- Whether the code unit is the first half of a pair. -/
def isHighHalf (n : Nat) : Bool := 0xD800 ≤ n && n < 0xDC00

/-- Whether the code unit is the second half of a pair. -/
def isLowHalf (n : Nat) : Bool := 0xDC00 ≤ n && n < 0xE000

/-- Reads the code after a hexadecimal escape; halves of pairs must come in pairs. -/
def escapedCode : Reader Char := do
  let n ← fourHexDigits
  if isLowHalf n then throw .malformed
  if isHighHalf n then
    unless (← takeChar) == '\\' do throw .malformed
    unless (← takeChar) == 'u' do throw .malformed
    let m ← fourHexDigits
    unless isLowHalf m do throw .malformed
    return Char.ofNat ((n - 0xD800) * 0x400 + (m - 0xDC00) + 0x10000)
  return Char.ofNat n

/-- Reads an escape after its backslash. In a string that is only skipped, halves of pairs need not
    come in pairs. -/
def escape (skipping : Bool) : Reader Char := do
  let c ← takeChar
  if c == 'u' then
    if skipping then return Char.ofNat (← fourHexDigits) else escapedCode
  else match shortEscape? c with
    | some c => return c
    | none => throw .malformed

/-- Reads the string after its opening quote, which has at most `limit` characters; `before` is what
    has been read of it, in reverse. -/
def stringWithin (skipping : Bool) : Nat → List Char → Reader String
  | 0, _ => throw .cut
  | limit + 1, before => do
    let c ← takeChar
    if c == '"' then return String.ofList before.reverse
    else if c == '\\' then
      let c ← escape skipping
      stringWithin skipping limit (c :: before)
    else if c.toNat < 0x20 then throw .malformed
    else stringWithin skipping limit (c :: before)

/-- Reads a string after its opening quote. -/
def stringBody (skipping : Bool := false) : Reader String := do
  stringWithin skipping ((← get).length + 1) []

end Repeater.Json
