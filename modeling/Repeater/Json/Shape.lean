/-
  Repeater/Json/Shape.lean
  ========================
  **Reading JSON of a given shape.**

  A text, a list of texts, an object whose values are texts, and the pieces for reading a record.
  Where a value of another shape stands, it is read only as far as it takes to see whether it is
  JSON at all.
-/
import Repeater.Json.Lexical

namespace Repeater.Json

/-! ## Values that are not wanted -/

/-- Refuses the value that starts with `c`: it is of another shape, unless it is not JSON. -/
def refuse {α : Type} (c : Char) : Reader α := do
  match c with
  | 'n' => word "null".toList
  | 't' => word "true".toList
  | 'f' => word "false".toList
  | '"' =>
    skipChar
    let _ ← stringBody
  | '[' | '{' => pure ()
  | _ =>
    if c == '-' || c.isDigit then
      if c == '-' then skipChar
      unless ← number .cut do throw .malformed
    else throw .malformed
  throw .shape

mutual

/-- Skips a value that nests at most `depth` deep; the character that it starts with comes next. -/
def skipValue : Nat → Reader Unit
  | 0 => throw .malformed
  | depth + 1 => do
    match ← peek with
    | none => throw .cut
    | some 'n' => word "null".toList
    | some 't' => word "true".toList
    | some 'f' => word "false".toList
    | some '"' =>
      skipChar
      let _ ← stringBody true
    | some '[' =>
      skipChar
      if (← peek) == some ']' then skipChar else skipEntries depth false
    | some '{' =>
      skipChar
      if (← peek) == some '}' then skipChar else skipEntries depth true
    | some c =>
      if c == '-' || c.isDigit then
        if c == '-' then skipChar
        let _ ← number .malformed
      else throw .malformed

/-- Skips the entries of a list, or of an object when `named`, and its closing bracket. -/
def skipEntries : Nat → Bool → Reader Unit
  | 0, _ => throw .malformed
  | depth + 1, named => do
    if named then
      match ← peek with
      | some '"' =>
        skipChar
        let _ ← stringBody true
        match ← peek with
        | some ':' => skipChar
        | some _ => throw .malformed
        | none => throw .cut
      | some _ => throw .malformed
      | none => throw .cut
    skipValue depth
    match ← peek with
    | some ',' =>
      skipChar
      skipEntries depth named
    | some c =>
      if c == (if named then '}' else ']') then skipChar else throw .malformed
    | none => throw .cut

end

/-- Skips a value of any shape. -/
def skipAny : Reader Unit := do skipValue (2 * (← get).length + 2)

/-! ## Values that are wanted -/

/-- Reads a string. -/
def text : Reader String := do
  match ← peek with
  | none => throw .cut
  | some '"' =>
    skipChar
    stringBody
  | some c => refuse c

/-- Whether another element of a list follows; `first` before the first one. -/
def moreElements (first : Bool) : Reader Bool := do
  match ← peek with
  | none => throw .cut
  | some ']' => return false
  | some c =>
    if first then return true
    unless c == ',' do throw .malformed
    skipChar
    match ← peek with
    | none => throw .cut
    | some ']' => throw .malformed
    | some _ => return true

/-- Takes the bracket that closes a list; nothing else may follow the last element asked for. -/
def closeList : Reader Unit := do
  match ← peek with
  | none => throw .cut
  | some ']' => skipChar
  | some _ => throw .malformed

/-- Reads the elements of a list, at most `limit`, after its opening bracket. -/
def textsWithin : Nat → Bool → Reader (List String)
  | 0, _ => throw .cut
  | limit + 1, first => do
    if ← moreElements first then
      let s ← text
      return s :: (← textsWithin limit false)
    else return []

/-- Reads a list of strings. -/
def texts : Reader (List String) := do
  match ← peek with
  | none => throw .cut
  | some '[' =>
    skipChar
    let list ← textsWithin ((← get).length + 1) true
    closeList
    return list
  | some c => refuse c

/-- The key of the next entry of an object, or nothing where the object ends; `first` before the
    first one. -/
def nextKey? (first : Bool) : Reader (Option String) := do
  match ← peek with
  | none => throw .cut
  | some '}' => return none
  | some c =>
    unless first do
      unless c == ',' do throw .malformed
      skipChar
    match ← peek with
    | none => throw .cut
    | some '"' => do
      skipChar
      return some (← stringBody)
    | some _ => throw .malformed

/-- Takes the colon between a key and its value. -/
def colon : Reader Unit := do
  match ← peek with
  | none => throw .cut
  | some ':' => skipChar
  | some _ => throw .malformed

/-- Reads the entries of an object whose values are strings, at most `limit`, after its opening
    bracket. -/
def entriesWithin : Nat → Bool → Reader (List (String × String))
  | 0, _ => throw .cut
  | limit + 1, first => do
    match ← nextKey? first with
    | none => return []
    | some key =>
      colon
      let value ← text
      return (key, value) :: (← entriesWithin limit false)

/-- Reads an object whose values are strings, as its entries in order. -/
def entries : Reader (List (String × String)) := do
  match ← peek with
  | none => throw .cut
  | some '{' =>
    skipChar
    let list ← entriesWithin ((← get).length + 1) true
    skipChar
    return list
  | some c => refuse c

/-- Reads a whole text: nothing but blanks may follow the value. -/
def readAll {α : Type} (reader : Reader α) (s : String) : Except Fault α := do
  let (value, left) ← reader.run s.toList
  if left.all isBlank then return value else throw .malformed

end Repeater.Json
