/-
  Repeater/Text/Slice.lean
  ========================
  **Parts of a text between bytes.**

  A text can be cut at a byte only where one of its characters starts or where it ends.
-/

namespace Repeater.Text

/-- Cuts a text at a byte, unless the byte is inside a character or behind the end. -/
def splitAtByte? : Nat → List Char → Option (List Char × List Char)
  | 0, cs => some ([], cs)
  | _ + 1, [] => none
  | n + 1, c :: cs =>
    if c.utf8Size ≤ n + 1 then
      (splitAtByte? (n + 1 - c.utf8Size) cs).map fun (before, after) => (c :: before, after)
    else none

/-- The part of a text from a byte on. -/
def from? (start : Nat) (cs : List Char) : Option (List Char) :=
  (splitAtByte? start cs).map (·.2)

/-- The part of a text from a byte up to another, which must not come earlier. -/
def between? (start stop : Nat) (cs : List Char) : Option (List Char) := do
  let (front, _) ← splitAtByte? stop cs
  from? start front

end Repeater.Text
