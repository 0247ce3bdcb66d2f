/-
  Repeater/Text/Blank.lean
  ========================
  **Blank characters, trimming and words.**

  A character is *blank* when it has the Unicode property White_Space. `trim` takes the blank
  characters off both ends of a text; `words` splits a text into its maximal runs of characters that
  are not blank.
-/
import Repeater.Text.CharSet

namespace Repeater.Text

/-- The characters with the property White_Space. -/
def blanks : CharSet where
  bounds := [
    0x9, 0xE, 0x20, 0x21, 0x85, 0x86, 0xA0, 0xA1, 0x1680, 0x1681, 0x2000, 0x200B, 0x2028, 0x202A,
    0x202F, 0x2030, 0x205F, 0x2060, 0x3000, 0x3001]

/-- A blank character, such as a space, a line break or a no-break space. -/
def isBlank (c : Char) : Bool := blanks.contains c

/-- The characters without the blank ones at both ends. -/
def trimList (cs : List Char) : List Char :=
  ((cs.dropWhile isBlank).reverse.dropWhile isBlank).reverse

/-- The text without the blank characters at both ends. -/
def trim (s : String) : String := String.ofList (trimList s.toList)

/-- Whether the text holds nothing but blank characters. -/
def isAllBlank (s : String) : Bool := s.toList.all isBlank

/-- The runs of characters that are not blank, where `run` holds the characters of the run read so
    far in reverse. -/
def wordsFrom (run : List Char) : List Char → List (List Char)
  | [] => if run.isEmpty then [] else [run.reverse]
  | c :: rest =>
    if isBlank c then
      if run.isEmpty then wordsFrom [] rest else run.reverse :: wordsFrom [] rest
    else wordsFrom (c :: run) rest

/-- The words of a text: its maximal runs of characters that are not blank, in order. -/
def words (s : String) : List String := (wordsFrom [] s.toList).map String.ofList

end Repeater.Text
