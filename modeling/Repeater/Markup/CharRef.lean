/-
  Repeater/Markup/CharRef.lean
  ============================
  **Character references.**

  A reference stands for a character by its number or by a name. Some names also count without the
  closing semicolon; in an attribute value they then do not count before a letter, a digit or an
  equals sign. Whatever is no reference stands for itself.
-/
import Repeater.Text.Decimal

namespace Repeater.Markup

/-- The character that takes the place of one that cannot be. -/
def replacement : Char := Char.ofNat 0xFFFD

/-- The names of references, without the ampersand. -/
def namedRefs : List (String × Char) :=
  [("amp;", '&'), ("amp", '&'), ("AMP;", '&'), ("AMP", '&'),
    ("lt;", '<'), ("lt", '<'), ("LT;", '<'), ("LT", '<'),
    ("gt;", '>'), ("gt", '>'), ("GT;", '>'), ("GT", '>'),
    ("quot;", '"'), ("quot", '"'), ("QUOT;", '"'), ("QUOT", '"'),
    ("nbsp;", Char.ofNat 0xA0), ("nbsp", Char.ofNat 0xA0),
    ("copy;", Char.ofNat 0xA9), ("copy", Char.ofNat 0xA9),
    ("COPY;", Char.ofNat 0xA9), ("COPY", Char.ofNat 0xA9),
    ("apos;", '\''), ("hellip;", Char.ofNat 0x2026), ("euro;", Char.ofNat 0x20AC)]

/-- What the numbers from 0x80 on stand for: most are read as positions of a Western code page. -/
def codePage : List Nat :=
  [0x20AC, 0x81, 0x201A, 0x192, 0x201E, 0x2026, 0x2020, 0x2021, 0x2C6, 0x2030, 0x160, 0x2039,
    0x152, 0x8D, 0x17D, 0x8F, 0x90, 0x2018, 0x2019, 0x201C, 0x201D, 0x2022, 0x2013, 0x2014, 0x2DC,
    0x2122, 0x161, 0x203A, 0x153, 0x9D, 0x17E, 0x178]

/-- The character of a number. -/
def charOfNumber (n : Nat) : Char :=
  if n = 0 || n > 0x10FFFF || (0xD800 ≤ n && n ≤ 0xDFFF) then replacement
  else if 0x80 ≤ n && n ≤ 0x9F then Char.ofNat (codePage.getD (n - 0x80) n)
  else Char.ofNat n

/-- Reads a reference by number after its ampersand and number sign; the semicolon may be missing. -/
def numberRef? (cs : List Char) : Option (Char × List Char) :=
  let (radix, cs) := match cs with
    | 'x' :: rest | 'X' :: rest => (16, rest)
    | _ => (10, cs)
  let isDigit (c : Char) := if radix = 16 then (Text.hexDigit? c).isSome else c.isDigit
  let ds := cs.takeWhile isDigit
  if ds.isEmpty then none
  else
    let n := ds.foldl (fun n d => n * radix + (Text.hexDigit? d).getD 0) 0
    let left := cs.dropWhile isDigit
    some (charOfNumber n, if left.head? == some ';' then left.drop 1 else left)

/-- Reads a reference by name after its ampersand; of several names that fit, the longest counts. -/
def nameRef? (inValue : Bool) (cs : List Char) : Option (Char × List Char) :=
  match namedRefs.find? (fun entry => entry.1.toList.isPrefixOf cs) with
  | none => none
  | some (name, c) =>
    let left := cs.drop name.length
    let goesOn := left.head?.any fun d => d.isAlphanum || d == '='
    if inValue && !name.endsWith ";" && goesOn then none else some (c, left)

/-- Reads a reference after its ampersand. -/
def reference? (inValue : Bool) (cs : List Char) : Option (Char × List Char) :=
  match cs with
  | '#' :: rest => numberRef? rest
  | _ => nameRef? inValue cs

/-- Replaces the references of a text of at most `limit` characters. -/
def decodeWithin (inValue : Bool) : Nat → List Char → List Char
  | 0, _ => []
  | _, [] => []
  | limit + 1, '&' :: rest =>
    match reference? inValue rest with
    | some (c, left) => c :: decodeWithin inValue limit left
    | none => '&' :: decodeWithin inValue limit rest
  | limit + 1, c :: rest => c :: decodeWithin inValue limit rest

/-- Replaces the references of a text, or of an attribute value. -/
def decode (inValue : Bool) (cs : List Char) : List Char := decodeWithin inValue cs.length cs

end Repeater.Markup
