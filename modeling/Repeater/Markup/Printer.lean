/-
  Repeater/Markup/Printer.lean
  ============================
  **Writing a tree as markup.**

  A node is first turned into pieces: texts that are always written, and places where a line may be
  broken, right before the start tag of an element and before the end tag of one that holds
  elements. The compact form leaves the breaks out. The pretty form starts a new line at each,
  indented by its depth, except at the very beginning.

  The contents of a template are written between its tags in place of its children. Void elements
  have no end tag, and inside scripts and styles texts are written as they are.
-/
import Repeater.Dom.Tree

namespace Repeater.Markup

open Dom

/-- Elements without contents and without an end tag. -/
def voidTags : List String :=
  ["area", "base", "br", "col", "embed", "hr", "img", "input", "link", "meta", "param", "source",
    "track", "wbr"]

/-- Elements whose text is written as it is. -/
def rawTags : List String := ["script", "style"]

/-- A character of a text in markup. -/
def escapeTextChar : Char → List Char
  | '&' => "&amp;".toList
  | '<' => "&lt;".toList
  | '>' => "&gt;".toList
  | c => [c]

/-- A character of an attribute value in markup. -/
def escapeValueChar : Char → List Char
  | '"' => "&quot;".toList
  | c => escapeTextChar c

/-- A text in markup. -/
def escapeText (s : String) : String := String.ofList (s.toList.flatMap escapeTextChar)

/-- An attribute value in markup. -/
def escapeValue (s : String) : String := String.ofList (s.toList.flatMap escapeValueChar)

/-- An attribute in markup; one with an empty value is written by its name alone. -/
def attributeText (a : Attribute) : String :=
  if a.value.isEmpty then " " ++ a.name else " " ++ a.name ++ "=\"" ++ escapeValue a.value ++ "\""

/-- The start tag of an element. -/
def startTag (e : Element) : String :=
  "<" ++ e.tag ++ String.join (e.attributes.map attributeText) ++ ">"

/-- The end tag of an element. -/
def endTag (e : Element) : String := "</" ++ e.tag ++ ">"

/-- A piece of markup. -/
inductive Piece where
  /-- A text that is always written. -/
  | text (s : String)
  /-- A place where a line may be broken, with the depth of what comes next. -/
  | lineBreak (depth : Nat)
deriving DecidableEq, Repr

/-- The pieces of the nodes below one node and at it, nested at most `limit` deep, where the node
    itself stands at `depth`. -/
def nodePieces (t : Tree) : Nat → Nat → NodeId → List Piece
  | 0, _, _ => []
  | limit + 1, depth, id =>
    match t.content? id with
    | none => []
    | some .document | some .fragment => (t.children id).flatMap (nodePieces t limit depth)
    | some (.element e) =>
      let opening := [.lineBreak depth, .text (startTag e)]
      if voidTags.contains e.tag then opening
      else
        let holder := e.contents.getD id
        let inside :=
          if rawTags.contains e.tag then ((t.children holder).filterMap t.text?).map .text
          else (t.children holder).flatMap (nodePieces t limit (depth + 1))
        let beforeEnd := if (t.elementChildren holder).isEmpty then [] else [.lineBreak depth]
        opening ++ inside ++ beforeEnd ++ [.text (endTag e)]
    | some (.text s) => [.text (escapeText s)]
    | some (.comment s) => [.text ("<!--" ++ s ++ "-->")]
    | some (.doctype name) => [.text ("<!DOCTYPE " ++ name ++ ">")]

/-- The pieces of a node with everything in it. -/
def outerPieces (t : Tree) (id : NodeId) : List Piece := nodePieces t t.size 0 id

/-- The pieces of everything in a node. -/
def innerPieces (t : Tree) (id : NodeId) : List Piece :=
  (t.children ((t.contents? id).getD id)).flatMap (nodePieces t t.size 0)

/-- A form of markup: pretty with the given indentation, or compact without one. -/
structure Style where
  indent : Option String := none
deriving DecidableEq, Repr

namespace Style

/-- The compact form. -/
def compact : Style := {}

/-- The pretty form with two spaces for each level. -/
def pretty : Style := { indent := some "  " }

/-- The markup after one more piece. -/
def write (style : Style) (out : String) : Piece → String
  | .text s => out ++ s
  | .lineBreak depth =>
    match style.indent with
    | none => out
    | some indent =>
      if out.isEmpty then out else out ++ "\n" ++ String.join (List.replicate depth indent)

/-- The markup of pieces. -/
def render (style : Style) (pieces : List Piece) : String := pieces.foldl style.write ""

end Style

/-- The markup of a node. -/
def outer (t : Tree) (id : NodeId) (style : Style := .compact) : String :=
  style.render (outerPieces t id)

/-- The markup of everything in a node. -/
def inner (t : Tree) (id : NodeId) (style : Style := .compact) : String :=
  style.render (innerPieces t id)

end Repeater.Markup
