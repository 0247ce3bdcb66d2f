/-
  Repeater/Dom/Selector.lean
  ==========================
  **Simple selectors.**

  A selector asks one thing of an element: its tag, one of its classes, its id, that an attribute
  exists or has a certain value, or nothing at all. `parse?` reads the written form and `written`
  gives it back.
-/
import Repeater.Dom.Tree
import Repeater.Text.Blank
import Repeater.Text.LowerCase
import Repeater.Text.Split

namespace Repeater.Dom

open Text

/-- What is asked of an element. -/
inductive Selector where
  | universal
  | tag (name : String)
  | className (name : String)
  | identifier (name : String)
  | hasAttribute (name : String)
  | attributeIs (name value : String)
deriving DecidableEq, Repr

/-- The classes of an element: the words of its attribute `class`. -/
def Element.classes (e : Element) : List String := words ((e.get? "class").getD "")

namespace Selector

/-! ## Matching -/

/-- Whether the element is what the selector asks for. Tags are compared without regard to ASCII
    case. -/
def accepts (e : Element) : Selector → Bool
  | universal => true
  | tag name => e.tag.toLower == name.toLower
  | className name => e.classes.contains name
  | identifier name => e.get? "id" == some name
  | hasAttribute name => (e.get? name).isSome
  | attributeIs name value => e.get? name == some value

/-! ## Reading -/

/-- A value without the pair of double or single quotes around it, if it has one. -/
def unquote (value : List Char) : List Char :=
  let within (quote : Char) := (stripStart? [quote] value).bind (stripEnd? [quote])
  ((within '"').or (within '\'')).getD value

/-- Reads what stands between the brackets: a name, or a name and a value around the first equals
    sign. The name must not be blank. -/
def ofBrackets? (body : List Char) : Option Selector :=
  match splitFirst? '=' body with
  | none =>
    let name := trimList body
    if name.isEmpty then none else some (hasAttribute (String.ofList name))
  | some (name, value) =>
    let name := trimList name
    if name.isEmpty then none
    else some (attributeIs (String.ofList name) (String.ofList (unquote (trimList value))))

/-- Reads a selector from characters without blank ends. -/
def ofTrimmed? (cs : List Char) : Option Selector :=
  match cs with
  | [] => none
  | ['*'] => some universal
  | '#' :: name => some (identifier (String.ofList name))
  | '.' :: name => some (className (String.ofList name))
  | _ =>
    match (stripStart? ['['] cs).bind (stripEnd? [']']) with
    | some body => ofBrackets? body
    | none => some (tag (lowerCase (String.ofList cs)))

/-- Reads the written form of a selector: `*`, `#id`, `.class`, `[name]`, `[name=value]` with or
    without quotes around the value, or a tag, which is lower-cased. -/
def parse? (s : String) : Option Selector := ofTrimmed? (trimList s.toList)

/-! ## Writing -/

/-- The written form of a selector. -/
def written : Selector → String
  | universal => "*"
  | tag name => name
  | className name => "." ++ name
  | identifier name => "#" ++ name
  | hasAttribute name => "[" ++ name ++ "]"
  | attributeIs name value => "[" ++ name ++ "=\"" ++ value ++ "\"]"

end Selector

namespace Tree

/-! ## Queries -/

/-- Whether the node is an element the selector accepts. -/
def satisfies (t : Tree) (id : NodeId) (selector : Selector) : Bool :=
  (t.element? id).any fun e => selector.accepts e

/-- All nodes below `root` that the selector accepts, in document order. -/
def select (t : Tree) (root : NodeId) (selector : Selector) : List NodeId :=
  (t.descendants root).filter fun id => t.satisfies id selector

/-- The first node below `root` that the selector accepts. -/
def selectFirst? (t : Tree) (root : NodeId) (selector : Selector) : Option NodeId :=
  (t.descendants root).find? fun id => t.satisfies id selector

/-- The nodes the selector accepts among `root` and all nodes below it. -/
def selectFrom (t : Tree) (root : NodeId) (selector : Selector) : List NodeId :=
  if t.satisfies root selector then root :: t.select root selector else t.select root selector

end Tree

end Repeater.Dom
