/-
  Repeater/Hook/Value.lean
  ========================
  **Values in hooks.**

  Hook code computes with integers, texts, elements and events. Two forms of a value as text exist:
  `render` is what alerts, log lines and attributes receive, and `plain` is what `+` puts together,
  which does not look at the tree.
-/
import Repeater.Dom.Tree
import Repeater.Event.Basic
import Repeater.Text.Decimal

namespace Repeater.Hook

open Dom Text

/-- A value that a hook receives or computes. -/
inductive Value where
  | null
  | int (n : Int)
  | text (s : String)
  | element (id : NodeId)
  | event (e : Event)
deriving DecidableEq, Repr

namespace Value

/-- The node, if the value is an element. -/
def element? : Value → Option NodeId
  | element id => some id
  | _ => none

/-- The text of a value in messages and attributes; elements show their tag. -/
def render (t : Tree) : Value → String
  | null => "null"
  | int n => String.ofList (decimal n)
  | text s => s
  | element id =>
    match t.tag? id with
    | some tag => s!"<{tag}>"
    | none => s!"<node {id.text}>"
  | event e => e.kind.name

/-- The text of a value in a concatenation; elements show their id. -/
def plain : Value → String
  | null => "null"
  | int n => String.ofList (decimal n)
  | text s => s
  | element id => s!"[element {id.text}]"
  | event e => e.kind.name

end Value

end Repeater.Hook
