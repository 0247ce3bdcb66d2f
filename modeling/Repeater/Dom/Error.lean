/-
  Repeater/Dom/Error.lean
  =======================
  **Why a change of a tree is refused.**
-/
import Repeater.Dom.Node

namespace Repeater.Dom

/-- The causes for which a tree refuses a change. -/
inductive DomError where
  /-- The id names no node. -/
  | notFound (id : NodeId)
  /-- The child is the parent or one of its ancestors. -/
  | hierarchy (parent child : NodeId)
  /-- The node is of a kind that does not take part in the operation. -/
  | invalidKind (id : NodeId)
  /-- The node is not a child of the parent. -/
  | notAChild (parent child : NodeId)
deriving DecidableEq, Repr

namespace DomError

/-- The text of an error for a reader. -/
def message : DomError → String
  | notFound id => s!"Node not found: {id.text}"
  | hierarchy parent child =>
    s!"Hierarchy request error: cannot insert {child.text} into {parent.text}"
  | invalidKind id => s!"Invalid node type for {id.text}"
  | notAChild parent child => s!"Node {child.text} is not a child of {parent.text}"

/-- The text of an error for a log: its cause and the nodes it is about. -/
def description : DomError → String
  | notFound id => s!"NotFound({id.description})"
  | hierarchy parent child =>
    "HierarchyRequest \x7b parent: " ++ parent.description ++ ", child: " ++ child.description
      ++ " \x7d"
  | invalidKind id => s!"InvalidNodeType({id.description})"
  | notAChild parent child =>
    "NotAChild \x7b parent: " ++ parent.description ++ ", child: " ++ child.description ++ " \x7d"

end DomError

end Repeater.Dom
