/-
  Repeater/Dom/Copy.lean
  ======================
  **Copying a node.**

  A shallow copy has the content of the node and no children; the copy of a template gets an empty
  fragment of its own. A deep copy has copies of all children, and of the contents of templates at
  any depth. Copies are new nodes: the nodes copied are only read.
-/
import Repeater.Dom.Edit

namespace Repeater.Dom.Edit

/-- Copies a node whose children and template contents nest at most `depth` deep. -/
def copyWithin : Nat → NodeId → Bool → Edit NodeId
  | 0, id, _ => throw (.notFound id)
  | depth + 1, id, deep => do
    let some node := (← get).get? id | throw (.notFound id)
    let copy ← match node.content with
      | .element element => do
        let copy ← create (.element { element with contents := none })
        if let some contents := element.contents then
          let contents ← if deep then copyWithin depth contents true else create .fragment
          modify (·.modify copy fun n => { n with content := .element { element with contents } })
        pure copy
      | content => create content
    if deep then
      node.children.forM fun kid => do
        let child ← copyWithin depth kid true
        let _ ← append copy child
    return copy

/-- Copies a node, with everything in it when `deep`. No nesting is deeper than the arena has
    nodes, unless a template holds itself. -/
def copy (id : NodeId) (deep : Bool) : Edit NodeId := do
  copyWithin (← get).size id deep

end Repeater.Dom.Edit
