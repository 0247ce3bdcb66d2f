/-
  Repeater/Dom/Document.lean
  ==========================
  **Documents.**

  A document is a tree with an address and a note of where its `html`, `head` and `body` elements
  are. The note is taken when the document is made and again on `locate`; editing the tree does not
  change it.
-/
import Repeater.Dom.Edit
import Repeater.Dom.Selector

namespace Repeater.Dom

/-- A tree with an address and the noted places of its main elements. -/
structure Document where
  tree : Tree
  url : String
  html : NodeId := .none
  head : NodeId := .none
  body : NodeId := .none
deriving Repr

namespace Document

/-- A document whose tree holds nothing but the document node. -/
def empty (url : String) : Document := { tree := .empty, url }

/-- The first child of `parent` that is an element with the tag. -/
def childWithTag (t : Tree) (parent : NodeId) (tag : String) : NodeId :=
  ((t.elementChildren parent).find? fun id => t.tag? id == some tag).getD .none

/-- Takes note of the main elements anew. -/
def locate (d : Document) : Document :=
  let html := childWithTag d.tree .document "html"
  { d with html, head := childWithTag d.tree html "head", body := childWithTag d.tree html "body" }

/-- Makes the elements of a new document. -/
def skeleton : Edit Unit := do
  let html ← Edit.createElement "html"
  let head ← Edit.createElement "head"
  let body ← Edit.createElement "body"
  let _ ← Edit.append .document html
  let _ ← Edit.append html head
  let _ ← Edit.append html body

/-- A document with an empty head and an empty body. -/
def new (url : String) : Document := locate { tree := (skeleton.run Tree.empty).2, url }

/-- The text of the first title in the noted head. -/
def title (d : Document) : String := d.tree.textContent (childWithTag d.tree d.head "title")

/-- The first element with the id. -/
def elementById? (d : Document) (id : String) : Option NodeId :=
  d.tree.selectFirst? .document (.identifier id)

end Document

end Repeater.Dom
