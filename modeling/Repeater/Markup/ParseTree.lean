/-
  Repeater/Markup/ParseTree.lean
  ==============================
  **Parse trees, and how they are planted into a document.**

  Reading markup yields a finite tree. It is planted into the arena of a document in the order of
  the source: a node, then the contents of a template, then its children. Processing instructions
  and texts that are all blank are left out.
-/
import Repeater.Dom.Document

namespace Repeater.Markup

open Dom

/-- A node of a parse tree. The contents of a template are kept apart from its children. -/
inductive ParseNode where
  | doctype (name : String)
  | text (s : String)
  | comment (s : String)
  | instruction (s : String)
  | element (name : String) (attributes : List Attribute) (contents children : List ParseNode)
deriving Repr

mutual

/-- Plants a node as the last child of `parent`. -/
def ParseNode.plant (parent : NodeId) : ParseNode → Edit Unit
  | .doctype name => do
    let id ← Edit.create (.doctype name)
    discard (Edit.append parent id)
  | .text s => do
    unless Text.isAllBlank s do
      let id ← Edit.create (.text s)
      discard (Edit.append parent id)
  | .comment s => do
    let id ← Edit.create (.comment s)
    discard (Edit.append parent id)
  | .instruction _ => pure ()
  | .element name attributes contents children => do
    let id ← Edit.createElement name
    attributes.forM fun a => Edit.setAttribute id a.name a.value
    let _ ← Edit.append parent id
    if let some fragment := (← get).contents? id then plantAll fragment contents
    plantAll id children

/-- Plants nodes as the last children of `parent`, in order. -/
def plantAll (parent : NodeId) : List ParseNode → Edit Unit
  | [] => pure ()
  | node :: nodes => do
    node.plant parent
    plantAll parent nodes

end

/-- The document with the given top nodes. -/
def documentOf (url : String) (top : List ParseNode) : Document :=
  Document.locate
    { Document.empty url with tree := ((plantAll .document top).run Tree.empty).2 }

end Repeater.Markup
