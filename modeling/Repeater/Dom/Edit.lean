/-
  Repeater/Dom/Edit.lean
  ======================
  **Changing a tree.**

  An `Edit` changes a tree and may fail; what it has changed before it fails stays changed. The
  edits are those of a document: creating nodes, inserting and removing them, attributes, and the
  text of a node. Copying is in `Repeater.Dom.Copy`.

  Detaching and placing one node are pure functions on trees. An insertion first checks that it is
  allowed, and a node that is not a fragment is then moved in one step; a fragment gives its
  children away one by one, each with its own check.
-/
import Repeater.Dom.Error
import Repeater.Dom.Tree

namespace Repeater.Dom

/-- A change of a tree that may fail and gives a value. -/
abbrev Edit (α : Type) := ExceptT DomError (StateM Tree) α

namespace Tree

/-! ## Detaching and placing -/

/-- Takes a node out of its parent's children, if it is attached. -/
def detach (t : Tree) (id : NodeId) : Tree :=
  match t.parent? id with
  | none => t
  | some p =>
    (t.modify p fun n => { n with children := n.children.erase id }).modify id
      fun n => { n with parent := none }

/-- The list with `x` put right before the first `reference`, or at the end without one. -/
def listWith (x : NodeId) (reference : Option NodeId) (ids : List NodeId) : List NodeId :=
  match reference with
  | none => ids ++ [x]
  | some r => ids.takeWhile (· ≠ r) ++ x :: ids.dropWhile (· ≠ r)

/-- Makes a detached node a child of `parent`, right before `reference` or as the last child. -/
def place (t : Tree) (parent child : NodeId) (reference : Option NodeId) : Tree :=
  (t.modify parent fun n => { n with children := listWith child reference n.children }).modify child
    fun n => { n with parent := some parent }

/-- Moves a node to its new place. A node that is to stand before itself stays before the sibling
    it had. -/
def relocate (t : Tree) (parent child : NodeId) (reference : Option NodeId) : Tree :=
  let reference := if reference = some child then t.nextSibling? child else reference
  (t.detach child).place parent child reference

/-- The content of the node to insert, unless the parent, the node or the reference does not allow
    an insertion. -/
def checkPlace (t : Tree) (parent child : NodeId) (reference : Option NodeId) :
    Except DomError Content := do
  let some holder := t.content? parent | throw (.notFound parent)
  unless holder.holdsChildren do throw (.invalidKind parent)
  let some content := t.content? child | throw (.notFound child)
  if let some r := reference then
    unless t.parent? r = some parent do throw (.notAChild parent r)
  return content

end Tree

namespace Edit

/-! ## Creating nodes -/

/-- Adds a detached node. -/
def create (content : Content) : Edit NodeId := do
  let (id, t) := (← get).push content
  set t
  return id

/-- Adds a detached element. A template also gets an empty fragment for its contents. -/
def createElement (tag : String) : Edit NodeId := do
  let element := Element.ofTag tag
  let id ← create (.element element)
  if element.isTemplate then
    let contents ← create .fragment
    modify (·.modify id fun n => { n with content := .element { element with contents } })
  return id

/-! ## Inserting and removing -/

/-- Inserts one node that is not a fragment. -/
def insertNode (parent child : NodeId) (reference : Option NodeId) : Edit Unit := do
  let t ← get
  let _ ← t.checkPlace parent child reference
  if t.isInclusiveAncestor child parent then throw (.hierarchy parent child)
  set (t.relocate parent child reference)

/-- Inserts a node before `reference`, or as the last child; a fragment is replaced by its
    children. -/
def insertBefore (parent child : NodeId) (reference : Option NodeId) : Edit NodeId := do
  let t ← get
  let content ← t.checkPlace parent child reference
  if content.isFragment then
    (t.children child).forM fun kid => insertNode parent kid reference
  else
    insertNode parent child reference
  return child

/-- Inserts a node as the last child. -/
def append (parent child : NodeId) : Edit NodeId := insertBefore parent child none

/-- Removes a child of `parent`. -/
def removeChild (parent child : NodeId) : Edit NodeId := do
  let t ← get
  unless t.parent? child = some parent do throw (.notAChild parent child)
  set (t.detach child)
  return child

/-- Removes a node from wherever it is. -/
def remove (id : NodeId) : Edit NodeId := do
  let t ← get
  if (t.get? id).isNone then throw (.notFound id)
  set (t.detach id)
  return id

/-! ## Attributes -/

/-- The element an id names, to be changed. -/
def theElement (id : NodeId) : Edit Element := do
  let some content := (← get).content? id | throw (.notFound id)
  let some element := content.element? | throw (.invalidKind id)
  return element

/-- Sets an attribute of an element. -/
def setAttribute (id : NodeId) (name value : String) : Edit Unit := do
  let element ← theElement id
  modify (·.modify id fun n => { n with content := .element (element.set name value) })

/-- Takes an attribute away and gives the value it had. -/
def removeAttribute (id : NodeId) (name : String) : Edit (Option String) := do
  let element ← theElement id
  modify (·.modify id fun n => { n with content := .element (element.erase name) })
  return element.get? name

/-! ## Text -/

/-- Sets the string of a text node; of any other node, replaces all children by one text, or by
    nothing when the text is empty. -/
def setText (id : NodeId) (text : String) : Edit Unit := do
  let some node := (← get).get? id | throw (.notFound id)
  match node.content with
  | .text _ => modify (·.modify id fun n => { n with content := .text text })
  | _ =>
    node.children.forM fun kid => modify (·.detach kid)
    unless text.isEmpty do
      let child ← create (.text text)
      let _ ← append id child

end Edit

namespace Tree

/-- The string of a text node, or the strings of all texts below any other node in one. -/
def textContent (t : Tree) (id : NodeId) : String :=
  match t.text? id with
  | some s => s
  | none => String.join ((t.descendants id).filterMap t.text?)

end Tree

end Repeater.Dom
