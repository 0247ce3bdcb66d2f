/-
  Repeater/Dom/Tree.lean
  ======================
  **Trees as arenas.**

  A tree is an arena of nodes; slot 0 holds the document node. Nodes are only ever added, so an id
  handed out once names the same node for good: a removed node is detached and stays in the arena.

  Everything the rest of the library reads of a tree comes from `get?`, and everything it changes
  goes through `modify` and `push`; the lemmas of the section on looking up say how the three
  interact.
-/
import Repeater.Dom.Node

namespace Repeater.Dom

/-- An arena of nodes. -/
structure Tree where
  nodes : Array Node
deriving DecidableEq, Repr

namespace Tree

/-- The tree that holds nothing but the document node. -/
def empty : Tree := ⟨#[{ content := .document }]⟩

instance : Inhabited Tree := ⟨empty⟩

/-- The number of nodes in the arena, detached ones included. -/
def size (t : Tree) : Nat := t.nodes.size

/-! ## Looking up and changing one node -/

/-- The node an id names. -/
def get? (t : Tree) : NodeId → Option Node
  | .none => none
  | .slot i => t.nodes[i]?

/-- Changes the node an id names, if it names one. -/
def modify (t : Tree) (id : NodeId) (f : Node → Node) : Tree :=
  match id with
  | .none => t
  | .slot i => ⟨t.nodes.modify i f⟩

/-- Adds a detached node and gives its id. -/
def push (t : Tree) (content : Content) : NodeId × Tree :=
  (.slot t.size, ⟨t.nodes.push { content }⟩)

theorem get?_modify (t : Tree) (id other : NodeId) (f : Node → Node) :
    (t.modify id f).get? other = if id = other then (t.get? other).map f else t.get? other := by
  cases id with
  | none =>
    cases other <;> simp [modify, get?]
  | slot i =>
    cases other with
    | none => simp [get?]
    | slot j => simp [modify, get?, Array.getElem?_modify]

theorem size_modify (t : Tree) (id : NodeId) (f : Node → Node) :
    (t.modify id f).size = t.size := by
  cases id <;> simp [modify, size]

theorem push_fst (t : Tree) (content : Content) : (t.push content).1 = .slot t.size := rfl

theorem size_push (t : Tree) (content : Content) : (t.push content).2.size = t.size + 1 := by
  simp [push, size]

theorem get?_push (t : Tree) (content : Content) (id : NodeId) :
    (t.push content).2.get? id = if id = .slot t.size then some { content } else t.get? id := by
  cases id with
  | none => simp [get?]
  | slot i => simp [push, get?, Array.getElem?_push, size]

/-! ## What a tree shows of a node -/

/-- The content of a node. -/
def content? (t : Tree) (id : NodeId) : Option Content := (t.get? id).map (·.content)

/-- The element a node is. -/
def element? (t : Tree) (id : NodeId) : Option Element := (t.content? id).bind Content.element?

/-- Whether the node is an element. -/
def isElement (t : Tree) (id : NodeId) : Bool := (t.element? id).isSome

/-- The string of a text node. -/
def text? (t : Tree) (id : NodeId) : Option String := (t.content? id).bind Content.text?

/-- The tag of an element. -/
def tag? (t : Tree) (id : NodeId) : Option String := (t.element? id).map (·.tag)

/-- The value of an attribute of an element. -/
def attribute? (t : Tree) (id : NodeId) (name : String) : Option String :=
  (t.element? id).bind (·.get? name)

/-- The attributes of an element, in order; other nodes have none. -/
def attributes (t : Tree) (id : NodeId) : List Attribute :=
  ((t.element? id).map (·.attributes)).getD []

/-- The fragment that holds the contents of a template. -/
def contents? (t : Tree) (id : NodeId) : Option NodeId := (t.element? id).bind (·.contents)

/-- The parent of a node, if it is attached. -/
def parent? (t : Tree) (id : NodeId) : Option NodeId := (t.get? id).bind (·.parent)

/-- The children of a node, in order. -/
def children (t : Tree) (id : NodeId) : List NodeId := ((t.get? id).map (·.children)).getD []

/-- The children that are elements, in order. -/
def elementChildren (t : Tree) (id : NodeId) : List NodeId :=
  (t.children id).filter t.isElement

/-- The first child. -/
def firstChild? (t : Tree) (id : NodeId) : Option NodeId := (t.children id).head?

/-- The last child. -/
def lastChild? (t : Tree) (id : NodeId) : Option NodeId := (t.children id).getLast?

/-- The entry right after the first `x` of a list. -/
def entryAfter? (x : NodeId) : List NodeId → Option NodeId
  | [] => none
  | y :: rest => if y = x then rest.head? else entryAfter? x rest

/-- The sibling right after a node. -/
def nextSibling? (t : Tree) (id : NodeId) : Option NodeId :=
  (t.parent? id).bind fun p => entryAfter? id (t.children p)

/-- The sibling right before a node. -/
def previousSibling? (t : Tree) (id : NodeId) : Option NodeId :=
  (t.parent? id).bind fun p => entryAfter? id (t.children p).reverse

/-! ## Walking a tree

No node is its own ancestor, so a walk meets each node at most once and takes at most as many steps
as the arena has nodes. -/

/-- Visits the `pending` nodes and all nodes below them, in document order, for at most `steps`
    nodes. -/
def walk (t : Tree) : Nat → List NodeId → List NodeId
  | _, [] => []
  | 0, _ => []
  | steps + 1, id :: pending => id :: walk t steps (t.children id ++ pending)

/-- All nodes below a node, in document order. The contents of a template are not below it. -/
def descendants (t : Tree) (id : NodeId) : List NodeId := t.walk t.size (t.children id)

/-- Follows parents upwards for at most `steps` nodes. -/
def climb (t : Tree) : Nat → Option NodeId → List NodeId
  | steps + 1, some id => id :: climb t steps (t.parent? id)
  | _, _ => []

/-- The ancestors of a node, from its parent upwards. -/
def ancestors (t : Tree) (id : NodeId) : List NodeId := t.climb t.size (t.parent? id)

/-- Whether `above` is `below` itself or one of its ancestors. -/
def isInclusiveAncestor (t : Tree) (above below : NodeId) : Bool :=
  above = below || (t.ancestors below).contains above

/-- Whether a node is the document node or below it. -/
def isConnected (t : Tree) (id : NodeId) : Bool := t.isInclusiveAncestor .document id

end Tree

end Repeater.Dom
