/-
  Repeater/Dom/Node.lean
  ======================
  **Nodes of a document.**

  A node knows its parent and the ordered list of its children, by their ids, and carries a content:
  what kind of node it is and what it says. Elements have a lower-case tag and a list of attributes
  in source order; a `template` element also names the fragment that holds its contents, which are
  not its children.
-/

namespace Repeater.Dom

/-- Names a node by its position in the arena of a tree. The id `none` names no node. -/
inductive NodeId where
  | none
  | slot (index : Nat)
deriving DecidableEq, Repr, Inhabited

namespace NodeId

/-- The document node of every tree. -/
def document : NodeId := slot 0

/-- Whether the id is other than the id that names no node. -/
def isSome : NodeId → Bool
  | none => false
  | slot _ => true

/-- An id as messages show it. -/
def text : NodeId → String
  | none => "#none"
  | slot index => s!"#{index}"

/-- An id as descriptions show it: the position in the arena, where the largest 32-bit number
    stands for no node. -/
def description : NodeId → String
  | none => "NodeId(4294967295)"
  | slot index => s!"NodeId({index})"

end NodeId

/-- An attribute of an element. -/
structure Attribute where
  name : String
  value : String
deriving DecidableEq, Repr

/-- What an element says: its tag, its attributes in source order, and for a template the fragment
    that holds its contents. -/
structure Element where
  tag : String
  attributes : List Attribute := []
  contents : Option NodeId := none
deriving DecidableEq, Repr

namespace Element

/-- An element without attributes. Tags are kept in ASCII lower case. -/
def ofTag (tag : String) : Element where
  tag := tag.toLower

/-- The value of an attribute. -/
def get? (e : Element) (name : String) : Option String :=
  (e.attributes.find? (·.name == name)).map (·.value)

/-- Sets the first attribute of the name, or adds one at the end of the list. -/
def setIn (name value : String) : List Attribute → List Attribute
  | [] => [⟨name, value⟩]
  | a :: rest => if a.name == name then ⟨a.name, value⟩ :: rest else a :: setIn name value rest

/-- Sets an attribute; one that exists keeps its position. -/
def set (e : Element) (name value : String) : Element :=
  { e with attributes := setIn name value e.attributes }

/-- Takes the first attribute of the name away. -/
def erase (e : Element) (name : String) : Element :=
  { e with attributes := e.attributes.eraseP (·.name == name) }

/-- Whether this is a template. -/
def isTemplate (e : Element) : Bool := e.tag == "template"

end Element

/-- The kind of a node together with what it says. -/
inductive Content where
  | document
  | fragment
  | doctype (name : String)
  | element (e : Element)
  | text (s : String)
  | comment (s : String)
deriving DecidableEq, Repr

namespace Content

/-- Whether nodes of this content may have children. -/
def holdsChildren : Content → Bool
  | document | fragment | element _ => true
  | doctype _ | text _ | comment _ => false

/-- Whether this is a fragment, a container that gives its children away when it is inserted. -/
def isFragment : Content → Bool
  | fragment => true
  | _ => false

/-- The element, if the content is one. -/
def element? : Content → Option Element
  | element e => some e
  | _ => none

/-- The string of a text. -/
def text? : Content → Option String
  | text s => some s
  | _ => none

end Content

/-- A node of a tree. A detached node has no parent. -/
structure Node where
  content : Content
  parent : Option NodeId := none
  children : List NodeId := []
deriving DecidableEq, Repr

end Repeater.Dom
