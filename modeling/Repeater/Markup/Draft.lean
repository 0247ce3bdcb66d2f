/-
  Repeater/Markup/Draft.lean
  ==========================
  **The draft of a document that is being read.**

  While markup is read, the nodes found so far are kept in a draft: an arena whose slot 0 is the
  document, together with the elements that are still open, the formatting elements that are to be
  opened again in later blocks, and what else the rules of construction remember. When the markup
  has ended the draft becomes a parse tree.
-/
import Repeater.Markup.ParseTree
import Repeater.Markup.Token

namespace Repeater.Markup

open Dom

/-- The vocabulary an element belongs to. -/
inductive Space where
  | html | svg | math
deriving DecidableEq, Repr

/-- What a node of a draft is. -/
inductive DraftContent where
  | document
  /-- The contents of a template. -/
  | contents
  | doctype (name : String)
  | text (cs : List Char)
  | comment (s : String)
  | element (space : Space) (name : String) (attributes : List Attribute)
deriving Repr

/-- A node of a draft; the newest child comes first. -/
structure DraftNode where
  content : DraftContent
  children : List Nat := []
  /-- The node that holds the contents of a template. -/
  contents : Option Nat := none
deriving Repr

/-- The rules that are in force for the next token. -/
inductive Mode where
  | initial | beforeHtml | beforeHead | inHead | afterHead | inBody | inText
  | inTable | inTableText | inCaption | inColumnGroup | inTableBody | inRow | inCell
  | inSelect | inSelectInTable | inTemplate | afterBody | afterAfterBody
deriving DecidableEq, Repr

/-- The document as far as it has been read. -/
structure Draft where
  nodes : Array DraftNode := #[{ content := .document }]
  /-- The open elements, the innermost first. -/
  stack : List Nat := []
  /-- The formatting elements, the newest first; `none` marks where a block begins from which no
      formatting is carried over. -/
  formatting : List (Option Nat) := []
  mode : Mode := .initial
  /-- The mode to go back to after a text. -/
  resume : Mode := .inBody
  /-- The modes of the open templates, the innermost first. -/
  templateModes : List Mode := []
  head : Option Nat := none
  form : Option Nat := none
  legacy : Bool := false
  /-- How the next token is to be read. -/
  textMode : TextMode := .ordinary
  /-- Whether a line feed that comes next is to be dropped. -/
  dropLineFeed : Bool := false
  /-- Text found in a table, the newest first. -/
  tableText : List (List Char) := []
deriving Repr

/-- A step of the construction. -/
abbrev Build (α : Type) := StateM Draft α

namespace Build

/-! ## Looking at the draft -/

/-- The name of an element in the lists of the rules: elements of other vocabularies have the
    vocabulary in front. -/
def ruleName (d : Draft) (id : Nat) : String :=
  match d.nodes[id]? with
  | some { content := .element .html name _, .. } => name
  | some { content := .element .svg name _, .. } => "svg:" ++ name
  | some { content := .element .math name _, .. } => "math:" ++ name
  | _ => ""

/-- The name of the innermost open element. -/
def currentName : Build String := do
  let d ← get
  return ((d.stack.head?).map (ruleName d)).getD ""

/-- Whether the innermost open element is one of the names. -/
def currentIs (names : List String) : Build Bool := return names.contains (← currentName)

/-- Whether an element of the name is open. -/
def isOpen (name : String) : Build Bool := do
  let d ← get
  return d.stack.any fun id => ruleName d id == name

/-- Whether one of the names is open with none of the barriers inside it. -/
def inScope (names barriers : List String) : Build Bool := do
  let d ← get
  let found := d.stack.find? fun id =>
    names.contains (ruleName d id) || barriers.contains (ruleName d id)
  return found.any fun id => names.contains (ruleName d id)

/-! ## Changing the draft -/

/-- Adds a node that is nobody's child yet. -/
def newNode (content : DraftContent) : Build Nat := do
  let d ← get
  set { d with nodes := d.nodes.push { content } }
  return d.nodes.size

/-- Makes a node the newest child of another. -/
def addChild (parent child : Nat) : Build Unit :=
  modify fun d =>
    { d with
      nodes := d.nodes.modify parent fun n => { n with children := child :: n.children } }

/-- The node that receives what is inserted now: the innermost open element, or the contents of a
    template. -/
def receiver : Build Nat := do
  let d ← get
  match d.stack.head? with
  | none => return 0
  | some id => return ((d.nodes[id]?).bind (·.contents)).getD id

/-- Inserts text; texts that follow each other become one. -/
def insertText (cs : List Char) : Build Unit := do
  let parent ← receiver
  let d ← get
  let lastText := do
    let id ← (← d.nodes[parent]?).children.head?
    match (← d.nodes[id]?).content with
    | .text before => some (id, before)
    | _ => none
  match lastText with
  | some (id, before) =>
    set { d with nodes := d.nodes.modify id fun n => { n with content := .text (before ++ cs) } }
  | none =>
    let id ← newNode (.text cs)
    addChild parent id

/-- Inserts a comment into a node. -/
def commentIn (parent : Nat) (s : String) : Build Unit := do
  let id ← newNode (.comment s)
  addChild parent id

/-- Inserts a comment. -/
def insertComment (s : String) : Build Unit := do commentIn (← receiver) s

/-- Opens an element. A template also gets a node for its contents. -/
def openElement (name : String) (attributes : List Attribute) (space : Space := .html) :
    Build Nat := do
  let parent ← receiver
  let id ← newNode (.element space name attributes)
  addChild parent id
  if space = .html && name == "template" then
    let contents ← newNode .contents
    modify fun d =>
      { d with nodes := d.nodes.modify id fun n => { n with contents := some contents } }
  modify fun d => { d with stack := id :: d.stack }
  return id

/-- Closes the innermost element. -/
def close : Build Unit := modify fun d => { d with stack := d.stack.drop 1 }

/-- Inserts an element that holds nothing. -/
def insertVoid (name : String) (attributes : List Attribute) : Build Unit := do
  let _ ← openElement name attributes
  close

/-- Closes elements until one of the names has been closed. -/
def closeThrough (names : List String) : Build Unit :=
  modify fun d =>
    { d with stack := (d.stack.dropWhile fun id => !names.contains (ruleName d id)).drop 1 }

/-- Closes elements until one of the names is innermost. -/
def closeTo (names : List String) : Build Unit :=
  modify fun d => { d with stack := d.stack.dropWhile fun id => !names.contains (ruleName d id) }

/-- Gives an open element the attributes that it does not have yet. -/
def mergeAttributes (id : Nat) (attributes : List Attribute) : Build Unit :=
  modify fun d =>
    { d with
      nodes := d.nodes.modify id fun n =>
        match n.content with
        | .element space name given =>
          { n with content := .element space name (attributes.foldl addAttribute given) }
        | _ => n }

/-- Changes the mode. -/
def setMode (mode : Mode) : Build Unit := modify fun d => { d with mode }

/-- Opens an element whose text is read in a way of its own. -/
def openText (name : String) (attributes : List Attribute) (textMode : TextMode) :
    Build Unit := do
  let _ ← openElement name attributes
  modify fun d => { d with textMode, resume := d.mode, mode := .inText }

/-! ## Formatting elements -/

/-- Notes an element as a formatting element. -/
def noteFormatting (id : Nat) : Build Unit :=
  modify fun d => { d with formatting := some id :: d.formatting }

/-- Begins a block from which no formatting is carried over. -/
def markFormatting : Build Unit := modify fun d => { d with formatting := none :: d.formatting }

/-- Forgets the formatting elements of the block that ends. -/
def clearFormatting : Build Unit :=
  modify fun d => { d with formatting := (d.formatting.dropWhile (·.isSome)).drop 1 }

/-- Forgets one formatting element. -/
def forgetFormatting (id : Nat) : Build Unit :=
  modify fun d => { d with formatting := d.formatting.filter (· != some id) }

/-- The newest formatting element of the name in the current block. -/
def formatting? (name : String) : Build (Option Nat) := do
  let d ← get
  return ((d.formatting.takeWhile (·.isSome)).filterMap (·)).find? fun id => ruleName d id == name

/-- Opens a formatting element again, in place of the earlier one. -/
def reopen (id : Nat) : Build Unit := do
  match (← get).nodes[id]? with
  | some { content := .element _ name attributes, .. } =>
    let again ← openElement name attributes
    modify fun d =>
      { d with formatting := d.formatting.map fun e => if e = some id then some again else e }
  | _ => pure ()

/-- Opens the formatting elements of the current block again that are not open any more, from the
    one after the newest that is still open on. -/
def reopenFormatting : Build Unit := do
  let d ← get
  let lost := (d.formatting.takeWhile (·.isSome)).filterMap (·)
  (lost.takeWhile fun id => !d.stack.contains id).reverse.forM reopen

end Build

/-! ## The end -/

/-- The parse tree of a node of the draft that nests at most `depth` deep. -/
def Draft.treeWithin (d : Draft) : Nat → Nat → Option ParseNode
  | 0, _ => none
  | depth + 1, id => do
    let node ← d.nodes[id]?
    let below (n : DraftNode) := n.children.reverse.filterMap (treeWithin d depth)
    match node.content with
    | .document => none
    | .contents => none
    | .doctype name => some (.doctype name)
    | .text cs => some (.text (String.ofList cs))
    | .comment s => some (.comment s)
    | .element _ name attributes =>
      let contents := ((node.contents.bind fun c => d.nodes[c]?).map below).getD []
      some (.element name attributes contents (below node))

/-- The top nodes of the parse tree. -/
def Draft.tree (d : Draft) : List ParseNode :=
  match d.nodes[0]? with
  | some top => top.children.reverse.filterMap (d.treeWithin d.nodes.size)
  | none => []

end Repeater.Markup
