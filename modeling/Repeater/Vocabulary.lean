/-
  Repeater/Vocabulary.lean
  ========================
  **The words of the markup.**

  The attributes by which a page declares its scopes (`Directive`), the points of an item's life at
  which hooks run (`Phase`), the parameters that hook code may name, and the words that hook code
  must not hold.
-/
import Repeater.Text.WordChar

namespace Repeater

/-- The attributes by which a page declares a scope and its parts. -/
inductive Directive where
  /-- Names a scope, on its root. -/
  | root
  /-- Set on the root once the scope has started. -/
  | started
  /-- Marks the template of a scope. -/
  | template
  /-- Marks the element that adds an item when it is clicked. -/
  | trigger
  /-- Marks the element that receives the items. -/
  | container
  /-- Marks the control that deletes the item around it. -/
  | delete
  /-- Lists the attributes in which index tokens are replaced. -/
  | index
  /-- Asks for the running number, padded by the zeros of the value. -/
  | sequence
  /-- Names a place that is filled from data. -/
  | slot
deriving DecidableEq, Repr

/-- The name of the attribute. -/
def Directive.name : Directive → String
  | root => "stamper"
  | started => "s-inited"
  | template => "s-temp"
  | trigger => "s-cast"
  | container => "s-crate"
  | delete => "s-delete"
  | index => "s-index"
  | sequence => "s-sequence"
  | slot => "s-slot"

/-- The points of an item's life at which hooks run. -/
inductive Phase where
  | preAdd | postAdd | preDelete | postDelete
deriving DecidableEq, Repr

namespace Phase

/-- All phases. -/
def all : List Phase := [preAdd, postAdd, preDelete, postDelete]

/-- The name of the phase. -/
def name : Phase → String
  | preAdd => "preadd"
  | postAdd => "postadd"
  | preDelete => "predelete"
  | postDelete => "postdelete"

/-- The attribute that holds hook code for the phase. -/
def directiveName (phase : Phase) : String := "s-" ++ phase.name

end Phase

namespace Vocabulary

/-- The attribute with the label that a delete control shows to assistive technology. -/
def label : String := "aria-label"

/-- The parameters of hook code, in the order of the arguments. -/
def parameters : List String :=
  ["currentIndex", "rootEl", "tempEl", "castEl", "crateEl", "child", "event"]

/-- The words that hook code must not hold, in the order in which they are looked for. -/
def forbidden : List String :=
  ["function", "eval", "localStorage", "sessionStorage", "indexedDB", "XMLHttpRequest", "fetch",
    "WebSocket", "setTimeout", "setInterval", "requestAnimationFrame", "Promise", "async", "await",
    "import", "export"]

/-- The first forbidden word that stands whole somewhere in the code. -/
def forbiddenIn? (code : String) : Option String :=
  forbidden.find? fun word => Text.holdsWord word.toList code.toList

/-- The version of the program. -/
def version : String := "0.1.0"

end Vocabulary

end Repeater
