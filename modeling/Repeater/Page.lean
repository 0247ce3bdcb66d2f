/-
  Repeater/Page.lean
  ==================
  **Pages.**

  A page is a document with its scopes, the listeners they have wired, and the host. Operations of a
  page never fail: when a flow fails, the failure goes to the log and only this flow ends. A click
  climbs from its target to the top; on each node, the listeners that wait there when the click
  arrives run in the order of their registration.
-/
import Repeater.Dom.Document
import Repeater.Scope.Items

namespace Repeater

open Dom Hook

/-- A document with its scopes, the listeners and the world outside. -/
structure Page (σ : Type) where
  document : Document
  host : Host σ
  config : Config := {}
  scopes : Array (Scope σ) := #[]
  listeners : Listeners Action := {}
  callbacks : Callbacks σ := {}
  outside : Outside σ

namespace Page

variable {σ : Type}

/-- The tree of the document. -/
def tree (page : Page σ) : Tree := page.document.tree

/-- Adds a line to the log. -/
def log (page : Page σ) (line : LogLine) : Page σ :=
  { page with outside := page.outside.write line }

/-! ## Scopes -/

/-- The number of the scope with the root; a new scope if there is none yet. -/
def attach (page : Page σ) (root : NodeId) : Page σ × Nat :=
  match page.scopes.findIdx? (·.root = root) with
  | some number => (page, number)
  | none =>
    let number := page.scopes.size
    ({ page with scopes := page.scopes.push { number, root } }, number)

/-- Attaches a scope to each of the nodes, in order. -/
def attachAll (page : Page σ) : List NodeId → Page σ × List Nat
  | [] => (page, [])
  | root :: roots =>
    let (page, number) := page.attach root
    let (page, numbers) := page.attachAll roots
    (page, number :: numbers)

/-- Attaches a scope to every element that names one, in document order. -/
def discover (page : Page σ) : Page σ × List Nat :=
  page.attachAll (page.tree.select .document (.hasAttribute Directive.root.name))

/-- The first scope whose root carries the identifier. -/
def scopeNamed? (page : Page σ) (identifier : String) : Option Nat :=
  page.scopes.findIdx? fun scope =>
    page.tree.attribute? scope.root Directive.root.name == some identifier

/-! ## Flows -/

/-- The log line for a failed flow: a warning for errors of the engine, an error for others. -/
def failureLine (error : Error) (operation label : String) : LogLine :=
  let fields := [("scope", FieldValue.text label), ("operation", .text operation)]
  if error.isExpected then ⟨.warn, .engine, error.message, fields⟩
  else ⟨.error, .engine, "unexpected failure", fields ++ [("error", .text error.description)]⟩

/-- The log line for a scope that does not exist. -/
def noScopeLine (number : Nat) (fields : List (String × FieldValue)) : LogLine :=
  ⟨.warn, .engine, s!"no scope {Scope.nameOf number}", fields⟩

/-- What flows of the page are given. -/
def equipment (page : Page σ) : Equipment σ := ⟨page.host, page.config, page.callbacks⟩

/-- The page after a flow has left its desk. -/
def putBack (page : Page σ) (number : Nat) (desk : Desk σ) : Page σ :=
  { page with
    document := { page.document with tree := desk.stage.tree }
    scopes := page.scopes.setIfInBounds number desk.scope
    listeners := desk.listeners
    outside := desk.stage.outside }

/-- Runs a flow of a scope; a failure goes to the log. -/
def withScope (page : Page σ) (number : Nat) (operation : String)
    (flow : Equipment σ → Flow σ Unit) : Page σ :=
  match page.scopes[number]? with
  | none => page.log (noScopeLine number [("operation", .text operation)])
  | some scope =>
    let desk : Desk σ := ⟨scope, ⟨page.tree, page.outside⟩, page.listeners⟩
    match (flow page.equipment).run.run desk with
    | (.ok (), desk) => page.putBack number desk
    | (.error error, desk) =>
      (page.putBack number desk).log (failureLine error operation desk.scope.label)

/-- Starts a scope. -/
def start (page : Page σ) (number : Nat) : Page σ :=
  page.withScope number "initialize" Scope.start

/-- Discovers all scopes and starts each. -/
def startAll (page : Page σ) : Page σ :=
  let (page, numbers) := page.discover
  numbers.foldl start page

/-- Adds an item filled from data to a scope. -/
def addFromData (page : Page σ) (number : Nat) (data : List (String × String)) : Page σ :=
  page.withScope number "add_item_using_data" fun equipment => Scope.handleData equipment data

/-! ## Registering -/

/-- Changes a scope, if it exists. -/
def changeScope (page : Page σ) (number : Nat) (f : Scope σ → Scope σ) : Page σ :=
  if number < page.scopes.size then { page with scopes := page.scopes.modify number f }
  else page.log (noScopeLine number [])

/-- Registers what runs after each start of a scope. -/
def registerAfterStart (page : Page σ) (number : Nat) (routine : Routine σ) : Page σ :=
  page.changeScope number fun scope => { scope with afterStart := some routine }

/-- Registers hooks of a scope; phases that are left out keep what they have. -/
def registerRoutines (page : Page σ) (number : Nat) (routines : Routines σ) : Page σ :=
  page.changeScope number fun scope => { scope with routines := scope.routines.merge routines }

/-- Registers a callback. -/
def registerCallback (page : Page σ) (name : String) (callback : Callback σ) : Page σ :=
  { page with callbacks := page.callbacks.register name callback }

/-! ## Clicks -/

/-- Does what a listener is for. -/
def perform (event : Event) (page : Page σ) : Action → Page σ
  | .add number => page.withScope number "add" fun equipment => Scope.handleAdd equipment event
  | .delete number item =>
    page.withScope number "delete" fun equipment => Scope.handleDelete equipment event item

/-- Runs the listeners that wait on a node for an event that has arrived there. -/
def arrive (event : Event) (page : Page σ) (node : NodeId) : Page σ :=
  let actions := (page.listeners.on node event.kind).map (·.handler)
  actions.foldl (perform { event with current := some node }) page

/-- Clicks a node, and tells whether the default action takes place. -/
def click (page : Page σ) (target : NodeId) : Page σ × Bool :=
  let event := Event.click target
  let path := target :: page.tree.ancestors target
  (path.foldl (arrive event) page, !event.prevented)

/-- Clicks the first node that the selector accepts, and tells whether there is one. -/
def clickFirst (page : Page σ) (selector : Selector) : Page σ × Bool :=
  match page.tree.selectFirst? .document selector with
  | some target => ((page.click target).1, true)
  | none => (page, false)

end Page

end Repeater
