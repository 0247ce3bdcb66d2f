/-
  Repeater/Scope/Start.lean
  =========================
  **Starting a scope.**

  A start finds the elements of the scope and checks them before anything is changed. The first
  start takes in the items that are already in the container; every start wires their delete
  controls and the trigger anew, so that starting again does not double a listener. Items elsewhere
  in the document, such as those added from data before the trigger, keep their delete listeners.
-/
import Repeater.Scope.Basic

namespace Repeater.Scope

open Dom Hook Stamp

variable {σ : Type}

/-- The first element below `root` that carries the directive with the identifier. -/
def findPart (t : Tree) (root : NodeId) (identifier : String) (directive : Directive) :
    Except Error NodeId :=
  match t.selectFirst? root (.attributeIs directive.name identifier) with
  | some id => .ok id
  | none => .error (.missingElement directive)

/-- Refuses a template that is none, or that holds more than one element. -/
def checkTemplate (t : Tree) (template : NodeId) : Except Error Unit :=
  match t.contents? template with
  | none => .error (.invalidTemplate .markedOther)
  | some contents =>
    let count := (t.elementChildren contents).length
    if count > 1 then .error (.invalidTemplate (.manyElements count)) else .ok ()

/-- Finds the identifier and the elements of a scope. -/
def findParts (t : Tree) (root : NodeId) : Except Error (String × Parts) := do
  let some identifier := (t.attribute? root Directive.root.name).filter (! ·.isEmpty)
    | throw .missingIdentifier
  let template ← findPart t root identifier .template
  let trigger ← findPart t root identifier .trigger
  let container ← findPart t root identifier .container
  checkTemplate t template
  return (identifier, { template, trigger, container })

/-- Whether a listener outlives a new start of the scope `number` with the given container: those of
    other scopes, and those for items that are in the document but not in the container. -/
def outlivesStart (t : Tree) (number : Nat) (container : NodeId) (action : Action) : Bool :=
  match action with
  | .delete owner item =>
    if owner = number then t.isConnected item && t.parent? item != some container else true
  | .add owner => owner != number

/-- Wires the delete control of an item: the first element of the item that carries the directive
    with the identifier of the scope, if its tag is accepted. -/
def wireDelete (equipment : Equipment σ) (item : NodeId) : Flow σ Unit := do
  let desk ← get
  let t := desk.stage.tree
  if let some identifier := desk.scope.identifier then
    let controls := t.selectFrom item (.attributeIs Directive.delete.name identifier)
    if let some control := controls.head? then
      if (t.tag? control).any equipment.config.isControl then
        Flow.updateListeners (·.add control .click (.delete desk.scope.number item))

/-- Takes in an item that was there before the first start. -/
def takeIn (identifier : String) (item : NodeId) : Flow σ Unit := do
  let counter := (← get).scope.counter
  let _ ← Flow.stamp (stampSequences item counter)
  let _ ← Flow.stamp (stampIndex item identifier counter)
  Flow.updateScope fun scope => { scope with counter := counter + 1 }

/-- What hooks of the scope see. -/
def context (equipment : Equipment σ) (scope : Scope σ) (parts : Parts) (items : List NodeId)
    (event : Option Event) : Context σ where
  host := equipment.host
  index := scope.counter
  root := scope.root
  template := parts.template
  trigger := parts.trigger
  container := parts.container
  items
  event

/-- Finds, checks, takes in and wires everything that belongs to the scope. -/
def start (equipment : Equipment σ) : Flow σ Unit := do
  let desk ← get
  let t := desk.stage.tree
  let scope := desk.scope
  let (identifier, parts) ← MonadExcept.ofExcept (findParts t scope.root)
  let items := t.elementChildren parts.container
  unless scope.started || items.all (sequencesReady t) do throw (.missingAttribute .sequence)
  Flow.updateListeners (·.retain (outlivesStart t scope.number parts.container))
  Flow.updateScope fun scope => { scope with identifier := some identifier, parts := some parts }
  unless scope.started do items.forM (takeIn identifier)
  items.forM (wireDelete equipment)
  Flow.updateListeners (·.add parts.trigger .click (.add scope.number))
  Flow.edit
    (Edit.setAttribute scope.root Directive.started.name equipment.config.startedValue)
  Flow.updateScope fun scope => { scope with started := true }
  Flow.act (Act.log ⟨.info, .engine, "scope initialized",
    [("scope", .text identifier), ("items", .count items.length)]⟩)
  let scope := (← get).scope
  if let some routine := scope.afterStart then
    Flow.act (ExceptT.adapt Failure.toError (routine (context equipment scope parts items none)))

end Repeater.Scope
