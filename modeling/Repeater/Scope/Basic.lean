/-
  Repeater/Scope/Basic.lean
  =========================
  **Scopes.**

  A scope is a root element together with the template, the trigger and the container found in it,
  and a counter of the items it has taken in so far. Its operations are *flows*: they work on the
  scope itself, the stage (tree and outside world) and the listeners of the page, and may fail;
  what a flow has changed before it fails stays changed.
-/
import Repeater.Config
import Repeater.Event.Listeners
import Repeater.Hook.Run
import Repeater.Stamp.Marks

namespace Repeater

open Dom Hook Stamp

/-- What a scope is doing. -/
inductive Activity where
  | idle | adding | deleting
deriving DecidableEq, Repr

namespace Activity

/-- All activities. -/
def all : List Activity := [idle, adding, deleting]

/-- The name of an activity. -/
def name : Activity → String
  | idle => "idle"
  | adding => "adding"
  | deleting => "deleting"

/-- The name of an activity in descriptions. -/
def title : Activity → String
  | idle => "Idle"
  | adding => "Adding"
  | deleting => "Deleting"

end Activity

/-- The elements that a scope has found. -/
structure Parts where
  template : NodeId
  trigger : NodeId
  container : NodeId
deriving DecidableEq, Repr

/-- What a listener of the engine does: it adds an item to a scope, or deletes an item of it. -/
inductive Action where
  | add (scope : Nat)
  | delete (scope : Nat) (item : NodeId)
deriving DecidableEq, Repr

/-- The scope an action is for. -/
def Action.scope : Action → Nat
  | add scope => scope
  | delete scope _ => scope

/-- The item an action deletes. -/
def Action.deletes? : Action → Option NodeId
  | add _ => none
  | delete _ item => some item

/-- One repeating template of a page. -/
structure Scope (σ : Type) where
  /-- The position among the scopes of the page. -/
  number : Nat
  root : NodeId
  identifier : Option String := none
  parts : Option Parts := none
  /-- The number of items ever taken in. -/
  counter : Nat := 0
  activity : Activity := .idle
  started : Bool := false
  routines : Routines σ := {}
  /-- Runs after each start. -/
  afterStart : Option (Routine σ) := none

namespace Scope

variable {σ : Type}

/-- The name of the scope of a number. -/
def nameOf (number : Nat) : String := s!"scope#{number}"

/-- What log lines call the scope: its identifier, or its name before it has one. -/
def label (scope : Scope σ) : String := scope.identifier.getD (nameOf scope.number)

/-- A description of everything there is to a scope. -/
def description (scope : Scope σ) : String :=
  let identifier := match scope.identifier with
    | some s => s!"Some({Text.literal s})"
    | none => "None"
  let parts := match scope.parts with
    | some p =>
      "Some(ScopeElements \x7b template: " ++ p.template.description ++ ", trigger: "
        ++ p.trigger.description ++ ", container: " ++ p.container.description ++ " \x7d)"
    | none => "None"
  "Stamper \x7b id: ScopeId(" ++ toString scope.number ++ "), root: " ++ scope.root.description
    ++ ", identifier: " ++ identifier ++ ", elements: " ++ parts ++ ", current_index: "
    ++ toString scope.counter ++ ", state: " ++ scope.activity.title ++ ", initialized: "
    ++ toString scope.started ++ ", hooks: " ++ scope.routines.description ++ ", post_init: "
    ++ toString scope.afterStart.isSome ++ " \x7d"

end Scope

/-! ## Flows -/

/-- What a flow is given: the host, the settings and the callbacks of the page. -/
structure Equipment (σ : Type) where
  host : Host σ
  config : Config
  callbacks : Callbacks σ

/-- What a flow works on. -/
structure Desk (σ : Type) where
  scope : Scope σ
  stage : Stage σ
  listeners : Listeners Action

/-- An operation of a scope. -/
abbrev Flow (σ α : Type) := ExceptT Error (StateM (Desk σ)) α

namespace Flow

variable {σ α : Type}

/-- A step of a hook as part of a flow. -/
def act (step : Act Error σ α) : Flow σ α := fun desk =>
  let (result, stage) := step.run.run desk.stage
  (result, { desk with stage })

/-- A stamping of the tree as part of a flow. -/
def stamp (stamping : Stamping α) : Flow σ α := fun desk =>
  let (result, tree) := stamping.run.run desk.stage.tree
  (result, { desk with stage := { desk.stage with tree } })

/-- A change of the tree as part of a flow. -/
def edit (change : Edit α) : Flow σ α := stamp (Stamp.edit change)

/-- The tree as it is now. -/
def tree : Flow σ Tree := return (← get).stage.tree

/-- Changes the scope. -/
def updateScope (f : Scope σ → Scope σ) : Flow σ Unit :=
  modify fun desk => { desk with scope := f desk.scope }

/-- Changes the listeners. -/
def updateListeners (f : Listeners Action → Listeners Action) : Flow σ Unit :=
  modify fun desk => { desk with listeners := f desk.listeners }

/-- Runs a flow as an activity of the scope, which must be idle and is idle again afterwards,
    whether the flow fails or not. -/
def during (activity : Activity) (flow : Flow σ α) : Flow σ α := fun desk =>
  if desk.scope.activity = .idle then
    let (result, after) :=
      flow.run.run { desk with scope := { desk.scope with activity } }
    (result, { after with scope := { after.scope with activity := .idle } })
  else (.error (.busy desk.scope.activity.name), desk)

end Flow

end Repeater
