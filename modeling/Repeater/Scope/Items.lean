/-
  Repeater/Scope/Items.lean
  =========================
  **Adding and deleting items.**

  A click on the trigger adds an item: hook code is compiled, the template is copied and stamped,
  the hooks before the addition run, the copy goes into the container, and the hooks after it run.
  If these fail, the items are taken out again. A click on a delete control asks the host, runs the
  hooks before, removes the item with its listeners, and runs the hooks after. An item can also be
  added from data: it is filled and put before the trigger, and no hooks run.
-/
import Repeater.Scope.Start

namespace Repeater.Scope

open Dom Hook Stamp

variable {σ : Type}

/-- The elements and the identifier that a start has found. -/
def resolved (scope : Scope σ) : Except Error (Parts × String) :=
  match scope.parts, scope.identifier with
  | some parts, some identifier => .ok (parts, identifier)
  | _, _ => .error (.missingElement .template)

/-- Compiles the hook code that an element carries for a phase; blank code is no code. -/
def compileHook (t : Tree) (carrier : NodeId) (phase : Phase) : Except Error (Option Program) :=
  match (t.attribute? carrier phase.directiveName).filter (! Text.isAllBlank ·) with
  | none => .ok none
  | some code => some <$> compile code Vocabulary.parameters

/-- What the hooks of one flow have in common. -/
structure Occasion where
  parts : Parts
  items : List NodeId
  event : Event

/-- Runs the hook code of a phase, then the registered hook. -/
def runHooks (equipment : Equipment σ) (phase : Phase) (program : Option Program)
    (occasion : Occasion) : Flow σ Unit := do
  let scope := (← get).scope
  let context := scope.context equipment occasion.parts occasion.items (some occasion.event)
  if let some program := program then
    Flow.act (program.run ⟨context, equipment.callbacks, context.arguments⟩)
  if let some routine := scope.routines.on phase then
    Flow.act (ExceptT.adapt Failure.toError (routine context))

/-! ## Adding -/

/-- Adds an item for a click on the trigger. -/
def addItem (equipment : Equipment σ) (parts : Parts) (identifier : String) (event : Event) :
    Flow σ Unit := do
  let t ← Flow.tree
  let before ← MonadExcept.ofExcept (compileHook t parts.trigger .preAdd)
  let after ← MonadExcept.ofExcept (compileHook t parts.trigger .postAdd)
  let counter := (← get).scope.counter
  let fragment ← Flow.stamp (copyTemplate parts.template counter)
  let _ ← Flow.stamp (stampIndex fragment identifier counter)
  let items := (← Flow.tree).elementChildren fragment
  let occasion : Occasion := { parts, items, event }
  runHooks equipment .preAdd before occasion
  let _ ← Flow.edit (Edit.append parts.container fragment)
  try
    runHooks equipment .postAdd after occasion
  catch failure =>
    items.forM fun item => discard (Flow.edit (Edit.remove item))
    throw failure
  items.forM (wireDelete equipment)
  Flow.updateScope fun scope => { scope with counter := scope.counter + 1 }

/-- What a click on the trigger does. -/
def handleAdd (equipment : Equipment σ) (event : Event) : Flow σ Unit := do
  let (parts, identifier) ← MonadExcept.ofExcept (← get).scope.resolved
  Flow.during .adding (addItem equipment parts identifier event)

/-- Adds an item filled from data, right before the trigger. -/
def addFilled (equipment : Equipment σ) (parts : Parts) (identifier : String)
    (data : List (String × String)) : Flow σ Unit := do
  let some parent := (← Flow.tree).parent? parts.trigger | throw (.missingElement .trigger)
  let counter := (← get).scope.counter
  let fragment ← Flow.stamp (copyTemplate parts.template counter)
  let _ ← Flow.stamp (fillSlots fragment data)
  let _ ← Flow.stamp (stampIndex fragment identifier counter)
  let items := (← Flow.tree).elementChildren fragment
  let _ ← Flow.edit (Edit.insertBefore parent fragment (some parts.trigger))
  items.forM (wireDelete equipment)
  Flow.updateScope fun scope => { scope with counter := scope.counter + 1 }

/-- What an addition from data does. -/
def handleData (equipment : Equipment σ) (data : List (String × String)) : Flow σ Unit := do
  let (parts, identifier) ← MonadExcept.ofExcept (← get).scope.resolved
  Flow.during .adding (addFilled equipment parts identifier data)

/-! ## Deleting -/

/-- Deletes an item for a click on its control. -/
def deleteItem (equipment : Equipment σ) (parts : Parts) (control item : NodeId) (event : Event) :
    Flow σ Unit := do
  let t ← Flow.tree
  let before ← MonadExcept.ofExcept (compileHook t control .preDelete)
  let after ← MonadExcept.ofExcept (compileHook t control .postDelete)
  let occasion : Occasion := { parts, items := [item], event }
  runHooks equipment .preDelete before occasion
  let _ ← Flow.edit (Edit.remove item)
  Flow.updateListeners (·.retain fun action => action.deletes? != some item)
  runHooks equipment .postDelete after occasion

/-- The label of a delete control, or the default where it has none. -/
def controlLabel (config : Config) (t : Tree) (control : NodeId) : String :=
  ((t.attribute? control Vocabulary.label).filter (! ·.isEmpty)).getD config.defaultLabel

/-- What a click on a delete control does. -/
def handleDelete (equipment : Equipment σ) (event : Event) (item : NodeId) : Flow σ Unit := do
  let (parts, _) ← MonadExcept.ofExcept (← get).scope.resolved
  let control := event.current.getD event.target
  let t ← Flow.tree
  let tag := (t.tag? control).getD ""
  unless equipment.config.isControl tag do
    throw (.invalidElement (.notAControl equipment.config.controlTags tag))
  let question := equipment.config.confirmMessage (controlLabel equipment.config t control)
  if ← Flow.act (Act.talk (equipment.host.confirm question)) then
    Flow.during .deleting (deleteItem equipment parts control item event)

end Repeater.Scope
