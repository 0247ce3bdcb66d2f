/-
  Repeater/Hook/Registered.lean
  =============================
  **Registered hooks and callbacks.**

  A registered hook is a program of the embedder. It sees a `Context`: the scope's elements, the
  counter, the items of the flow and the event. It may change the tree and talk to the host (the
  `Stage`), keep a state of its own, and fail. A callback is a hook with arguments that hook code
  calls by name.
-/
import Repeater.Dom.Edit
import Repeater.Error
import Repeater.Hook.Value
import Repeater.Host

namespace Repeater.Hook

open Dom Text

/-- What hooks may change: the tree and the world outside. -/
structure Stage (σ : Type) where
  tree : Tree
  outside : Outside σ

/-- A step of a hook: it changes the stage and may fail. -/
abbrev Act (ε σ α : Type) := ExceptT ε (StateM (Stage σ)) α

namespace Act

variable {ε σ α : Type}

/-- Edits the tree; `refused` words the refusal. -/
def edit (refused : DomError → ε) (change : Edit α) : Act ε σ α := fun stage =>
  let (result, tree) := change.run.run stage.tree
  (result.mapError refused, { stage with tree })

/-- Talks to the world outside. -/
def talk (words : StateM (Outside σ) α) : Act ε σ α := fun stage =>
  let (value, outside) := words.run stage.outside
  (.ok value, { stage with outside })

/-- Adds a line to the log. -/
def log (line : LogLine) : Act ε σ Unit := talk (modify (·.write line))

/-- The tree as it is now. -/
def tree : Act ε σ Tree := fun stage => (.ok stage.tree, stage)

end Act

/-- What a hook sees. -/
structure Context (σ : Type) where
  host : Host σ
  /-- The counter of the scope when the flow started. -/
  index : Nat
  root : NodeId
  template : NodeId
  trigger : NodeId
  container : NodeId
  /-- The items of the flow. -/
  items : List NodeId
  /-- The event that started the flow, if one did. -/
  event : Option Event

/-- The arguments of hook code, in the order of `Vocabulary.parameters`. The counter is read as a
    signed word. -/
def Context.arguments {σ : Type} (context : Context σ) : List Value :=
  [.int (wrapWord context.index), .element context.root, .element context.template,
    .element context.trigger, .element context.container,
    (context.items.head?.map .element).getD .null, (context.event.map .event).getD .null]

/-- A program of the embedder that runs at a phase. -/
abbrev Routine (σ : Type) := Context σ → Act Failure σ Unit

/-- A program of the embedder that hook code calls by name. -/
abbrev Callback (σ : Type) := Context σ → List Value → Act Failure σ Unit

/-! ## One routine for each phase -/

/-- The registered hooks of a scope. -/
structure Routines (σ : Type) where
  preAdd : Option (Routine σ) := none
  postAdd : Option (Routine σ) := none
  preDelete : Option (Routine σ) := none
  postDelete : Option (Routine σ) := none

namespace Routines

variable {σ : Type}

/-- The routine of a phase. -/
def on (routines : Routines σ) : Phase → Option (Routine σ)
  | .preAdd => routines.preAdd
  | .postAdd => routines.postAdd
  | .preDelete => routines.preDelete
  | .postDelete => routines.postDelete

/-- Sets the routine of a phase. -/
def set (routines : Routines σ) (phase : Phase) (routine : Routine σ) : Routines σ :=
  match phase with
  | .preAdd => { routines with preAdd := some routine }
  | .postAdd => { routines with postAdd := some routine }
  | .preDelete => { routines with preDelete := some routine }
  | .postDelete => { routines with postDelete := some routine }

/-- Takes over the routines that `newer` has, and keeps the others. -/
def merge (routines newer : Routines σ) : Routines σ where
  preAdd := newer.preAdd.or routines.preAdd
  postAdd := newer.postAdd.or routines.postAdd
  preDelete := newer.preDelete.or routines.preDelete
  postDelete := newer.postDelete.or routines.postDelete

/-- The number of phases with a routine. -/
def size (routines : Routines σ) : Nat := Phase.all.countP fun p => (routines.on p).isSome

/-- A description that tells which phases have a routine. -/
def description (routines : Routines σ) : String :=
  let field (p : Phase) := s!"{p.name}: {(routines.on p).isSome}"
  "Hooks \x7b " ++ ", ".intercalate (Phase.all.map field) ++ " \x7d"

end Routines

/-! ## Callbacks by name -/

/-- The callbacks that hook code can call; no name occurs twice. -/
structure Callbacks (σ : Type) where
  entries : List (String × Callback σ) := []

namespace Callbacks

variable {σ : Type}

/-- The callback of a name. -/
def find? (callbacks : Callbacks σ) (name : String) : Option (Callback σ) :=
  callbacks.entries.lookup name

/-- Registers a callback, in place of one of the same name. -/
def register (callbacks : Callbacks σ) (name : String) (callback : Callback σ) : Callbacks σ where
  entries := (name, callback) :: callbacks.entries.filter (·.1 != name)

/-- The number of callbacks. -/
def size (callbacks : Callbacks σ) : Nat := callbacks.entries.length

/-- A description that lists the names in ascending order. -/
def description (callbacks : Callbacks σ) : String :=
  let names := (callbacks.entries.map (·.1)).mergeSort fun a b => a ≤ b
  "CallbackTable \x7b names: " ++ literalList names ++ " \x7d"

end Callbacks

end Repeater.Hook
