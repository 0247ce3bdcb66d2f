/-
  Repeater/Event/Listeners.lean
  =============================
  **Listeners in the order of their registration.**

  A registry is one list of listeners; the newest is last. Each listener has a number of its own,
  which is never given again, and waits on one node for one kind of event.
-/
import Repeater.Event.Basic

namespace Repeater

open Dom

/-- A handler that waits on a node for a kind of event. -/
structure Listener (α : Type) where
  number : Nat
  target : NodeId
  kind : EventKind
  handler : α
deriving DecidableEq, Repr

/-- The listeners in the order of their registration, and the number of the next one. -/
structure Listeners (α : Type) where
  entries : List (Listener α) := []
  next : Nat := 1
deriving DecidableEq, Repr

namespace Listeners

variable {α : Type}

/-- Registers a handler; the number of the listener is the registry's `next`. -/
def add (ls : Listeners α) (target : NodeId) (kind : EventKind) (handler : α) : Listeners α where
  entries := ls.entries ++ [⟨ls.next, target, kind, handler⟩]
  next := ls.next + 1

/-- The handler of a number. -/
def handler? (ls : Listeners α) (number : Nat) : Option α :=
  (ls.entries.find? (·.number == number)).map (·.handler)

/-- Takes the listener of a number away. -/
def remove (ls : Listeners α) (number : Nat) : Listeners α :=
  { ls with entries := ls.entries.eraseP (·.number == number) }

/-- Keeps the listeners whose handler satisfies `keep`. -/
def retain (ls : Listeners α) (keep : α → Bool) : Listeners α :=
  { ls with entries := ls.entries.filter fun l => keep l.handler }

/-- The listeners that wait on a node for a kind of event, in order. -/
def on (ls : Listeners α) (target : NodeId) (kind : EventKind) : List (Listener α) :=
  ls.entries.filter fun l => l.target = target && l.kind = kind

/-- The number of listeners. -/
def size (ls : Listeners α) : Nat := ls.entries.length

end Listeners

end Repeater
