/-
  Repeater/Event/Buckets.lean
  ===========================
  **Listeners in a table.**

  The table has a row for each node and kind of event somebody waits for: the bucket of the listeners
  that do, with the newest last. A row whose bucket has become empty is dropped. The order of the
  rows carries no meaning, and nothing that can be asked of the table depends on it.

  The numbers of the listeners are counted apart from the table, so a listener that has been taken
  away does not give its number back.
-/
import Repeater.Event.Listeners

namespace Repeater

open Dom

/-- The listeners by node and kind of event, and the number of the next one. -/
structure Buckets (α : Type) where
  table : List ((NodeId × EventKind) × List (Nat × α)) := []
  next : Nat := 1
deriving DecidableEq, Repr

namespace Buckets

variable {α : Type}

/-- Puts an entry at the end of the bucket of a key, which gets a row if it has none. -/
def push (key : NodeId × EventKind) (entry : Nat × α) :
    List ((NodeId × EventKind) × List (Nat × α)) → List ((NodeId × EventKind) × List (Nat × α))
  | [] => [(key, [entry])]
  | row :: rest =>
    if row.1 = key then (key, row.2 ++ [entry]) :: rest else row :: push key entry rest

/-- Takes the entry of a number out of the first bucket that has it, and gives its handler. -/
def take (number : Nat) : List ((NodeId × EventKind) × List (Nat × α)) →
    Option α × List ((NodeId × EventKind) × List (Nat × α))
  | [] => (none, [])
  | (key, bucket) :: rest =>
    match bucket.find? (·.1 == number) with
    | some entry => (some entry.2, (key, bucket.eraseP (·.1 == number)) :: rest)
    | none =>
      let (taken, rest) := take number rest
      (taken, (key, bucket) :: rest)

/-- Drops the rows with an empty bucket. -/
def dropEmpty (table : List ((NodeId × EventKind) × List (Nat × α))) :
    List ((NodeId × EventKind) × List (Nat × α)) :=
  table.filter fun row => !row.2.isEmpty

/-- Registers a handler; the number of the listener is `next`. -/
def add (b : Buckets α) (target : NodeId) (kind : EventKind) (handler : α) : Buckets α where
  table := push (target, kind) (b.next, handler) b.table
  next := b.next + 1

/-- Takes the listener of a number away and gives its handler. -/
def remove (b : Buckets α) (number : Nat) : Option α × Buckets α :=
  let (taken, table) := take number b.table
  (taken, { b with table := dropEmpty table })

/-- Keeps the listeners whose handler satisfies `keep`. -/
def retain (b : Buckets α) (keep : α → Bool) : Buckets α :=
  { b with
    table := dropEmpty (b.table.map fun (key, bucket) => (key, bucket.filter fun e => keep e.2)) }

/-- The numbers and handlers that wait on a node for a kind of event, in order. -/
def on (b : Buckets α) (target : NodeId) (kind : EventKind) : List (Nat × α) :=
  ((b.table.find? fun row => row.1 = (target, kind)).map (·.2)).getD []

/-- The number of listeners. -/
def size (b : Buckets α) : Nat := b.table.foldl (fun count row => count + row.2.length) 0

/-- Whether the table has no row. -/
def isEmpty (b : Buckets α) : Bool := b.table.isEmpty

end Buckets

end Repeater
