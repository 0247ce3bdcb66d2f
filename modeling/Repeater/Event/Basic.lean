/-
  Repeater/Event/Basic.lean
  =========================
  **Events.**

  An event is aimed at a node and says on which node it is being handled now. All kinds of events
  climb from the target to its ancestors, except that focus and blur stay at the target. A handler
  may prevent the default action, which only takes effect on a cancelable event, or stop the climb.
-/
import Repeater.Dom.Node

namespace Repeater

open Dom

/-- What has happened. -/
inductive EventKind where
  | click | doubleClick | input | change | submit | keyDown | keyUp | focus | blur
deriving DecidableEq, Repr

namespace EventKind

/-- All kinds of events. -/
def all : List EventKind :=
  [click, doubleClick, input, change, submit, keyDown, keyUp, focus, blur]

/-- The name of the kind. -/
def name : EventKind → String
  | click => "click"
  | doubleClick => "dblclick"
  | input => "input"
  | change => "change"
  | submit => "submit"
  | keyDown => "keydown"
  | keyUp => "keyup"
  | focus => "focus"
  | blur => "blur"

/-- The kind with the name. -/
def ofName? (name : String) : Option EventKind := all.find? (·.name == name)

/-- Whether events of the kind climb to the ancestors of their target. -/
def bubbles : EventKind → Bool
  | focus | blur => false
  | _ => true

end EventKind

/-- An event on its way. -/
structure Event where
  kind : EventKind
  target : NodeId
  current : Option NodeId := none
  bubbles : Bool := kind.bubbles
  cancelable : Bool := true
  prevented : Bool := false
  stopped : Bool := false
deriving DecidableEq, Repr

namespace Event

/-- A click on a node. -/
def click (target : NodeId) : Event := { kind := .click, target }

/-- Prevents the default action, if the event is cancelable. -/
def preventDefault (e : Event) : Event := if e.cancelable then { e with prevented := true } else e

/-- Stops the event from climbing further. -/
def stop (e : Event) : Event := { e with stopped := true }

end Event

end Repeater
