/-
  Repeater/Hook/Program.lean
  ==========================
  **Hook programs.**

  Hook code is a list of calls. What is called is the alert of the host, a console method, a method
  of an element given by a parameter, or a registered callback; the arguments are sums of texts,
  integers and parameters. Nothing else can be reached from hook code.
-/
import Repeater.Log

namespace Repeater.Hook

/-- What an element can be asked to do. -/
inductive ElementMethod where
  | setAttribute | removeAttribute | setText | addClass | removeClass
deriving DecidableEq, Repr

namespace ElementMethod

/-- All methods of elements. -/
def all : List ElementMethod := [setAttribute, removeAttribute, setText, addClass, removeClass]

/-- The name by which hook code calls the method. -/
def member : ElementMethod → String
  | setAttribute => "setAttribute"
  | removeAttribute => "removeAttribute"
  | setText => "setText"
  | addClass => "addClass"
  | removeClass => "removeClass"

/-- The name of the method in messages. -/
def title : ElementMethod → String
  | setAttribute => "SetAttribute"
  | removeAttribute => "RemoveAttribute"
  | setText => "SetText"
  | addClass => "AddClass"
  | removeClass => "RemoveClass"

/-- The number of arguments the method takes. -/
def arity : ElementMethod → Nat
  | setAttribute => 2
  | _ => 1

/-- The method with the name. -/
def ofMember? (name : String) : Option ElementMethod := all.find? (·.member == name)

end ElementMethod

/-- The level at which a console method writes. -/
def consoleLevel? : String → Option Level
  | "debug" => some .debug
  | "log" => some .info
  | "info" => some .info
  | "warn" => some .warn
  | "error" => some .error
  | _ => none

/-- What a statement calls. -/
inductive Callee where
  | alert
  | console (level : Level)
  /-- A method of the element that is the argument for a parameter, given by its position. -/
  | method (receiver : Nat) (method : ElementMethod)
  | callback (name : String)
deriving DecidableEq, Repr

/-- A part of a sum. -/
inductive Term where
  | text (s : String)
  | int (n : Int)
  /-- The argument for a parameter, given by its position. -/
  | parameter (position : Nat)
deriving DecidableEq, Repr

/-- A sum of one or more terms. -/
structure Expression where
  first : Term
  others : List Term := []
deriving DecidableEq, Repr

/-- A call. -/
structure Statement where
  callee : Callee
  arguments : List Expression
deriving DecidableEq, Repr

/-- Compiled hook code: the names of its parameters and its statements. -/
structure Program where
  parameters : List String
  statements : List Statement
deriving DecidableEq, Repr

end Repeater.Hook
