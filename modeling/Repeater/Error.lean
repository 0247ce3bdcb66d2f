/-
  Repeater/Error.lean
  ===================
  **What can go wrong.**

  Every failure of the engine is an `Error` that names its cause. Failures of the document tree and
  of registered hooks are errors too, but not the engine's own: they are *unexpected* and logged as
  such. A registered hook fails with a `Failure`, which is either an error of the engine, handed on,
  or a report in words.
-/
import Repeater.Dom.Error
import Repeater.Text.Decimal
import Repeater.Text.Literal
import Repeater.Text.Split
import Repeater.Vocabulary

namespace Repeater

open Dom Text

/-- Why a template is not one that a scope can use. -/
inductive TemplateFault where
  /-- The node whose copy was asked for is not a template. -/
  | notATemplate (id : NodeId)
  /-- The element marked as template is of another kind. -/
  | markedOther
  /-- The template holds more than one element. -/
  | manyElements (count : Nat)
  /-- A fault told in words by a registered hook. -/
  | told (text : String)
deriving DecidableEq, Repr

/-- Words for a fault of a template. -/
def TemplateFault.message : TemplateFault → String
  | notATemplate id => s!"{id.text} is not a template element"
  | markedOther => s!"[{Directive.template.name}] is not a <template> element"
  | manyElements count => s!"the template must have at most one child element, found {count}"
  | told text => text

/-- Why an element cannot play its part. -/
inductive ElementFault where
  /-- The argument for the parameter of a hook is no element. -/
  | notAnElement (parameter : String)
  /-- The clicked control has a tag that is not accepted. -/
  | notAControl (accepted : List String) (tag : String)
  /-- A fault told in words by a registered hook. -/
  | told (text : String)
deriving DecidableEq, Repr

/-- Words for a fault of an element. -/
def ElementFault.message : ElementFault → String
  | notAnElement parameter => s!"`{parameter}` is not an element"
  | notAControl accepted tag =>
    s!"delete control must be one of {literalList accepted}, got <{tag}>"
  | told text => text

/-- Why hook code is not well formed. -/
inductive HookFault where
  /-- No token starts with the character. -/
  | strayCharacter (c : Char)
  | unterminatedText
  | integerOutOfRange
  /-- A statement does not start with a name. -/
  | callExpected
  /-- No name follows the dot. -/
  | memberExpected
  /-- What is expected is given in words. -/
  | expected (what : String)
  /-- Something other than a text, a number or a parameter stands for a value. -/
  | termExpected
  /-- A parameter is called like a function. -/
  | notCallable (name : String)
  /-- The name is no parameter. -/
  | unknownName (name : String)
  /-- The console has no such method. -/
  | unknownConsole (member : String)
  /-- Elements have no such method. -/
  | unknownMethod (receiver member : String)
  /-- The method is called with the wrong number of arguments. -/
  | argumentCount (method : String) (wanted given : Nat)
  /-- A fault told in words by a registered hook. -/
  | told (text : String)
deriving DecidableEq, Repr

/-- Words for a fault in hook code. -/
def HookFault.message : HookFault → String
  | strayCharacter c => s!"unexpected character `{c}`"
  | unterminatedText => "unterminated string"
  | integerOutOfRange => "integer out of range"
  | callExpected => "expected a call"
  | memberExpected => "expected a member name after `.`"
  | expected what => s!"expected {what}"
  | termExpected => "expected a string, a number or a parameter"
  | notCallable name => s!"`{name}` is not callable"
  | unknownName name => s!"unknown identifier `{name}`"
  | unknownConsole member => s!"unsupported console method `{member}`"
  | unknownMethod receiver member => s!"unsupported method `{receiver}.{member}`"
  | argumentCount method wanted given => s!"{method} takes {wanted} argument(s), got {given}"
  | told text => text

/-- A failure in words: what failed, and its causes from the nearest to the first. -/
structure Report where
  message : String
  causes : List String := []
deriving DecidableEq, Repr

namespace Report

/-- The message and its causes on one line. -/
def line (r : Report) : String := ": ".intercalate (r.message :: r.causes)

/-- The text with every line but the first moved in by `margin`. -/
def indentLines (margin text : String) : String :=
  ("\n" ++ margin).intercalate ((splitAll '\n' text.toList).map String.ofList)

/-- The causes of a report, one below the other; several are numbered. -/
def causeLines : List String → List String
  | [] => []
  | [cause] => ["    " ++ indentLines "    " cause]
  | causes => causes.mapIdx fun i cause =>
      let number := toString i
      String.ofList (List.replicate (5 - number.length) ' ') ++ number ++ ": "
        ++ indentLines "       " cause

/-- The message with its causes below it. -/
def details (r : Report) : String :=
  if r.causes.isEmpty then r.message
  else "\n".intercalate ((r.message ++ "\n\nCaused by:") :: causeLines r.causes)

end Report

/-- The failures of the engine. -/
inductive Error where
  /-- The root names no scope. -/
  | missingIdentifier
  /-- The scope has no element for the directive. -/
  | missingElement (directive : Directive)
  | invalidTemplate (fault : TemplateFault)
  /-- The directive needs a value. -/
  | missingAttribute (directive : Directive)
  /-- There is no hook code. -/
  | missingCode
  /-- The hook code holds a forbidden word. -/
  | forbiddenPattern (word : String)
  | invalidElement (fault : ElementFault)
  /-- The hook code is not well formed; the offset counts bytes. -/
  | hookSyntax (offset : Nat) (fault : HookFault)
  /-- The sum of two integers does not fit in a word. -/
  | hookOverflow (left right : Int)
  /-- No callback has the name. -/
  | unknownCallback (name : String)
  /-- The scope is in the midst of another flow. -/
  | busy (state : String)
  /-- The tree refused a change. -/
  | dom (cause : DomError)
  /-- A registered hook failed. -/
  | hook (report : Report)
deriving DecidableEq, Repr

namespace Error

/-- The text of an error for a reader. -/
def message : Error → String
  | missingIdentifier =>
    s!"missing identifier: the root element has no `{Directive.root.name}` attribute"
  | missingElement directive =>
    s!"missing element: no [{directive.name}] element for this scope"
  | invalidTemplate fault => s!"invalid template: {fault.message}"
  | missingAttribute directive =>
    s!"missing attribute: [{directive.name}] must carry a value"
  | missingCode => "hook code is empty"
  | forbiddenPattern word => s!"hook code contains the forbidden pattern `{word}`"
  | invalidElement fault => s!"invalid element: {fault.message}"
  | hookSyntax offset fault => s!"hook syntax error at offset {offset}: {fault.message}"
  | hookOverflow left right =>
    "hook arithmetic overflowed: " ++ String.ofList (decimal left) ++ " + "
      ++ String.ofList (decimal right)
  | unknownCallback name => s!"no callback registered under the name `{name}`"
  | busy state => s!"scope is busy ({state})"
  | dom cause => s!"DOM operation failed: {cause.message}"
  | hook report => s!"hook failed: {report.line}"

/-- Whether the error is one of the engine's own: neither the tree nor a registered hook failed. -/
def isExpected : Error → Bool
  | dom _ | hook _ => false
  | _ => true

/-- The text of an unexpected error for a log. -/
def description : Error → String
  | dom cause => s!"Dom({cause.description})"
  | hook report => s!"Hook({report.details})"
  | other => other.message

end Error

/-- How a registered hook fails. -/
inductive Failure where
  /-- An error of the engine that the hook hands on. -/
  | engine (error : Error)
  /-- A failure of the hook's own. -/
  | other (report : Report)
deriving DecidableEq, Repr

namespace Failure

/-- A failure told in words. -/
def ofText (message : String) : Failure := other { message }

/-- The failure of a hook whose change of the tree was refused. -/
def ofDom (cause : DomError) : Failure := ofText cause.message

/-- Puts a failure into a wider context. An error of the engine stays what it is. -/
def within (context : String) : Failure → Failure
  | engine error => engine error
  | other report => other ⟨context, report.message :: report.causes⟩

/-- The error of a flow in which a registered hook failed. -/
def toError : Failure → Error
  | engine error => error
  | other report => .hook report

end Failure

end Repeater
