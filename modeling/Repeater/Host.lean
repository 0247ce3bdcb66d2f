/-
  Repeater/Host.lean
  ==================
  **The world outside a page.**

  A page does not talk to its user by itself: a `Host` answers confirmations and shows alerts. What
  the host and the registered hooks keep for themselves is a state of any type, which the page
  carries along together with the log (`Outside`).
-/
import Repeater.Log

namespace Repeater

/-- What lies outside the document: the state of the host and of the registered hooks, and the
    log. -/
structure Outside (σ : Type) where
  state : σ
  log : Array LogLine := #[]

namespace Outside

variable {σ : Type}

/-- Adds a line to the log. -/
def write (line : LogLine) (out : Outside σ) : Outside σ := { out with log := out.log.push line }

end Outside

/-- Answers the questions of a page and shows its messages. -/
structure Host (σ : Type) where
  /-- Asks for a yes or a no. -/
  confirm : String → StateM (Outside σ) Bool
  /-- Shows a message. -/
  alert : String → StateM (Outside σ) Unit

namespace Host

variable {σ τ : Type}

/-- Says yes to everything; alerts go to the log. -/
def auto : Host σ where
  confirm _ := pure true
  alert message := modify (·.write ⟨.info, .engine, s!"alert: {message}", []⟩)

/-- Uses a host on one part of a larger state. -/
def onPart (host : Host τ) (part : σ → τ) (replace : σ → τ → σ) : Host σ :=
  let run {α : Type} (act : StateM (Outside τ) α) : StateM (Outside σ) α := fun out =>
    let (value, inner) := act.run ⟨part out.state, out.log⟩
    (value, ⟨replace out.state inner.state, inner.log⟩)
  { confirm := fun message => run (host.confirm message)
    alert := fun message => run (host.alert message) }

end Host

/-- A fixed answer, and all the questions and messages so far. -/
structure Script where
  answer : Bool
  confirms : Array String := #[]
  alerts : Array String := #[]
deriving DecidableEq, Repr

/-- Gives a fixed answer to every question and records questions and messages. -/
def Host.scripted : Host Script where
  confirm message := do
    let out ← get
    set { out with state := { out.state with confirms := out.state.confirms.push message } }
    return out.state.answer
  alert message :=
    modify fun out =>
      { out with state := { out.state with alerts := out.state.alerts.push message } }

end Repeater
