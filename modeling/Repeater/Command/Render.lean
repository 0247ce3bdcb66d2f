/-
  Repeater/Command/Render.lean
  ============================
  **Rendering a page.**

  A page is read from a file, its scopes are started, the steps are replayed and the result is
  printed. Files are asked of a function, so that rendering itself is pure.
-/
import Repeater.Command.Arguments
import Repeater.Markup.Construct
import Repeater.Markup.Printer
import Repeater.Page

namespace Repeater.Command

open Dom

/-- Why a file cannot be read. -/
inductive FileFault where
  | absent
  /-- The bytes of the file are not UTF-8. -/
  | notText
  /-- A fault told in words by the system. -/
  | told (text : String)
deriving DecidableEq, Repr

/-- Words for a fault of a file. -/
def FileFault.message : FileFault → String
  | absent => "No such file or directory (os error 2)"
  | notText => "stream did not contain valid UTF-8"
  | told text => text

/-- Why a page cannot be rendered. -/
inductive RenderFault where
  | page (path : String) (fault : FileFault)
  | config (path : String) (fault : FileFault)
  /-- The configuration is not one. -/
  | invalidConfig
  | selector (s : String)
  | scope (identifier : String)
deriving DecidableEq, Repr

/-- Words for a failed rendering. -/
def RenderFault.message : RenderFault → String
  | page path fault => s!"failed to read {path}: {fault.message}"
  | config path fault => s!"failed to read config {path}: {fault.message}: {fault.message}"
  | invalidConfig => "invalid config"
  | selector s => s!"invalid selector `{s}`"
  | scope identifier => s!"no scope named `{identifier}`"

/-- A host that gives one answer and shows questions and messages line by line. -/
def terminalHost (accept : Bool) : Host (Array String) where
  confirm message := do
    let answer := if accept then "yes" else "no"
    let shown := String.ofList (message.toList.map fun c => if c == '\n' then ' ' else c)
    modify fun out => { out with state := out.state.push s!"confirm: {shown} [{answer}]" }
    return accept
  alert message :=
    modify fun out => { out with state := out.state.push s!"alert: {message}" }

/-- The page of the command line. -/
abbrev Replayed := Page (Array String)

/-- A line of the log from the command line. -/
def commandLine (level : Level) (message : String) : LogLine := ⟨level, .command, message, []⟩

/-- Replays a step. -/
def Step.replay (page : Replayed) : Step → Except RenderFault Replayed
  | click s =>
    match Selector.parse? s with
    | none => .error (.selector s)
    | some selector =>
      match page.clickFirst selector with
      | (page, true) => .ok page
      | (page, false) => .ok (page.log (commandLine .warn s!"nothing matches {s}"))
  | add addition =>
    match page.scopeNamed? addition.scope with
    | none => .error (.scope addition.scope)
    | some number => .ok (page.addFromData number addition.data)

/-- Replays steps up to the first that fails. -/
def replayAll (page : Replayed) : List Step → Replayed × Option RenderFault
  | [] => (page, none)
  | step :: steps =>
    match step.replay page with
    | .error fault => (page, some fault)
    | .ok page => replayAll page steps

/-- The outcome of a rendering. -/
structure Rendering where
  fault : Option RenderFault := none
  /-- What is printed. -/
  output : String := ""
  /-- The questions and messages of the page. -/
  notices : Array String := #[]
  log : Array LogLine := #[]
deriving DecidableEq, Repr

/-- Reads the page and the configuration. -/
def loadPage (o : Options) (file : String → Except FileFault String) :
    Except RenderFault Replayed := do
  let html ← (file o.page).mapError (.page o.page)
  let config ← match o.config with
    | none => pure {}
    | some path => do
      let text ← (file path).mapError (.config path)
      (Config.ofJson text).mapError fun _ => .invalidConfig
  let document := Markup.read html s!"file://{o.page}"
  return { document, config, host := terminalHost (!o.decline), outside := ⟨#[], #[]⟩ }

/-- Renders a page. -/
def render (o : Options) (file : String → Except FileFault String) : Rendering :=
  match loadPage o file with
  | .error fault => { fault := some fault }
  | .ok page =>
    let page := page.startAll
    let page := page.log
      (commandLine .info s!"{page.scopes.size} scope(s) on {page.document.url}")
    let (page, fault) := replayAll page o.steps
    let style : Markup.Style := if o.pretty then .pretty else .compact
    let output :=
      if fault.isNone then Markup.outer page.tree page.document.html style ++ "\n" else ""
    { fault, output, notices := page.outside.state, log := page.outside.log }

end Repeater.Command
