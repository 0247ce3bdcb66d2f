/-
  Repeater/Command/Arguments.lean
  ===============================
  **The command line.**

      stamper [-v] render [-v] [-c FILE] [--click SELECTOR]… [--add SCOPE=JSON]… [--decline]
        [--pretty] PAGE

  Options may stand anywhere after the command; a value follows its option as the next argument, or
  in the same argument after an equals sign, or right after a short option. After `--`
  everything is a page. An option that awaits its value holds it back until something else is
  recognized: only then are values checked, so that of two faults the one recognized first counts.
-/
import Repeater.Json.Settings

namespace Repeater.Command

open Text

/-- Why the arguments are not a command, or what they ask for instead of one. -/
inductive UsageError where
  | displayHelp
  | displayVersion
  /-- There is nothing at all. -/
  | nothingGiven
  | missingCommand
  | invalidCommand
  | unknownArgument
  /-- An option has no value, or one that must not be empty is empty. -/
  | invalidValue
  /-- An option is given more than once. -/
  | conflict
  /-- A switch has a value. -/
  | tooManyValues
  | missingPage
  /-- A value is not what its option asks for. -/
  | invalidAddition (message : String)
deriving DecidableEq, Repr

/-- An addition from data: the identifier of the scope, and the texts by slot in ascending order. -/
structure Addition where
  scope : String
  data : List (String × String)
deriving DecidableEq, Repr

/-- What `render` is asked to do. The positions tell in which order clicks and additions stand. -/
structure Options where
  page : String := ""
  config : Option String := none
  clicks : List String := []
  clickPositions : List Nat := []
  additions : List Addition := []
  additionPositions : List Nat := []
  decline : Bool := false
  pretty : Bool := false
  verbose : Bool := false
deriving DecidableEq, Repr

/-! ## Additions -/

/-- Puts an entry into a list of entries in ascending order, in place of one of the same key. -/
def insertEntry (entry : String × String) : List (String × String) → List (String × String)
  | [] => [entry]
  | e :: rest =>
    if entry.1 = e.1 then entry :: rest
    else if entry.1 < e.1 then entry :: e :: rest
    else e :: insertEntry entry rest

/-- Reads an addition: the identifier of a scope, an equals sign, and an object of texts. -/
def Addition.ofText (value : String) : Except UsageError Addition :=
  match splitFirst? '=' value.toList with
  | none => .error (.invalidAddition s!"expected <scope>=<json>, got `{value}`")
  | some (scope, json) =>
    if scope.isEmpty then .error (.invalidAddition "scope identifier is empty")
    else
      let scope := String.ofList scope
      match Json.readAll Json.entries (String.ofList json) with
      | .error _ => .error (.invalidAddition s!"invalid data for `{scope}`")
      | .ok entries => .ok ⟨scope, entries.foldl (fun data e => insertEntry e data) []⟩

/-! ## Reading arguments -/

/-- Options without a value. -/
inductive Switch where
  | verbose | decline | pretty | help | version
deriving DecidableEq, Repr

/-- Options with a value. -/
inductive Valued where
  | config | click | add
deriving DecidableEq, Repr

/-- What the name of an option stands for. -/
inductive Known where
  | switch (s : Switch)
  | valued (v : Valued)
deriving DecidableEq, Repr

/-- The options of `render` by their long names. -/
def longOption? : String → Option Known
  | "verbose" => some (.switch .verbose)
  | "decline" => some (.switch .decline)
  | "pretty" => some (.switch .pretty)
  | "help" => some (.switch .help)
  | "config" => some (.valued .config)
  | "click" => some (.valued .click)
  | "add" => some (.valued .add)
  | _ => none

/-- The options of `render` by their short names. -/
def shortOption? : Char → Option Known
  | 'v' => some (.switch .verbose)
  | 'h' => some (.switch .help)
  | 'c' => some (.valued .config)
  | _ => none

/-- The options before the command by their long names. -/
def outerLong? : String → Option Known
  | "verbose" => some (.switch .verbose)
  | "help" => some (.switch .help)
  | "version" => some (.switch .version)
  | _ => none

/-- The options before the command by their short names. -/
def outerShort? : Char → Option Known
  | 'v' => some (.switch .verbose)
  | 'h' => some (.switch .help)
  | 'V' => some (.switch .version)
  | _ => none

/-- What has been recognized but not yet taken up. -/
inductive Pending where
  /-- An option with its value, if that has come. -/
  | option (v : Valued) (value : Option String)
  | page (value : String)
deriving DecidableEq, Repr

/-- How far the arguments have been read. -/
structure Progress where
  options : Options := {}
  /-- How many options and values have been taken up. -/
  position : Nat := 0
  pending : Option Pending := none
  /-- Whether a page has been seen. -/
  hasPage : Bool := false
  /-- Whether only pages may follow. -/
  onlyPages : Bool := false
deriving DecidableEq, Repr

namespace Progress

/-- Takes up the value of an option. -/
def store (p : Progress) (v : Valued) (value : String) : Except UsageError Progress := do
  let place := p.position + 2
  let o := p.options
  let options ← match v with
    | .config => do
      if o.config.isSome then throw .conflict
      if value.isEmpty then throw .invalidValue
      pure { o with config := some value }
    | .click =>
      pure { o with clicks := o.clicks ++ [value], clickPositions := o.clickPositions ++ [place] }
    | .add => do
      let addition ← Addition.ofText value
      pure { o with
        additions := o.additions ++ [addition]
        additionPositions := o.additionPositions ++ [place] }
  return { p with options, position := place }

/-- Takes up what is pending. -/
def settle (p : Progress) : Except UsageError Progress := do
  let rest := { p with pending := none }
  match p.pending with
  | none => return p
  | some (.option _ none) => throw .invalidValue
  | some (.option v (some value)) => rest.store v value
  | some (.page value) =>
    if value.isEmpty then throw .invalidValue
    return { rest with options := { p.options with page := value }, position := p.position + 1 }

/-- Takes up a switch; none may be given twice. -/
def turnOn (p : Progress) (s : Switch) : Except UsageError Progress := do
  let p ← p.settle
  let o := p.options
  let once (before : Bool) (after : Options) : Except UsageError Progress :=
    if before then throw .conflict
    else pure { p with options := after, position := p.position + 1 }
  match s with
  | .verbose => once o.verbose { o with verbose := true }
  | .decline => once o.decline { o with decline := true }
  | .pretty => once o.pretty { o with pretty := true }
  | .help => throw .displayHelp
  | .version => throw .displayVersion

/-- Takes up an option with the value attached to it, or lets it await its value. -/
def beginOption (p : Progress) (v : Valued) (attached : Option String) :
    Except UsageError Progress := do
  let p ← p.settle
  match attached with
  | some value => p.store v value
  | none => return { p with pending := some (.option v none) }

/-- Reads an argument with a long name, which follows two hyphens. -/
def long (lookUp : String → Option Known) (p : Progress) (body : List Char) :
    Except UsageError Progress := do
  let (name, attached) := match splitFirst? '=' body with
    | some (name, value) => (name, some (String.ofList value))
    | none => (body, none)
  match lookUp (String.ofList name) with
  | none => throw .unknownArgument
  | some (.valued v) => p.beginOption v attached
  | some (.switch s) => if attached.isSome then throw .tooManyValues else p.turnOn s

/-- Reads an argument with short names, which follow one hyphen. -/
def short (lookUp : Char → Option Known) (p : Progress) : List Char → Except UsageError Progress
  | [] => return p
  | c :: rest =>
    match lookUp c with
    | none => throw .unknownArgument
    | some (.switch s) => do short lookUp (← p.turnOn s) rest
    | some (.valued v) =>
      let attached := match rest with
        | [] => none
        | '=' :: value => some (String.ofList value)
        | value => some (String.ofList value)
      p.beginOption v attached

/-- Whether an option awaits its value. -/
def awaits? (p : Progress) : Option Valued :=
  match p.pending with
  | some (.option v none) => some v
  | _ => none

/-- Reads an argument that is not an option. -/
def plain (p : Progress) (arg : String) : Except UsageError Progress := do
  if p.hasPage then throw .unknownArgument
  let p ← p.settle
  return { p with pending := some (.page arg), hasPage := true }

/-- Reads an argument of `render`. -/
def argument (p : Progress) (arg : String) : Except UsageError Progress :=
  if p.onlyPages then p.plain arg
  else match arg.toList with
    | ['-', '-'] => return { p with onlyPages := true }
    | '-' :: '-' :: body => p.long longOption? body
    | '-' :: c :: body => p.short shortOption? (c :: body)
    | _ =>
      match p.awaits? with
      | some v => return { p with pending := some (.option v (some arg)) }
      | none => p.plain arg

end Progress

/-- Reads the arguments of `render`. -/
def renderOptions (args : List String) : Except UsageError Options := do
  let p ← args.foldlM Progress.argument {}
  let p ← p.settle
  unless p.hasPage do throw .missingPage
  return p.options

/-- What `help` answers: help on a command, if the arguments after it name one. -/
def helpFor : List String → UsageError
  | [] => .displayHelp
  | ["render"] => .displayHelp
  | ["help"] => .displayHelp
  | _ => .invalidCommand

/-- Reads the arguments before the command, and then those after it. -/
def outerArguments (p : Progress) : List String → Except UsageError Options
  | [] => throw (if p.position = 0 then .nothingGiven else .missingCommand)
  | arg :: rest =>
    if p.onlyPages then
      throw (if arg == "render" || arg == "help" then .unknownArgument else .invalidCommand)
    else if arg == "render" then do
      let options ← renderOptions rest
      return { options with verbose := options.verbose || p.options.verbose }
    else if arg == "help" then throw (helpFor rest)
    else match arg.toList with
      | ['-', '-'] => outerArguments { p with onlyPages := true } rest
      | '-' :: '-' :: body => do outerArguments (← p.long outerLong? body) rest
      | '-' :: c :: body => do outerArguments (← p.short outerShort? (c :: body)) rest
      | _ => throw .invalidCommand

/-- Reads the arguments after the name of the program. -/
def options (args : List String) : Except UsageError Options := outerArguments {} args

/-! ## Steps -/

/-- A step that is replayed on the page. -/
inductive Step where
  | click (selector : String)
  | add (addition : Addition)
deriving DecidableEq, Repr

/-- The values with their positions; a value without one takes its place in the list, counted from
    `start`. -/
def placed {α : Type} (start : Nat) (values : List α) (positions : List Nat) : List (Nat × α) :=
  values.mapIdx fun i value => (positions.getD i (start + i), value)

/-- The clicks and additions in the order of their positions. -/
def Options.steps (o : Options) : List Step :=
  let clicks := (placed 0 o.clicks o.clickPositions).map fun (i, s) => (i, Step.click s)
  let additions := (placed o.clicks.length o.additions o.additionPositions).map
    fun (i, a) => (i, Step.add a)
  ((clicks ++ additions).mergeSort fun a b => a.1 ≤ b.1).map (·.2)

/-- The same options with nothing known about positions: all clicks come before all additions. -/
def Options.withoutPositions (o : Options) : Options :=
  { o with clickPositions := [], additionPositions := [] }

end Repeater.Command
