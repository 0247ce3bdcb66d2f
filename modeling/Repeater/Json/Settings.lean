/-
  Repeater/Json/Settings.lean
  ===========================
  **The configuration as JSON.**

  A configuration is an object with some of the four known keys; keys that are not known are
  skipped, and a known key may not be repeated. A list is accepted too: its elements are the four
  settings in order. What is not given keeps its default.
-/
import Repeater.Config
import Repeater.Json.Shape

namespace Repeater.Json

/-- The settings read so far. -/
structure Given where
  confirmTemplate : Option String := none
  defaultLabel : Option String := none
  startedValue : Option String := none
  controlTags : Option (List String) := none

namespace Given

/-- The configuration with everything that is not given at its default. -/
def config (given : Given) : Config :=
  let default : Config := {}
  { confirmTemplate := given.confirmTemplate.getD default.confirmTemplate
    defaultLabel := given.defaultLabel.getD default.defaultLabel
    startedValue := given.startedValue.getD default.startedValue
    controlTags := given.controlTags.getD default.controlTags }

/-- Reads a value after the colon, unless there was one for the key before. -/
def once {α : Type} (earlier : Option α) (value : Reader α) : Reader (Option α) := do
  if earlier.isSome then throw .shape
  colon
  return some (← value)

/-- Reads the value of a key. -/
def readKey (given : Given) (key : String) : Reader Given := do
  match key with
  | "confirm_template" =>
    return { given with confirmTemplate := ← once given.confirmTemplate text }
  | "default_delete_label" =>
    return { given with defaultLabel := ← once given.defaultLabel text }
  | "inited_value" => return { given with startedValue := ← once given.startedValue text }
  | "delete_control_tags" => return { given with controlTags := ← once given.controlTags texts }
  | _ =>
    colon
    skipAny
    return given

/-- Reads the entries of an object, at most `limit`, and its closing bracket. -/
def readEntries (given : Given) : Nat → Bool → Reader Given
  | 0, _ => throw .cut
  | limit + 1, first => do
    match ← nextKey? first with
    | none =>
      skipChar
      return given
    | some key => do
      let given ← given.readKey key
      readEntries given limit false

/-- Reads the settings in order from a list, and its closing bracket. -/
def readList : Reader Given := do
  let mut given : Given := {}
  if ← moreElements true then
    given := { given with confirmTemplate := some (← text) }
    if ← moreElements false then
      given := { given with defaultLabel := some (← text) }
      if ← moreElements false then
        given := { given with startedValue := some (← text) }
        if ← moreElements false then
          given := { given with controlTags := some (← texts) }
  closeList
  return given

end Given

/-- Reads a configuration. -/
def settings : Reader Config := do
  match ← peek with
  | none => throw .cut
  | some '{' =>
    skipChar
    return (← Given.readEntries {} ((← get).length + 1) true).config
  | some '[' =>
    skipChar
    return (← Given.readList).config
  | some c => refuse c

end Repeater.Json

namespace Repeater

/-- The configuration that a text of JSON gives. -/
def Config.ofJson (s : String) : Except Json.Fault Config := Json.readAll Json.settings s

end Repeater
