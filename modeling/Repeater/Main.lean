/-
  Repeater/Main.lean
  ==================
  **The program.**

  Reads the files, renders the page, and writes the page to standard output and everything else to
  standard error.
-/
import Repeater.Command.Render

namespace Repeater

open Command

/-- How the program is used. -/
def usage : String :=
  "Usage: stamper [--verbose] render [--config FILE] [--click SELECTOR] [--add SCOPE=JSON] "
    ++ "[--decline] [--pretty] PAGE"

/-- What is said about arguments that are no command. -/
def usageText (e : UsageError) : String :=
  match e with
  | .displayHelp | .nothingGiven => usage
  | .displayVersion => "stamper " ++ Vocabulary.version
  | .missingCommand => "error: a command is required\n" ++ usage
  | .invalidCommand => "error: there is no such command\n" ++ usage
  | .unknownArgument => "error: unexpected argument\n" ++ usage
  | .invalidValue => "error: an option lacks its value\n" ++ usage
  | .conflict => "error: an option is given more than once\n" ++ usage
  | .tooManyValues => "error: a switch takes no value\n" ++ usage
  | .missingPage => "error: a page is required\n" ++ usage
  | .invalidAddition message => "error: " ++ message

/-- Reads a file as text. -/
def readText (path : String) : IO (Except FileFault String) := do
  try
    let bytes ← IO.FS.readBinFile path
    match String.fromUTF8? bytes with
    | some text => return .ok text
    | none => return .error .notText
  catch
    | .noFileOrDirectory .. => return .error .absent
    | e => return .error (.told e.toString)

/-- A line of the log as it is shown. -/
def logText (line : LogLine) : String :=
  let fields := line.fields.map fun (name, value) =>
    match value with
    | .text s => s!" {name}={s}"
    | .count n => s!" {name}={n}"
  s!"{line.level.name} {line.message}" ++ String.join fields

end Repeater

open Repeater Repeater.Command in
/-- Runs the command line. -/
def main (args : List String) : IO UInt32 := do
  let out ← IO.getStdout
  let err ← IO.getStderr
  match options args with
  | .error .displayHelp =>
    out.putStrLn (usageText .displayHelp)
    return 0
  | .error .displayVersion =>
    out.putStrLn (usageText .displayVersion)
    return 0
  | .error e =>
    err.putStrLn (usageText e)
    return 2
  | .ok o =>
    let page ← readText o.page
    let config ← match o.config with
      | some path => readText path
      | none => pure (.error .absent)
    let rendering := render o fun path => if path == o.page then page else config
    for line in rendering.log do
      if o.verbose || line.level != .debug then err.putStrLn (logText line)
    for notice in rendering.notices do err.putStrLn notice
    match rendering.fault with
    | some fault =>
      err.putStrLn ("Error: " ++ fault.message)
      return 1
    | none =>
      out.putStr rendering.output
      return 0
