/-
  Repeater/Log.lean
  =================
  **The log.**

  A log line has a level, the channel it comes from, a message and named fields.
-/

namespace Repeater

/-- How grave a log line is. -/
inductive Level where
  | debug | info | warn | error
deriving DecidableEq, Repr

/-- The name of a level. -/
def Level.name : Level → String
  | debug => "DEBUG"
  | info => "INFO"
  | warn => "WARN"
  | error => "ERROR"

/-- Where a log line comes from: hook code, the engine, or the command line. -/
inductive Channel where
  | hook | engine | command
deriving DecidableEq, Repr

/-- The value of a field. -/
inductive FieldValue where
  | text (s : String)
  | count (n : Nat)
deriving DecidableEq, Repr

/-- A line of the log. -/
structure LogLine where
  level : Level
  channel : Channel
  message : String
  fields : List (String × FieldValue) := []
deriving DecidableEq, Repr

end Repeater
