import Quasi.Settings.Basic

/-!
# Log levels

Records carry a level, and a logger lets those through that reach its own. Levels are ordered by
number. An unknown level name means warnings.
-/

namespace Quasi

inductive LogLevel where
  | debug
  | warning
  | error
deriving DecidableEq, Repr

namespace LogLevel

def number : LogLevel → Nat
  | .debug => 10
  | .warning => 30
  | .error => 40

def name : LogLevel → String
  | .debug => "DEBUG"
  | .warning => "WARNING"
  | .error => "ERROR"

end LogLevel

/-- A record that the runtime or a program logged. -/
structure LogRecord where
  level : LogLevel
  message : String
deriving DecidableEq, Repr

namespace Logging

/-- The number of a level name. -/
def levelNumber (name : String) : Nat :=
  match name with
  | "NOTSET" => 0
  | "DEBUG" => 10
  | "INFO" => 20
  | "WARNING" => 30
  | "WARN" => 30
  | "ERROR" => 40
  | "CRITICAL" => 50
  | "FATAL" => 50
  | _ => 30

/-- The level that a request names, or else the settings. -/
def requestedLevel (settings : Settings) (level : Option String) : String :=
  match level with
  | some name => if name = "" then settings.logLevel else Text.upper name
  | none => settings.logLevel

/-- A line of the log without its time. -/
def line (logger : String) (record : LogRecord) : String :=
  s!"{logger} - {record.level.name} - {record.message}"

/-- The lines that appear when logging is set up at a level and `records` follow. -/
def setUp (level : String) (records : List (String × LogRecord)) : List String :=
  let opening := ("rho.logging_config", ⟨.debug, s!"rho logging at {level}"⟩)
  let passing := (opening :: records).filter fun record =>
    levelNumber level ≤ record.2.level.number
  passing.map fun record => line record.1 record.2

end Logging

end Quasi
