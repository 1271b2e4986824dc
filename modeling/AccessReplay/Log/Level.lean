/-!
# Log levels

Levels are ordered from the gravest to the most talkative.  A module that logs at
a level logs everything at least as grave.
-/

namespace AccessReplay

/-- How grave a log line is. -/
inductive LogLevel where
  | fatal
  | error
  | warn
  | info
  | debug
deriving DecidableEq, Repr, Inhabited

namespace LogLevel

/-- Place among the levels, the gravest first. -/
def rank : LogLevel → Nat
  | .fatal => 0
  | .error => 1
  | .warn => 2
  | .info => 3
  | .debug => 4

/-- Does a module that logs at `limit` log lines of this level? -/
def within (level limit : LogLevel) : Bool := level.rank ≤ limit.rank

/-- The level a setting names; an unknown name means `warn`. -/
def ofName (s : String) : LogLevel :=
  if s = "fatal" then .fatal
  else if s = "error" then .error
  else if s = "info" then .info
  else if s = "debug" then .debug
  else .warn

/-- The label in front of a line. -/
def label : LogLevel → String
  | .fatal => "FATAL"
  | .error => "ERROR"
  | .warn => "WARN"
  | .info => "INFO"
  | .debug => "DEBUG"

end LogLevel
end AccessReplay
