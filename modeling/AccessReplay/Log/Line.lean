import AccessReplay.Log.Filter

/-!
# Log lines

A line says how grave it is, where in the program and by which thread it was
logged, and a message.  Lines for debugging name their module only.
-/

namespace AccessReplay

/-- Something to be logged. -/
structure LogEntry where
  level : LogLevel
  /-- The path of the module. -/
  path : String
  message : String
  file : String
  line : Nat
  /-- The name of the thread; it may have none. -/
  thread : Option String
deriving DecidableEq, Repr, Inhabited

namespace LogEntry

/-- What a line begins with that is not for debugging. -/
def origin (e : LogEntry) : String :=
  let thread := e.thread.getD "<unnamed>"
  s!"[{e.level.label} {e.file}:{e.line} {thread}] "

/-- The whole line. -/
def text (e : LogEntry) : String :=
  let start :=
    if e.level = .debug then s!"[{LogFilter.moduleName e.path}] " else e.origin
  start ++ e.message ++ "\n"

end LogEntry
end AccessReplay
