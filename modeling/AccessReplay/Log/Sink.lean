import AccessReplay.Job
import AccessReplay.Log.Line
import AccessReplay.Text.Decimal
import AccessReplay.Text.Quoted

/-!
# Where log lines go

The environment says which lines are logged and where they go: to a file that is
emptied first, to the end of a file, or to the standard error stream, which also
takes them if the file cannot be opened.  The file is opened when the first line
is logged.  A buffer changes when lines are written, but not what is written.
-/

namespace AccessReplay

/-- What the environment says about logging. -/
structure LogVariables where
  filter : Option String := none
  /-- The file that is emptied first. -/
  file : Option String := none
  /-- The file that is added to. -/
  appendFile : Option String := none
  buffer : Option String := none
deriving DecidableEq, Repr, Inhabited

namespace LogVariables

/-- The name of the variable that says which lines are logged. -/
def filterName : String := "SHREPLAY_LOG"

/-- The name of the variable with the file that is emptied first. -/
def fileName : String := "SHREPLAY_LOG_FILE"

/-- The name of the variable with the file that is added to. -/
def appendFileName : String := "SHREPLAY_APPEND_LOG_FILE"

/-- The name of the variable with the size of the buffer. -/
def bufferName : String := "SHREPLAY_LOG_BUFFER"

/-- What an environment says. -/
def ofEnvironment (get : String → Option String) : LogVariables :=
  ⟨get filterName, get fileName, get appendFileName, get bufferName⟩

/-- Which lines are logged. -/
def logFilter (v : LogVariables) : LogFilter := v.filter.elim .unset LogFilter.ofText

/-- What is said of a file that cannot be opened. -/
def cannotOpen (name path : String) (fault : FileFault) : String :=
  s!"shreplay: can't open {Text.quoted path} named by {name}: {fault.message}; " ++
    "logging to stderr\n"

/-- What is said of the buffer's size. -/
def bufferComplaint (v : LogVariables) : String :=
  match v.buffer with
  | none => ""
  | some size =>
    match Text.readUnsigned Text.bound64 size.toList with
    | .ok _ => ""
    | .error fault => s!"shreplay: ignoring {bufferName}: {fault.message}\n"

/-- The file that the lines go to, if there is one: the name of the variable, the path,
and how the file is opened. -/
def target? (v : LogVariables) : Option (String × String × WriteMode) :=
  match v.file, v.appendFile with
  | some path, _ => some (fileName, path, .replace)
  | none, some path => some (appendFileName, path, .extend)
  | none, none => none

/-- Logs lines.  What keeps an open file from taking them loses them. -/
def emit (v : LogVariables) (entries : List LogEntry) : Job Unit :=
  if entries.isEmpty then .done ()
  else
    let lines := String.join (entries.map LogEntry.text)
    match v.target? with
    | none => Job.say .errors (v.bufferComplaint ++ lines)
    | some (name, path, mode) => do
      match ← Job.ready path mode with
      | .error fault =>
        Job.say .errors (cannotOpen name path fault ++ v.bufferComplaint ++ lines)
      | .ok () =>
        Job.say .errors v.bufferComplaint
        discard (Job.append path (utf8 lines))

end LogVariables
end AccessReplay
