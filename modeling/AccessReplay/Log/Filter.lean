import AccessReplay.Log.Level
import AccessReplay.Text.Blank

/-!
# Log filters

Which lines are logged is said by a list of settings `module:level`, separated by
commas.  The module `all` stands for every module without a setting of its own,
and of several settings for one module the last one counts.  A module is named by
the last part of its path.
-/

namespace AccessReplay

/-- Which lines are logged. -/
structure LogFilter where
  /-- The level of modules without a setting. -/
  fallback : LogLevel
  /-- The settings, the latest first. -/
  settings : List (String × LogLevel) := []
deriving DecidableEq, Repr, Inhabited

namespace LogFilter

/-- What is logged if nothing is said. -/
def unset : LogFilter := ⟨.error, []⟩

/-- One setting; without a colon it says nothing. -/
def addSetting (f : LogFilter) (setting : List Char) : LogFilter :=
  match setting.dropWhile (· != ':') with
  | [] => f
  | _ :: after =>
    let module := String.ofList (Text.trimmed (setting.takeWhile (· != ':')))
    let level := LogLevel.ofName (String.ofList (Text.trimmed after))
    if module = "all" then { f with fallback := level }
    else { f with settings := (module, level) :: f.settings }

/-- The filter that a list of settings says.  Modules without a setting log
everything, unless `all` says otherwise. -/
def ofText (text : String) : LogFilter :=
  ((text.splitOn ",").map String.toList).foldl addSetting ⟨.debug, []⟩

/-- The level of a module. -/
def threshold (f : LogFilter) (module : String) : LogLevel :=
  match f.settings.find? (·.1 == module) with
  | some setting => setting.2
  | none => f.fallback

/-- The part of a path after its last double colon. -/
def lastPart : List Char → List Char → List Char
  | part, [] => part
  | part, c :: rest =>
    if c = ':' ∧ rest.head? = some ':' then lastPart (rest.drop 1) rest else lastPart part rest

/-- The name of the module at a path. -/
def moduleName (path : String) : String :=
  String.ofList (lastPart path.toList path.toList)

/-- Is a line of this level logged for the module at a path? -/
def admits (f : LogFilter) (level : LogLevel) (path : String) : Bool :=
  level.within (f.threshold (moduleName path))

end LogFilter
end AccessReplay
