/-!
# Scanning command lines

A command line is scanned from the left.  `--name value`, `--name=value`,
`-n value` and `-nvalue` give an option its value, a value that begins with `-`
is taken for an option of its own, and after `--` everything is a plain argument.
The first plain argument that names a command hands the rest of the line over to
it.

What an option line may hold at one level is a `Grammar`.  A line is refused with
the first fault met while scanning; what was scanned is then checked as a whole
(`Scan.check`): first that nothing is missing, then each option's values, then
that no option is repeated.
-/

namespace AccessReplay.CommandLine

/-- Why a command line is not carried out. -/
inductive Refusal where
  /-- It asks for help. -/
  | help
  /-- It asks for the version. -/
  | version
  /-- An option's value is not of the kind that the option takes. -/
  | value
  /-- It is not a line of the program's grammar. -/
  | usage
deriving DecidableEq, Repr, Inhabited

/-- An option. -/
structure Switch where
  /-- Its name after `--`. -/
  long : String
  /-- Its letter after `-`. -/
  short : Option Char := none
  takesValue : Bool := true
  /-- Is there a value to fall back to? -/
  hasDefault : Bool := false
  /-- Is this a value of the option? -/
  accepts : String → Bool := fun _ => true

/-- What may be written at one level. -/
structure Grammar where
  switches : List Switch
  /-- How many plain arguments there are; all of them have to be given. -/
  arguments : Nat := 0
  /-- The commands that the rest of the line may be handed over to. -/
  commands : List String := []

/-- An option given on a command line. -/
structure Given where
  /-- The long name of the option. -/
  name : String
  value : Option String := none
deriving DecidableEq, Repr, Inhabited

/-- What was scanned so far. -/
structure Scan where
  /-- The options given, the latest first. -/
  given : List Given := []
  /-- The plain arguments, the latest first. -/
  arguments : List String := []
  /-- The option that the next argument may be the value of. -/
  awaiting : Option String := none
  /-- Was `--` seen? -/
  plain : Bool := false
deriving DecidableEq, Repr, Inhabited

namespace Scan

/-- An option without its value. -/
def await (s : Scan) (w : Switch) : Scan :=
  { s with given := ⟨w.long, none⟩ :: s.given, awaiting := some w.long }

/-- An option with its value, or one that takes none. -/
def give (s : Scan) (w : Switch) (value : Option String) : Scan :=
  { s with given := ⟨w.long, value⟩ :: s.given, awaiting := none }

/-- The value of the option that awaits one. -/
def supply (s : Scan) (name value : String) : Scan :=
  { s with given := ⟨name, some value⟩ :: s.given.drop 1, awaiting := none }

/-- A plain argument. -/
def argument (g : Grammar) (s : Scan) (arg : String) : Except Refusal Scan :=
  if s.arguments.length < g.arguments then .ok { s with arguments := arg :: s.arguments }
  else .error .usage

/-- A value without the equals signs in front of it. -/
def unequal (value : List Char) : String := String.ofList (value.dropWhile (· == '='))

/-- An option by its long name, hyphens in front and all. -/
def long (g : Grammar) (s : Scan) (arg : String) : Except Refusal Scan :=
  let body := arg.toList.dropWhile (· == '-')
  let name := String.ofList (body.takeWhile (· != '='))
  let value := (body.dropWhile (· != '=')).drop 1
  let hasValue := body.contains '='
  match g.switches.find? (·.long == name) with
  | some w =>
    if !w.takesValue then .ok (s.give w none)
    else if hasValue then .ok (s.give w (some (unequal value)))
    else .ok (s.await w)
  | none =>
    if name = "help" then .error .help
    else if name = "version" then .error .version
    else .error .usage

/-- Options by their letters; the first one that takes a value ends them. -/
def letters (g : Grammar) (s : Scan) : List Char → Except Refusal Scan
  | [] => .ok s
  | c :: rest =>
    match g.switches.find? (·.short == some c) with
    | some w =>
      if !w.takesValue then letters g (s.give w none) rest
      else if rest.isEmpty then .ok (s.await w)
      else .ok (s.give w (some (unequal rest)))
    | none =>
      if c = 'h' then .error .help
      else if c = 'V' then .error .version
      else .error .usage

/-- Takes one argument that names no command. -/
def take (g : Grammar) (s : Scan) (arg : String) : Except Refusal Scan :=
  if s.plain then s.argument g arg
  else if arg = "--" then .ok { s with plain := true }
  else if arg.startsWith "--" then s.long g arg
  else if arg.startsWith "-" && arg != "-" then
    letters g s (arg.toList.dropWhile (· == '-'))
  else match s.awaiting with
    | some name => .ok (s.supply name arg)
    | none => s.argument g arg

/-- Does an argument hand the rest of the line over? -/
def isCommand (g : Grammar) (s : Scan) (arg : String) : Bool :=
  !s.plain && s.awaiting.isNone && g.commands.contains arg

/-- Takes arguments until the line ends or the rest is handed over; then the command
and its arguments are given as well. -/
def line (g : Grammar) (s : Scan) : List String →
    Except Refusal (Scan × Option (String × List String))
  | [] => .ok (s, none)
  | arg :: rest =>
    if s.isCommand g arg then .ok (s, some (arg, rest))
    else match s.take g arg with
      | .ok s => line g s rest
      | .error refusal => .error refusal

/-! ## The whole line -/

/-- The values given to an option. -/
def values (s : Scan) (name : String) : List String :=
  (s.given.reverse.filter (·.name == name)).filterMap (·.value)

/-- How often an option is given. -/
def count (s : Scan) (name : String) : Nat := s.given.countP (·.name == name)

/-- Is an option given without a value although it needs one? -/
def lacksValue (s : Scan) (w : Switch) : Bool :=
  w.takesValue && !w.hasDefault && s.count w.long != 0 && (s.values w.long).isEmpty

/-- Checks one option. -/
def checkSwitch (s : Scan) (w : Switch) : Except Refusal Unit :=
  if s.lacksValue w then .error .usage
  else if !(s.values w.long).all w.accepts then .error .value
  else if 1 < s.count w.long then .error .usage
  else .ok ()

/-- Checks what was scanned as a whole. -/
def check (g : Grammar) (s : Scan) : Except Refusal Unit :=
  if s.arguments.length < g.arguments then .error .usage
  else if g.switches.any fun w => s.awaiting == some w.long && s.lacksValue w then
    .error .usage
  else g.switches.forM (s.checkSwitch ·)

/-- The value of an option. -/
def value? (s : Scan) (name : String) : Option String := (s.values name).head?

/-- A plain argument by its place. -/
def argumentAt (s : Scan) (i : Nat) : String := s.arguments.reverse.getD i ""

end Scan
end AccessReplay.CommandLine
