import AccessReplay.Patience
import AccessReplay.CommandLine.Scan
import AccessReplay.Location.Key

/-!
# Options

What the program can be asked to do.  The options of the replay's patience come
first, then a command with its own options and the dump it is about.
-/

namespace AccessReplay

/-- What to do with a dump. -/
inductive Command where
  /-- Print a summary. -/
  | info (dump : String)
  /-- Print the recorded accesses, of one location or of all. -/
  | listing (dump : String) (only : Option LocationKey)
  /-- Act the dump out. -/
  | simulate (dump : String) (output : Option String) (chaos : Bool) (settleMillis : Nat)
deriving DecidableEq, Repr, Inhabited

/-- The kinds of commands. -/
inductive CommandKind where
  | info
  | listing
  | simulate
deriving DecidableEq, Repr, Inhabited

/-- The kind of a command. -/
def Command.kind : Command → CommandKind
  | .info _ => .info
  | .listing _ _ => .listing
  | .simulate _ _ _ _ => .simulate

/-- What is said if a command of another kind is expected. -/
def CommandKind.mismatch : CommandKind → String
  | .info => "Unexpected ShreplaySubCommand variant. Not an `Info` variant!"
  | .listing => "Unexpected ShreplaySubCommand variant. Not a `Dump` variant!"
  | .simulate => "Unexpected ShreplaySubCommand variant. Not a `Simulate` variant!"

/-- What a command line asks for. -/
structure Options where
  maxRetries : Nat := 20000
  yieldLimit : Nat := 1000
  sleepMicros : Nat := 100
  command : Command
deriving DecidableEq, Repr, Inhabited

namespace Options

open CommandLine

/-- The patience asked for. -/
def budget (o : Options) : Budget := ⟨o.maxRetries, o.yieldLimit, .ofMicros o.sleepMicros⟩

/-- The location that a text names: an object's number, a colon, and a field that is
not empty. -/
def location? (text : List Char) : Option LocationKey :=
  match text.dropWhile (· != ':') with
  | _ :: c :: field =>
    match Text.readUnsigned Text.bound64 (text.takeWhile (· != ':')) with
    | .ok object => some ⟨⟨UInt64.ofNat object⟩, String.ofList (c :: field)⟩
    | .error _ => none
  | _ => none

/-- The number below a bound that a text is. -/
def number? (bound : Nat) (text : String) : Option Nat :=
  match Text.readUnsigned bound text.toList with
  | .ok n => some n
  | .error _ => none

/-- A numeric option with a default. -/
def numeric (long : String) (bound : Nat) : Switch where
  long := long
  hasDefault := true
  accepts := fun text => (number? bound text).isSome

/-- Everything before the command. -/
def outer : Grammar where
  switches :=
    [numeric "max-retries" Text.bound32, numeric "yield-limit" Text.bound32,
      numeric "sleep-us" Text.bound64]
  commands := ["info", "dump", "simulate", "help"]

/-- The command that prints a summary. -/
def infoGrammar : Grammar where
  switches := []
  arguments := 1

/-- The command that prints the recorded accesses. -/
def listingGrammar : Grammar where
  switches :=
    [{ long := "location", short := some 'l', accepts := fun s => (location? s.toList).isSome }]
  arguments := 1

/-- The command that acts a dump out. -/
def simulateGrammar : Grammar where
  switches :=
    [{ long := "output", short := some 'o' }, { long := "chaos", takesValue := false },
      numeric "settle-ms" Text.bound64]
  arguments := 1

/-- A number that was accepted, or the default. -/
def numberOr (s : Scan) (name : String) (bound default : Nat) : Nat :=
  ((s.value? name).bind (number? bound)).getD default

/-- Reads the rest of a line in a grammar without commands. -/
def readLevel (g : Grammar) (args : List String) : Except Refusal Scan := do
  let (s, _) ← Scan.line g {} args
  s.check g
  return s

/-- What asking for help on a chain of commands comes to. -/
def helpOn : List String → Refusal
  | [] => .help
  | [name] => if outer.commands.contains name then .help else .usage
  | _ :: _ :: _ => .usage

/-- Reads a command with its arguments. -/
def readCommand (name : String) (args : List String) : Except Refusal Command :=
  match name with
  | "info" => do
    let s ← readLevel infoGrammar args
    return .info (s.argumentAt 0)
  | "dump" => do
    let s ← readLevel listingGrammar args
    return .listing (s.argumentAt 0) ((s.value? "location").bind fun t => location? t.toList)
  | "simulate" => do
    let s ← readLevel simulateGrammar args
    return .simulate (s.argumentAt 0) (s.value? "output") (s.count "chaos" != 0)
      (numberOr s "settle-ms" Text.bound64 5000)
  | _ => .error (helpOn args)

/-- Reads a command line.  A command's own faults come before those of the options in
front of it. -/
def read (args : List String) : Except Refusal Options := do
  match ← Scan.line outer {} args with
  | (_, none) => .error .usage
  | (s, some (name, rest)) =>
    let command ← readCommand name rest
    s.check outer
    return {
      maxRetries := numberOr s "max-retries" Text.bound32 20000
      yieldLimit := numberOr s "yield-limit" Text.bound32 1000
      sleepMicros := numberOr s "sleep-us" Text.bound64 100
      command }

end Options
end AccessReplay
