import AccessReplay.Session

/-!
# Jobs

A job reads and writes files and prints on its way to a result.  It says what it
asks for and how it goes on after each answer; who does the reading and writing is
left open.  `inSession` does it in a session.
-/

namespace AccessReplay

/-- A computation that reads and writes files and prints. -/
inductive Job (α : Type) where
  | done (result : α)
  | read (path : String) (next : Except FileFault (List UInt8) → Job α)
  | write (path : String) (mode : WriteMode) (bytes : List UInt8)
    (next : Except FileFault Unit → Job α)
  | print (stream : StandardStream) (text : String) (next : Job α)

namespace Job

/-- One job after another. -/
def bind {α β : Type} : Job α → (α → Job β) → Job β
  | .done a, f => f a
  | .read path next, f => .read path fun answer => bind (next answer) f
  | .write path mode bytes next, f => .write path mode bytes fun answer => bind (next answer) f
  | .print stream text next, f => .print stream text (bind next f)

instance : Monad Job where
  pure := .done
  bind := bind

/-- Reads a file. -/
def contents (path : String) : Job (Except FileFault (List UInt8)) := .read path .done

/-- Writes a file anew. -/
def save (path : String) (bytes : List UInt8) : Job (Except FileFault Unit) :=
  .write path .replace bytes .done

/-- Writes at the end of a file. -/
def append (path : String) (bytes : List UInt8) : Job (Except FileFault Unit) :=
  .write path .extend bytes .done

/-- Makes a file ready to be written, and writes nothing yet. -/
def ready (path : String) (mode : WriteMode) : Job (Except FileFault Unit) :=
  .write path mode [] .done

/-- Prints a text. -/
def say (stream : StandardStream) (text : String) : Job Unit := .print stream text (.done ())

/-- Does a job in a session. -/
def inSession {α : Type} : Job α → Session → Session × α
  | .done a, s => (s, a)
  | .read path next, s => inSession (next (s.read path)) s
  | .write path mode bytes next, s =>
    match s.write path mode bytes with
    | .ok s => inSession (next (.ok ())) s
    | .error fault => inSession (next (.error fault)) s
  | .print stream text next, s => inSession next (s.print stream (utf8 text))

end Job
end AccessReplay
