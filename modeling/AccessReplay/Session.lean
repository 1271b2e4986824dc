import AccessReplay.File.StandardTree

/-!
# Sessions

A session is what the program finds around it while it runs, and what becomes of
it: a tree of files, in which relative paths start at the folder that the program
works in, and the two streams that it prints on.  A path can lead to a stream too.
-/

namespace AccessReplay

/-- How a file is written. -/
inductive WriteMode where
  /-- What was in it is gone. -/
  | replace
  /-- What is written comes after what was in it. -/
  | extend
deriving DecidableEq, Repr

/-- What is in a file after something was written to it. -/
def WriteMode.apply (before written : List UInt8) : WriteMode → List UInt8
  | .replace => written
  | .extend => before ++ written

/-- The bytes of a text. -/
def utf8 (text : String) : List UInt8 := text.toUTF8.toList

/-- What is around the program. -/
structure Session where
  tree : FileTree
  /-- What was written to the output stream. -/
  output : List UInt8 := []
  /-- What was written to the stream for errors. -/
  errors : List UInt8 := []
deriving Inhabited

namespace Session

/-- A session that begins with files in the folder that the program works in. -/
def ofFiles (files : List (String × List UInt8)) : Session where
  tree := StandardTree.around <|
    StandardTree.folder (files.map fun entry => (entry.1, .file entry.2))

/-- What is written to a stream. -/
def print (s : Session) (stream : StandardStream) (bytes : List UInt8) : Session :=
  match stream with
  | .output => { s with output := s.output ++ bytes }
  | .errors => { s with errors := s.errors ++ bytes }

/-- The place that several names of a path lead to. -/
def reach (s : Session) (path : Path) (names : List String) : Except FileFault Place :=
  s.tree.followAll (if path.absolute then [] else StandardTree.workplace) names

/-! ## Reading -/

/-- The contents of what is at a place. -/
def readAt (s : Session) (p : Place) : Except FileFault (List UInt8) :=
  match s.tree.at? p with
  | some (.file contents) => .ok contents
  | some (.device device) => device.contents
  | some (.folder _ _) => .error .isDirectory
  | _ => .error .notFound

/-- The contents of the file at a path.  A slash after its name says that it is a
folder. -/
def read (s : Session) (path : String) : Except FileFault (List UInt8) := do
  let path ← Path.ofText path
  let p ← s.reach path path.names
  if path.closed && !s.tree.isFolderAt p then throw .notDirectory
  else s.readAt p

/-! ## Writing -/

/-- Writes to a device.  A fault that comes from the bytes needs some. -/
def feed (s : Session) (device : Device) (bytes : List UInt8) : Except FileFault Session :=
  let refuse (fault : FileFault) := if bytes.isEmpty then .ok s else .error fault
  match device with
  | .null => .ok s
  | .full => refuse .noSpace
  | .terminal => .error .noDevice
  | .memory => refuse .inputOutput
  | .report refusal => refuse refusal
  | .stream stream => .ok (s.print stream bytes)

/-- Makes a file in a folder. -/
def create (s : Session) (parent : Place) (name : String) (bytes : List UInt8) :
    Except FileFault Session :=
  match s.tree.at? parent with
  | some (.folder _ (some refusal)) => .error refusal
  | _ => .ok { s with tree := s.tree.put (parent ++ [name]) (.file bytes) }

/-- Writes to what is at a place. -/
def writeAt (s : Session) (p : Place) (mode : WriteMode) (bytes : List UInt8) :
    Except FileFault Session :=
  match s.tree.at? p with
  | some (.file before) =>
    .ok { s with tree := s.tree.put p (.file (mode.apply before bytes)) }
  | some (.device device) => s.feed device bytes
  | _ => .error .isDirectory

/-- Writes to the file at a path, which may be new.  A slash after its name says that
it is a folder, whether it is there or not. -/
def write (s : Session) (path : String) (mode : WriteMode) (bytes : List UInt8) :
    Except FileFault Session := do
  let path ← Path.ofText path
  match path.names.getLast? with
  | none => throw .isDirectory
  | some name =>
    let parent ← s.reach path path.names.dropLast
    if path.closed && s.tree.isFolderAt parent then throw .isDirectory
    else match s.tree.follow parent name with
      | .ok p => s.writeAt p mode bytes
      | .error .notFound => s.create parent name bytes
      | .error fault => throw fault

end Session
end AccessReplay
