import AccessReplay.File.Path

/-!
# Trees of files

A tree has folders, and in them files, links and devices by name.  A place in it is
given by the names on the way from the root, so the root is the empty list.  A link
says at once which place it stands for, and no link leads to another one.

Following a name is one step from place to place (`FileTree.follow`); a path is
followed name by name, and of several reasons why that is impossible the first
one met counts.
-/

namespace AccessReplay

/-- The names on the way from the root, outermost first. -/
abbrev Place := List String

/-- The streams that a program writes to without opening a file. -/
inductive StandardStream where
  | output
  | errors
deriving DecidableEq, Repr, Inhabited

/-- What looks like a file but keeps nothing. -/
inductive Device where
  /-- Is always empty, and takes whatever is written. -/
  | null
  /-- Has no room for anything. -/
  | full
  /-- Stands for a terminal, and there is none. -/
  | terminal
  /-- The memory of the program, of which nothing lies where a file begins. -/
  | memory
  /-- Tells something about the system, and answers with a fault to being written. -/
  | report (refusal : FileFault)
  /-- Passes what is written on to a stream. -/
  | stream (stream : StandardStream)
deriving DecidableEq, Repr, Inhabited

/-- A tree of files. -/
inductive FileTree where
  /-- A folder with what is in it by name.  If there is a refusal, no new file can be
  made in it. -/
  | folder (entries : List (String × FileTree)) (refusal : Option FileFault)
  | file (contents : List UInt8)
  | link (target : Place)
  | device (device : Device)
deriving Inhabited

namespace FileTree

/-- What a folder has under a name. -/
def entry? (t : FileTree) (name : String) : Option FileTree :=
  match t with
  | .folder entries _ => entries.lookup name
  | _ => none

/-- What is at a place. -/
def at? (t : FileTree) : Place → Option FileTree
  | [] => some t
  | name :: rest => (t.entry? name).bind fun below => below.at? rest

/-- Is there a folder at a place? -/
def isFolderAt (t : FileTree) (p : Place) : Bool :=
  match t.at? p with
  | some (.folder _ _) => true
  | _ => false

/-- A folder with something under a name, in place of what was there. -/
def withEntry (t : FileTree) (name : String) (below : FileTree) : FileTree :=
  match t with
  | .folder entries refusal =>
    .folder ((name, below) :: entries.filter (·.1 != name)) refusal
  | other => other

/-- The tree with a leaf at a place.  If the folder that it goes into is not there, the
tree stays as it is. -/
def put (t : FileTree) (p : Place) (leaf : FileTree) : FileTree :=
  match p with
  | [] => leaf
  | [name] => t.withEntry name leaf
  | name :: rest =>
    match t.entry? name with
    | some below => t.withEntry name (below.put rest leaf)
    | none => t

/-- Where a name leads from a place. -/
def follow (t : FileTree) (p : Place) (name : String) : Except FileFault Place :=
  match t.at? p with
  | some (.folder entries _) =>
    if name = "." then .ok p
    else if name = ".." then .ok p.dropLast
    else if Path.nameLimit < name.utf8ByteSize then .error .tooLong
    else match entries.lookup name with
      | some (.link target) => .ok target
      | some _ => .ok (p ++ [name])
      | none => .error .notFound
  | _ => .error .notDirectory

/-- Where several names lead from a place. -/
def followAll (t : FileTree) (p : Place) (names : List String) : Except FileFault Place :=
  names.foldlM t.follow p

end FileTree
end AccessReplay
