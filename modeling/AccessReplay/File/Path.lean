/-!
# Paths

A path names a file by the folders on the way to it, from the root of the tree of
files or from where the program works.  This module says what a path is, how its
text is read, and why a file cannot be reached or used.
-/

namespace AccessReplay

/-- Why a file cannot be read or written. -/
inductive FileFault where
  | notFound
  | notDirectory
  | isDirectory
  /-- A name, or the whole path, has more bytes than the system takes. -/
  | tooLong
  /-- There is no room for what is written. -/
  | noSpace
  /-- What is opened stands for something that is not there. -/
  | noDevice
  | permissionDenied
  /-- The file is there, but what is asked for cannot be brought or taken. -/
  | inputOutput
  /-- The file does not take what is written. -/
  | invalidArgument
  /-- The path has a null character in it, which ends a path. -/
  | nullCharacter
  /-- Any other cause, in the words of the system. -/
  | other (message : String)
deriving DecidableEq, Repr, Inhabited

/-- The system's wording of a fault. -/
def FileFault.message : FileFault → String
  | .notFound => "No such file or directory (os error 2)"
  | .notDirectory => "Not a directory (os error 20)"
  | .isDirectory => "Is a directory (os error 21)"
  | .tooLong => "File name too long (os error 36)"
  | .noSpace => "No space left on device (os error 28)"
  | .noDevice => "No such device or address (os error 6)"
  | .permissionDenied => "Permission denied (os error 13)"
  | .inputOutput => "Input/output error (os error 5)"
  | .invalidArgument => "Invalid argument (os error 22)"
  | .nullCharacter => "file name contained an unexpected NUL byte"
  | .other message => message

/-- A path by its names. -/
structure Path where
  /-- Does it start at the root of the tree? -/
  absolute : Bool
  names : List String
  /-- Does a slash come after the last name? -/
  closed : Bool
deriving DecidableEq, Repr

namespace Path

/-- A name has no more bytes than this. -/
def nameLimit : Nat := 255

/-- A path has no more bytes than this. -/
def limit : Nat := 4095

/-- Reads a path. -/
def ofText (text : String) : Except FileFault Path :=
  if text.toList.contains '\x00' then .error .nullCharacter
  else if text.isEmpty then .error .notFound
  else if limit < text.utf8ByteSize then .error .tooLong
  else
    .ok
      { absolute := text.startsWith "/"
        names := (text.splitOn "/").filter (· != "")
        closed := text.endsWith "/" }

end Path
end AccessReplay
