import AccessReplay.Checksum
import AccessReplay.File.Path
import AccessReplay.Dump.Codec
import AccessReplay.Recording
import AccessReplay.Text.Utf8

/-!
# Loading dumps

A dump on disk becomes a recording in four steps, each of which can fail: its
bytes are read, decoded as UTF-8, read as JSON, and checked.  The checksum is that
of the bytes.
-/

namespace AccessReplay

/-- Why no recording could be loaded. -/
inductive LoadFault where
  /-- The file could not be read. -/
  | unreadable (path : String) (fault : FileFault)
  /-- The bytes are not text. -/
  | undecodable (fault : Text.Utf8.Fault)
  /-- The text is not a dump. -/
  | unparsable
  /-- The dump is not consistent. -/
  | inconsistent (fault : Inconsistency)
deriving DecidableEq, Repr, Inhabited

/-- The wording of a load fault. -/
def LoadFault.message : LoadFault → String
  | .unreadable path fault => "could not read dump `" ++ path ++ s!"': {fault.message}"
  | .undecodable fault => s!"invalid dump: dump is not valid UTF-8: {fault.message}"
  | .unparsable => "could not parse dump: the text is not the JSON form of a dump"
  | .inconsistent fault => s!"invalid dump: {fault.message}"

/-- A recording with the file it came from. -/
structure Trace where
  path : String
  checksum : UInt32
  recording : Recording
deriving DecidableEq, Inhabited

namespace Dump

/-- The recording that a text describes. -/
def recording? (text : List Char) : Except LoadFault Recording :=
  match parse? text with
  | none => .error .unparsable
  | some d =>
    match Recording.ofDump d with
    | .ok r => .ok r
    | .error fault => .error (.inconsistent fault)

/-- The notices given while a text is read as a recording. -/
def remarks (text : List Char) : List Notice :=
  match parse? text with
  | none => []
  | some d => Recording.remarks d

end Dump

namespace Trace

/-- The trace that a file's contents describe. -/
def ofBytes (path : String) (bytes : List UInt8) : Except LoadFault Trace :=
  match Text.Utf8.decode bytes with
  | .error fault => .error (.undecodable fault)
  | .ok text =>
    match Dump.recording? text with
    | .ok r => .ok ⟨path, Checksum.crc32 bytes, r⟩
    | .error fault => .error fault

/-- The trace in the file at a path. -/
def load (path : String) (contents : Except FileFault (List UInt8)) : Except LoadFault Trace :=
  match contents with
  | .error fault => .error (.unreadable path fault)
  | .ok bytes => ofBytes path bytes

/-- What is said once a trace is loaded. -/
def summary (t : Trace) : Notice :=
  .loaded t.path t.checksum t.recording.threads.length t.recording.accesses.size
    t.recording.accesses.eventCount

/-- The notices given while a file is loaded. -/
def remarks (path : String) (contents : Except FileFault (List UInt8)) : List Notice :=
  let checked :=
    match contents with
    | .error _ => []
    | .ok bytes =>
      match Text.Utf8.decode bytes with
      | .error _ => []
      | .ok text => Dump.remarks text
  match load path contents with
  | .ok t => checked ++ [t.summary]
  | .error _ => checked

end Trace
end AccessReplay
