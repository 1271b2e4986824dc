import AccessReplay.Duration
import AccessReplay.Log.Level
import AccessReplay.OpenAccess
import AccessReplay.Verdict

/-!
# Notices

What the engine has to say while it works, as data: each notice has a level, the
module it is logged under and a message.  The engine keeps its notices in a
journal; what becomes of them is for the log to decide.
-/

namespace AccessReplay

/-- One remark of the engine. -/
inductive Notice where
  /-- A recorded location whose field is not shared. -/
  | notReplayed (key : LocationKey) (className : String)
  /-- A dump was read. -/
  | loaded (path : String) (checksum : UInt32) (threads locations events : Nat)
  /-- An object got its id. -/
  | objectNamed (id : ObjectId) (className : String) (handle : Handle)
  /-- A known handle was bound to a new id. -/
  | handleReused (handle : Handle) (id old : ObjectId)
  /-- A thread was started by a thread never seen. -/
  | parentUnknown (parent child : RuntimeId)
  /-- A live thread was matched with a recorded one. -/
  | replays (live : ThreadId) (recorded : RuntimeId)
  /-- A live thread has no recorded counterpart. -/
  | noCounterpart (live : ThreadId) (name : String)
  /-- An access to an object that was never announced. -/
  | handleUnknown (className : String) (handle : Handle) (field : String)
  /-- An access to a location without recorded accesses. -/
  | nothingRecorded (key : LocationKey)
  /-- An access was open when the next one began. -/
  | unfinished (access : OpenAccess)
  /-- A waiting access is let through because the replay stops. -/
  | stopping (kind : AccessKind) (key : LocationKey)
  /-- An access was let through. -/
  | letThrough (access : OpenAccess)
  /-- An access was finished as another kind than it was opened. -/
  | kindMismatch (kind : AccessKind) (access : OpenAccess)
  /-- The recorded order was violated. -/
  | diverged (divergence : Divergence)
  /-- The recorded writers still to come where the order was violated. -/
  | writersExpected (key : LocationKey) (writers : List RuntimeId)
  /-- The observer failed on a divergence. -/
  | observerFailed (key : LocationKey)
  /-- Accesses were still open when the time to settle ran out. -/
  | stillOpen (count : UInt64) (timeout : Duration)
  /-- A dump is about to be read. -/
  | loading (path : String)
  /-- A replay has begun. -/
  | replaying (locations threads : Nat)
  /-- The dump could not be replayed at all. -/
  | startFailed (cause : String)
  /-- The harvest does not wait for open accesses any longer. -/
  | harvestingEarly
  /-- A replay has ended. -/
  | finished (threads divergences : Nat)
  /-- A harvest was written to a file. -/
  | wrote (histories : Nat) (path : String)
deriving DecidableEq, Repr, Inhabited

namespace Notice

/-- How grave a notice is. -/
def level : Notice → LogLevel
  | .startFailed _ => .fatal
  | .observerFailed _ => .error
  | .notReplayed _ _ | .noCounterpart _ _ | .unfinished _ | .kindMismatch _ _ | .diverged _
  | .stillOpen _ _ | .harvestingEarly => .warn
  | .loaded _ _ _ _ _ | .stopping _ _ | .loading _ | .replaying _ _ | .finished _ _
  | .wrote _ _ => .info
  | .objectNamed _ _ _ | .handleReused _ _ _ | .parentUnknown _ _ | .replays _ _
  | .handleUnknown _ _ _ | .nothingRecorded _ | .letThrough _ | .writersExpected _ _ => .debug

/-- The module a notice is logged under. -/
def module : Notice → String
  | .notReplayed _ _ => "recording"
  | .loaded _ _ _ _ _ => "trace_reader"
  | .objectNamed _ _ _ | .handleReused _ _ _ => "object_id"
  | .parentUnknown _ _ | .replays _ _ => "thread_id"
  | .handleUnknown _ _ _ | .nothingRecorded _ => "shared_memory"
  | .noCounterpart _ _ | .unfinished _ | .stopping _ _ | .letThrough _ | .kindMismatch _ _
  | .diverged _ | .writersExpected _ _ | .observerFailed _ | .stillOpen _ _ => "context"
  | .loading _ | .replaying _ _ | .startFailed _ | .harvestingEarly | .finished _ _ => "agent"
  | .wrote _ _ => "trace_writer"

/-- The wording of a notice. -/
def message : Notice → String
  | .notReplayed key className =>
    s!"{key.text} has recorded accesses but {className}.{key.field} is not a shared field; " ++
      "it will not be replayed"
  | .loaded path checksum threads locations events =>
    "loaded `" ++ path ++ s!"' (crc32 {Text.hexadecimal8 checksum}): {threads} threads, " ++
      s!"{locations} locations, {events} events"
  | .objectNamed id className handle =>
    s!"{id.text} ({className}) is handle {Text.hexadecimal handle.toNat}"
  | .handleReused handle id old =>
    s!"handle {Text.hexadecimal handle.toNat} reused: {id.text} replaces {old.text}"
  | .parentUnknown parent child => s!"parent {parent} of {child} unknown, using root"
  | .replays live recorded => s!"{live.text} replays recorded thread {recorded}"
  | .noCounterpart live name =>
    live.text ++ " `" ++ name ++
      "' has no recorded counterpart; its accesses are replayed as the root thread's"
  | .handleUnknown className handle field =>
    s!"{className} handle {Text.hexadecimal handle.toNat} was never created; `" ++ field ++
      "' treated as unshared"
  | .nothingRecorded key => s!"nothing recorded for {key.text}; treated as unshared"
  | .unfinished access =>
    s!"{access.text} never reached its after-hook; assuming it happened"
  | .stopping kind key =>
    s!"replay is stopping; letting {kind.letter} of {key.text} through"
  | .letThrough access => s!"{access.text} after {access.retries} retries"
  | .kindMismatch kind access =>
    s!"after-hook for a {kind.letter} follows a before-hook for {access.text}"
  | .diverged divergence => s!"replay diverged: {divergence.text}"
  | .writersExpected key writers =>
    s!"writers still expected at {key.text}: {Text.bracketed (writers.map UInt64.toNat)}"
  | .observerFailed key => s!"divergence observer panicked on {key.text}"
  | .stillOpen count timeout => s!"{count} accesses still in flight after {timeout.text}"
  | .loading path => "loading recorded dump `" ++ path ++ "'"
  | .replaying locations threads =>
    s!"replaying {locations} locations recorded by {threads} threads"
  | .startFailed cause => s!"Failed to start replay: {cause}"
  | .harvestingEarly => "harvesting with accesses still in flight"
  | .finished threads divergences =>
    s!"replay finished: {threads} threads, {divergences} divergences"
  | .wrote histories path => s!"wrote {histories} thread histories to `" ++ path ++ "'"

end Notice
end AccessReplay
