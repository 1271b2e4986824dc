import AccessReplay.Engine.Basic
import AccessReplay.Json.Printer
import AccessReplay.Session

/-!
# Harvests

What is left of a replay when it ends: the dump it replayed, the locations whose
recorded order was violated, and the history of every thread that took part, the
main thread's first and the others by runtime id.  A harvest is written as JSON
in the pretty layout with a final line break.
-/

namespace AccessReplay

/-- A finished access as it is harvested. -/
structure HarvestedAccess where
  /-- The text of the location. -/
  location : String
  kind : AccessKind
  outcome : Outcome
  retries : Nat
deriving DecidableEq, Repr, Inhabited

/-- A thread's history as it is harvested. -/
structure HarvestedThread where
  thread : AnnouncedThread
  recorded : Option RuntimeId
  isMain : Bool
  diverged : Bool
  accesses : List HarvestedAccess
deriving DecidableEq, Repr, Inhabited

/-- What is left of a replay. -/
structure Harvest where
  checksum : UInt32
  /-- The texts of the locations whose recorded order was violated. -/
  divergedLocations : List String
  threads : List HarvestedThread
deriving DecidableEq, Repr, Inhabited

/-- An access as it is harvested. -/
def OpenAccess.harvest (a : OpenAccess) : HarvestedAccess :=
  ⟨a.location.key.text, a.kind, a.outcome, a.retries⟩

/-- A history as it is harvested. -/
def History.harvest (h : History) : HarvestedThread :=
  ⟨h.thread, h.recorded, h.isMain, h.diverged, h.accesses.toList.map OpenAccess.harvest⟩

/-- The histories of a replay, the main one first. -/
def Engine.histories (e : Engine) : List History :=
  let all := e.book.ofEdition e.memory.edition
  all.filter (·.isMain) ++ all.filter (!·.isMain)

/-- The locations of a replay whose recorded order was violated, in key order. -/
def Engine.divergedKeys (e : Engine) : List LocationKey :=
  (e.memory.current.filter (·.2.isDiverged)).map (·.1.key)

/-- What would be left if the replay ended now. -/
def Engine.harvest (e : Engine) : Harvest :=
  ⟨e.checksum, e.divergedKeys.map LocationKey.text, e.histories.map History.harvest⟩

namespace Harvest

/-- Was the recorded order violated anywhere? -/
def diverged (h : Harvest) : Bool :=
  !h.divergedLocations.isEmpty || h.threads.any (·.diverged)

/-! ## The written form -/

/-- The JSON form of an access. -/
def accessJson (a : HarvestedAccess) : Json :=
  .ofMembers
    [("location", .ofText a.location), ("op", .ofText a.kind.word),
      ("outcome", .ofText a.outcome.word), ("retries", .ofNat a.retries)]

/-- The words that describe a thread's history. -/
def flags (t : HarvestedThread) : List String :=
  (if t.isMain then ["main"] else []) ++ if t.diverged then ["diverged"] else []

/-- The JSON form of a thread's history. -/
def threadJson (t : HarvestedThread) : Json :=
  .ofMembers
    [("thread_id", .ofNat t.thread.raw.toNat),
      ("recorded_thread_id", t.recorded.elim .null fun r => .ofNat r.toNat),
      ("thread_name", .ofText t.thread.name),
      ("flags", .array ((flags t).map Json.ofText)),
      ("accesses", .array (t.accesses.map accessJson))]

/-- The JSON form of a harvest. -/
def toJson (h : Harvest) : Json :=
  .ofMembers
    [("dump_checksum", .ofNat h.checksum.toNat),
      ("diverged_locations", .array (h.divergedLocations.map Json.ofText)),
      ("traces", .array (h.threads.map threadJson))]

/-- The text of a harvest. -/
def text (h : Harvest) : String := String.ofList (h.toJson.pretty ++ ['\n'])

/-- Where a harvest goes. -/
inductive Store where
  /-- Nowhere but to the caller. -/
  | memory
  /-- To the file at a path. -/
  | file (path : String)
deriving DecidableEq, Repr, Inhabited

/-- Keeps a harvest: the session with it in its file. -/
def keep (h : Harvest) (store : Store) (s : Session) : Except FileFault Session :=
  match store with
  | .memory => .ok s
  | .file path => s.write path .replace (utf8 h.text)

/-- What is said once a harvest is kept. -/
def keptRemarks (h : Harvest) : Store → List Notice
  | .memory => []
  | .file path => [.wrote h.threads.length path]

end Harvest
end AccessReplay
