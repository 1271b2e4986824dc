import AccessReplay.Dump.Load
import AccessReplay.Engine.Caller
import AccessReplay.LiveMemory
import AccessReplay.Thread.SpawnTree

/-!
# The engine

One replay: the recording, the live objects, threads and locations, and the
histories.  Everything here happens in one step; what the hooks around an access
do step by step is in `AccessReplay.Engine.Step`.

An engine starts from what earlier replays left behind (`Archive`): their
locations and histories stay, because a thread may finish an access later than
its replay.
-/

namespace AccessReplay

/-- What outlives a replay. -/
structure Archive where
  memory : LiveMemory := {}
  book : HistoryBook := ∅
  /-- What there was to say, oldest first. -/
  journal : Array Notice := #[]
deriving Inhabited

namespace Archive

/-- The history of a thread. -/
def historyOf (a : Archive) (p : Participant) : History :=
  match p.history with
  | .filed ref => a.book.getD ref { thread := ⟨p.live.raw, ""⟩, recorded := p.recorded }
  | .own history => history

/-- Says several things. -/
def notes (a : Archive) (ns : List Notice) : Archive :=
  { a with journal := ns.foldl Array.push a.journal }

end Archive

/-- Who is told of divergences: does it survive being told? -/
abbrev Observer := Divergence → Bool

/-- One replay. -/
structure Engine extends Archive where
  /-- The checksum of the dump. -/
  checksum : UInt32
  recording : Recording
  objects : ObjectIds := {}
  threads : SpawnTree
  budget : Budget
  observer : Option Observer := none
  /-- Are accesses checked? -/
  checking : Bool := true
  /-- How many threads are in a before-hook or have an access open. -/
  inFlight : UInt64 := 0
  /-- How many divergences were counted. -/
  divergences : Nat := 0
  /-- What the observer was told. -/
  reported : Array Divergence := #[]
deriving Inhabited

namespace Engine

/-- Says something. -/
def note (e : Engine) (n : Notice) : Engine := { e with journal := e.journal.push n }

/-- Says several things. -/
def notes (e : Engine) (ns : List Notice) : Engine :=
  { e with toArchive := e.toArchive.notes ns }

/-- Where the history of a thread of this replay is filed. -/
def historyRef (e : Engine) (raw : RuntimeId) : HistoryRef := ⟨e.memory.edition, raw⟩

/-- Opens the history of a thread, unless it has one. -/
def openHistory (e : Engine) (h : History) : Engine :=
  { e with book := e.book.opened (e.historyRef h.thread.raw) h }

/-- Matches a live thread with the recorded one at its place. -/
def matchRecorded (e : Engine) (live : ThreadId) : Engine × Option RuntimeId :=
  let (threads, recorded) := e.threads.matchRecorded e.recording live
  ({ e with threads }.notes (SpawnTree.matchRemarks e.recording live), recorded)

/-- Begins a replay in the thread that everything starts from. -/
def start (past : Archive) (recording : Recording) (checksum : UInt32) (root : AnnouncedThread)
    (budget : Budget) (observer : Option Observer) : Engine :=
  let e : Engine :=
    { memory := past.memory.enforce recording
      book := past.book
      journal := past.journal
      checksum, recording, budget, observer
      threads := .ofRoot root.raw }
  let (e, recorded) := e.matchRecorded e.threads.rootId
  e.openHistory { thread := root, recorded, isMain := true }

/-- The thread that everything starts from. -/
def rootParticipant (e : Engine) : Participant where
  live := e.threads.rootId
  recorded := e.threads.recordedOf? e.threads.rootId.raw
  history := .filed (e.historyRef e.threads.rootId.raw)

/-- An object was created. -/
def objectCreated (e : Engine) (object : AnnouncedObject) : Engine :=
  if e.checking then
    { e with objects := (e.objects.register object.handle).1 }.note
      (e.objects.registerRemark object)
  else e

/-- A thread started another one. -/
def threadStarted (e : Engine) (parent : RuntimeId) (child : AnnouncedThread) :
    Engine × Participant :=
  let (threads, live) := e.threads.start parent child.raw
  let e := { e with threads }.notes (e.threads.startRemarks parent child.raw)
  let (e, recorded) := e.matchRecorded live
  let e := if recorded.isNone then e.note (.noCounterpart live child.name) else e
  (e.openHistory { thread := child, recorded },
    { live, recorded, history := .filed (e.historyRef child.raw) })

/-- The recorded thread that a thread's accesses are made as: its counterpart, or
the recorded root. -/
def actsAs (e : Engine) (p : Participant) : RuntimeId := p.recorded.getD e.recording.root.raw

/-- Lets every access from now on through unchecked. -/
def stopChecking (e : Engine) : Engine := { e with checking := false }

/-- Is no access in flight?  If one stays for the whole time allowed, that is said. -/
def settle (e : Engine) (timeout : Duration) : Engine × Bool :=
  if e.inFlight = 0 then (e, true) else (e.note (.stillOpen e.inFlight timeout), false)

/-- Adds a finished access to a thread's history. -/
def file (e : Engine) (p : Participant) (a : OpenAccess) : Engine × Participant :=
  match p.history with
  | .filed ref => ({ e with book := e.book.modify ref fun h => h.add a }, p)
  | .own h => (e, { p with history := .own (h.add a) })

/-- Notes in a thread's history that an access violated the recorded order. -/
def flag (e : Engine) (p : Participant) : Engine × Participant :=
  match p.history with
  | .filed ref => ({ e with book := e.book.modify ref History.flag }, p)
  | .own h => (e, { p with history := .own h.flag })

end Engine
end AccessReplay
