import AccessReplay.ReadCounts
import AccessReplay.Verdict

/-!
# Schedules

The accesses recorded at a location, arranged for the questions that a replay
asks.  Writes are replayed in exactly the recorded order.  A read only has to see
the write that came before it while recording, and the next write has to wait
until every read recorded before it has happened; reads between the same two
writes are free to change places.

A schedule is built by taking the recorded accesses one at a time.  It answers
for a given number of committed writes, whether a granted write is still open,
and the reads made so far; it keeps no state of its own.
-/

namespace AccessReplay

/-- One read of a thread: its `index`-th, counted from zero. -/
structure ReadOfThread where
  thread : RuntimeId
  index : Nat
deriving DecidableEq, Repr

namespace ReadOfThread

/-- Threads first, then reads. -/
def order : ReadOfThread → ReadOfThread → Ordering :=
  compareLex (compareOn ReadOfThread.thread) (compareOn ReadOfThread.index)

instance : Ord ReadOfThread := ⟨order⟩

instance : Std.TransOrd ReadOfThread :=
  inferInstanceAs
    (Std.TransCmp (compareLex (compareOn ReadOfThread.thread) (compareOn ReadOfThread.index)))

instance : Std.LawfulEqOrd ReadOfThread where
  eq_of_compare {a b} h := by
    have h : order a b = .eq := h
    simp only [order, compareLex, compareOn, Ordering.then_eq_eq, Std.compare_eq_iff_eq] at h
    cases a; cases b; simp_all

end ReadOfThread

/-- The recorded accesses of one location as tables. -/
structure Schedule where
  /-- The recorded thread of each write, in order. -/
  writers : Array RuntimeId := #[]
  /-- For each write, the reads made before it. -/
  readsBefore : Array ReadCounts := #[]
  /-- For each read of each thread, how many writes came before it. -/
  sources : Std.ExtTreeMap ReadOfThread Nat := ∅
  /-- For each thread that writes, the index of its last write. -/
  lastWrites : Std.ExtTreeMap RuntimeId Nat := ∅
  /-- The reads of the whole recording. -/
  reads : ReadCounts := ∅
deriving DecidableEq, Inhabited

namespace Schedule

/-- Takes one more recorded access. -/
def record (s : Schedule) (e : RecordedAccess) : Schedule :=
  match e.kind with
  | .write =>
    { s with
      writers := s.writers.push e.thread
      readsBefore := s.readsBefore.push s.reads
      lastWrites := s.lastWrites.insert e.thread s.writers.size }
  | .read =>
    { s with
      sources := s.sources.insert ⟨e.thread, s.reads.get e.thread⟩ s.writers.size
      reads := s.reads.increment e.thread }

/-- The schedule of a location's recorded accesses. -/
def ofEvents (events : List RecordedAccess) : Schedule :=
  events.foldl record {}

/-- How many writes were recorded. -/
def writeCount (s : Schedule) : Nat := s.writers.size

/-- The recorded writers from a write on. -/
def pendingWriters (s : Schedule) (committed : Nat) : List RuntimeId :=
  s.writers.toList.drop committed

/-- The recorded writer of the next write. -/
def nextWriter? (s : Schedule) (committed : Nat) : Option RuntimeId :=
  s.writers[committed]?

/-- Does the thread have a recorded write that is not committed yet? -/
def hasWriteFrom (s : Schedule) (thread : RuntimeId) (committed : Nat) : Bool :=
  match s.lastWrites[thread]? with
  | some last => committed ≤ last
  | none => false

/-- Have the reads happened that were recorded before the write with this index? -/
def readsDone (s : Schedule) (index : Nat) (reads : ReadCounts) : Bool :=
  match s.readsBefore[index]? with
  | some needed => reads.covers needed
  | none => false

/-- May the thread write now? -/
def judgeWrite (s : Schedule) (thread : RuntimeId) (committed : Nat) (writeOpen : Bool)
    (reads : ReadCounts) : Verdict :=
  if !s.hasWriteFrom thread committed then .diverged (.noRecordedWrite committed)
  else if s.nextWriter? committed ≠ some thread ∨ writeOpen = true then .wait
  else if s.readsDone committed reads then .grant
  else .wait

/-- May the thread make its next read now? -/
def judgeRead (s : Schedule) (thread : RuntimeId) (committed : Nat) (reads : ReadCounts) :
    Verdict :=
  let consumed := reads.get thread
  match s.sources[(⟨thread, consumed⟩ : ReadOfThread)]? with
  | none => .diverged (.noRecordedRead consumed)
  | some expected =>
    if committed < expected then .wait
    else if expected < committed then .diverged (.staleRead expected committed)
    else .grant

end Schedule
end AccessReplay
