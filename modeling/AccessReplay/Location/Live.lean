import AccessReplay.OpenAccess
import AccessReplay.Schedule

/-!
# Live locations

A location during a replay: its schedule and how far the replay of it has come.
A granted write is reserved until it is committed, so that no second one is
granted meanwhile; a granted read reserves nothing.  Once a location is marked
diverged everything is let through, and its progress stays as it was.
-/

namespace AccessReplay

/-- The last write committed to a location. -/
structure LastWrite where
  /-- The recorded thread of the writer. -/
  thread : RuntimeId
  /-- The write's index in the recorded order. -/
  index : Nat
deriving DecidableEq, Repr, Inhabited

/-- A location during a replay. -/
structure Location where
  schedule : Schedule
  /-- How many writes are committed, which is also the index of the next one. -/
  committed : Nat := 0
  /-- Was a write granted that is not committed yet? -/
  writeOpen : Bool := false
  lastWrite : Option LastWrite := none
  /-- The committed reads. -/
  reads : ReadCounts := ∅
  /-- Are accesses let through unchecked? -/
  isDiverged : Bool := false
deriving DecidableEq, Inhabited

namespace Location

/-- May the recorded thread make this access now? -/
def verdict (l : Location) (thread : RuntimeId) (kind : AccessKind) : Verdict :=
  if l.isDiverged then .grant
  else match kind with
    | .read => l.schedule.judgeRead thread l.committed l.reads
    | .write => l.schedule.judgeWrite thread l.committed l.writeOpen l.reads

/-- The location once the question has been answered: a write that is granted by
the schedule is reserved. -/
def reserve (l : Location) (thread : RuntimeId) (kind : AccessKind) : Location :=
  if l.isDiverged = false ∧ kind = .write ∧ l.verdict thread kind = .grant then
    { l with writeOpen := true }
  else l

/-- Asks for an access: the verdict, and the location with what was granted reserved. -/
def poll (l : Location) (thread : RuntimeId) (kind : AccessKind) : Verdict × Location :=
  (l.verdict thread kind, l.reserve thread kind)

/-- The program has performed an access that was let through.  A forced access, or
any access to a diverged location, leaves the progress as it was. -/
def commit (l : Location) (thread : RuntimeId) (kind : AccessKind) (outcome : Outcome) : Location :=
  if outcome = .forced then l
  else match kind with
    | .read => if l.isDiverged then l else { l with reads := l.reads.increment thread }
    | .write =>
      if l.isDiverged then { l with writeOpen := false }
      else
        { l with
          committed := l.committed + 1
          writeOpen := false
          lastWrite := some ⟨thread, l.committed⟩ }

@[simp] theorem reserve_read (l : Location) (t : RuntimeId) : l.reserve t .read = l := by
  simp [reserve]

theorem reserve_of_not_grant {l : Location} {t : RuntimeId} {k : AccessKind}
    (h : l.verdict t k ≠ .grant) : l.reserve t k = l := by
  simp [reserve, h]

theorem reserve_write {l : Location} {t : RuntimeId} (hd : l.isDiverged = false)
    (h : l.verdict t .write = .grant) : l.reserve t .write = { l with writeOpen := true } := by
  simp [reserve, hd, h]

@[simp] theorem committed_reserve (l : Location) (t : RuntimeId) (k : AccessKind) :
    (l.reserve t k).committed = l.committed := by
  unfold reserve
  split <;> rfl

theorem commit_granted_read {l : Location} (hd : l.isDiverged = false) (t : RuntimeId) :
    l.commit t .read .granted = { l with reads := l.reads.increment t } := by
  simp [commit, hd]

theorem commit_granted_write {l : Location} (hd : l.isDiverged = false) (t : RuntimeId) :
    l.commit t .write .granted =
      { l with
        committed := l.committed + 1
        writeOpen := false
        lastWrite := some ⟨t, l.committed⟩ } := by
  simp [commit, hd]

/-- Stops enforcing the recorded order. -/
def diverge (l : Location) : Location := { l with isDiverged := true }

/-- The recorded writers still to come. -/
def pendingWriters (l : Location) : List RuntimeId := l.schedule.pendingWriters l.committed

/-- The recorded writer of the next write. -/
def nextWriter? (l : Location) : Option RuntimeId := l.schedule.nextWriter? l.committed

/-- Why an access that waited too long is given up. -/
def stall (l : Location) : DivergenceReason := .stalled l.nextWriter? l.committed

end Location
end AccessReplay
