import AccessReplay.Text.Decimal

/-!
# Thread identity

Runtime ids of threads differ from run to run.  What two runs of a program share
is where a thread stands in the tree of who started whom: "the second thread
started by the first thread that the root started".  A `ThreadId` is such a path
together with the runtime id each thread on it has in the run at hand; its
`position` is the path alone, and two ids denote the same thread when their
positions are equal.
-/

namespace AccessReplay

/-- What the system running the program calls a thread. -/
abbrev RuntimeId := UInt64

/-- Child indices on the way from the root of a spawn tree. -/
abbrev Position := List UInt32

/-- The text of a position. -/
def Position.text (p : Position) : String :=
  Text.bracketed (p.map UInt32.toNat)

/-- A thread as the instrumented program announces it. -/
structure AnnouncedThread where
  raw : RuntimeId
  name : String
deriving DecidableEq, Repr, Inhabited

/-- A thread of one run: the root, or a child that another thread started. -/
inductive ThreadId where
  | root (raw : RuntimeId)
  /-- The child that `parent` started after `index` others. -/
  | child (parent : ThreadId) (raw : RuntimeId) (index : UInt32)
deriving DecidableEq, Repr, Inhabited

namespace ThreadId

/-- The thread's runtime id. -/
def raw : ThreadId → RuntimeId
  | .root raw => raw
  | .child _ raw _ => raw

/-- The thread's place in the spawn tree. -/
def position : ThreadId → Position
  | .root _ => []
  | .child parent _ index => parent.position ++ [index]

/-- The thread that started this one. -/
def parent? : ThreadId → Option ThreadId
  | .root _ => none
  | .child parent _ _ => some parent

/-- Is this the thread that everything started from? -/
def isRoot : ThreadId → Bool
  | .root _ => true
  | .child _ _ _ => false

/-- Do two ids, possibly of different runs, denote the same thread? -/
def same (a b : ThreadId) : Bool := a.position == b.position

/-- How a thread is named to the user. -/
def text (t : ThreadId) : String :=
  let path := ".".intercalate (t.position.map toString)
  if t.isRoot then s!"thread {t.raw}" else s!"thread {t.raw} ({path})"

/-- How a thread is named to the engine's developer. -/
def debugText (t : ThreadId) : String :=
  s!"ThreadId({t.raw} @ {t.position.text})"

theorem isRoot_iff {t : ThreadId} : t.isRoot = true ↔ t.position = [] := by
  cases t <;> simp [isRoot, position]

@[simp] theorem position_child (t : ThreadId) (raw : RuntimeId) (index : UInt32) :
    (t.child raw index).position = t.position ++ [index] := rfl

end ThreadId
end AccessReplay
