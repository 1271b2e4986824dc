import AccessReplay.Patience
import AccessReplay.Engine.History
import AccessReplay.Object

/-!
# Callers

The program calls a hook before each access to a field and another one after it.
A `Participant` is what a thread carries from one hook to the next.  While a hook
runs, its thread stands at a `Stage` of it: between two stages lies one effect on
what the threads share, so the runs of several threads are the orders in which
their stages can follow each other.
-/

namespace AccessReplay

/-- Where a thread's finished accesses go. -/
inductive HistoryPlace where
  /-- To the history filed there. -/
  | filed (ref : HistoryRef)
  /-- Nowhere but with the thread itself. -/
  | own (history : History)
deriving DecidableEq, Repr, Inhabited

/-- What a thread carries from hook to hook. -/
structure Participant where
  live : ThreadId
  /-- The recorded thread it replays; `none` if the recording has none at its place. -/
  recorded : Option RuntimeId
  /-- The access that was let through and is not finished. -/
  pending : Option OpenAccess := none
  history : HistoryPlace
deriving DecidableEq, Repr, Inhabited

namespace Participant

/-- A thread that no replay knows: its history is its own. -/
def detached (thread : AnnouncedThread) : Participant where
  live := .root thread.raw
  recorded := none
  history := .own { thread, recorded := none }

/-- Is an access open? -/
def hasOpenAccess (p : Participant) : Bool := p.pending.isSome

end Participant

/-- An access that a thread is about to make. -/
structure Request where
  object : AnnouncedObject
  field : String
  kind : AccessKind
deriving DecidableEq, Repr, Inhabited

/-- A call to a hook. -/
inductive Hook where
  | before (request : Request)
  | after (kind : AccessKind)
deriving DecidableEq, Repr, Inhabited

/-- An access that its location has to decide on. -/
structure Inquiry where
  location : LocationRef
  /-- The recorded thread that it is made as. -/
  thread : RuntimeId
  kind : AccessKind
  /-- How often the thread has backed off. -/
  retries : Nat := 0
deriving DecidableEq, Repr, Inhabited

/-- The access that goes ahead after an inquiry. -/
def Inquiry.access (q : Inquiry) (outcome : Outcome) : OpenAccess :=
  ⟨q.location, q.thread, q.kind, outcome, q.retries⟩

/-- Where a thread stands in a hook. -/
inductive Stage where
  /-- In no hook. -/
  | outside
  /-- Has called a before-hook. -/
  | announced (request : Request)
  /-- Is counted as in flight. -/
  | counted (request : Request)
  /-- Has called an after-hook. -/
  | concluding (kind : AccessKind)
  /-- Is about to commit an open access; a before-hook goes on with its request. -/
  | committing (access : OpenAccess) (next : Option Request)
  /-- Is about to add a committed access to its history. -/
  | filing (access : OpenAccess) (next : Option Request)
  /-- Is about to uncount a finished access. -/
  | releasing (next : Option Request)
  /-- Is about to see whether the access is checked at all. -/
  | choosing (request : Request)
  /-- Is about to look its location up. -/
  | locating (request : Request)
  /-- Is about to ask the location. -/
  | asking (inquiry : Inquiry)
  /-- Was told to wait. -/
  | waiting (inquiry : Inquiry)
  /-- Is about to back off. -/
  | resting (inquiry : Inquiry)
  /-- Is about to mark the location diverged. -/
  | marking (inquiry : Inquiry) (reason : DivergenceReason)
  /-- Is about to note the divergence in its history. -/
  | flagging (inquiry : Inquiry) (reason : DivergenceReason)
  /-- Is about to count the divergence. -/
  | counting (inquiry : Inquiry) (reason : DivergenceReason)
  /-- Is about to report the divergence. -/
  | reporting (inquiry : Inquiry) (reason : DivergenceReason)
  /-- Is about to uncount an access that is not checked. -/
  | leaving
deriving DecidableEq, Repr, Inhabited

namespace Stage

/-- The stage at which a hook begins. -/
def entry : Hook → Stage
  | .before request => .announced request
  | .after kind => .concluding kind

/-- At most how many steps lead out of the hook, for a thread that may back off
`maxRetries` times. -/
def rank (maxRetries : Nat) : Stage → Nat
  | .outside => 0
  | .leaving => 1
  | .reporting _ _ => 1
  | .counting _ _ => 2
  | .flagging _ _ => 3
  | .marking _ _ => 4
  | .resting q => 3 * (maxRetries - q.retries) + 5
  | .waiting q => 3 * (maxRetries - q.retries) + 6
  | .asking q => 3 * (maxRetries - q.retries) + 7
  | .locating _ => 3 * maxRetries + 8
  | .choosing _ => 3 * maxRetries + 9
  | .releasing none => 1
  | .filing _ none => 2
  | .committing _ none => 3
  | .concluding _ => 4
  | .releasing (some _) => 3 * maxRetries + 10
  | .filing _ (some _) => 3 * maxRetries + 11
  | .committing _ (some _) => 3 * maxRetries + 12
  | .counted _ => 3 * maxRetries + 13
  | .announced _ => 3 * maxRetries + 14

end Stage

/-- A thread and where it stands. -/
structure Caller where
  who : Participant
  stage : Stage := .outside
deriving DecidableEq, Repr, Inhabited

end AccessReplay
