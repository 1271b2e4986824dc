import AccessReplay.AccessLedger
import AccessReplay.Dump.Basic
import AccessReplay.Notice

/-!
# Recordings

A recording is a dump that was found consistent.  Its threads form a tree with
exactly one root and are listed by position, parents before children; every
access was made by one of them; and no location is listed twice.  `ofDump` checks
this in a fixed order, so that a dump with several faults is refused for a
definite one: first the threads by position, then the root, then the locations
in the order of the dump.
-/

namespace AccessReplay

/-- Why a dump is not consistent. -/
inductive Inconsistency where
  /-- Two threads have one id. -/
  | threadRepeated (id : RuntimeId)
  /-- Two threads have one place in the spawn tree. -/
  | positionRepeated (id : RuntimeId) (position : Position)
  /-- A thread's parent is missing. -/
  | parentMissing (id : RuntimeId) (position : Position)
  /-- There is no thread to start from. -/
  | rootMissing
  /-- An access was made by a thread that was not recorded. -/
  | strangerAccess (key : LocationKey) (thread : RuntimeId)
  /-- Two locations have one key. -/
  | locationRepeated (key : LocationKey)
deriving DecidableEq, Repr, Inhabited

/-- The wording of an inconsistency. -/
def Inconsistency.message : Inconsistency → String
  | .threadRepeated id => s!"thread {id} is listed more than once"
  | .positionRepeated id position =>
    s!"thread {id} has the same spawn position {position.text} as another thread"
  | .parentMissing id position =>
    s!"parent of thread {id} at {position.text} was not recorded"
  | .rootMissing => "no root thread was recorded"
  | .strangerAccess key thread => s!"{key.text} was accessed by unrecorded thread {thread}"
  | .locationRepeated key => s!"{key.text} is listed more than once"

/-- A consistent dump, ready to be replayed. -/
structure Recording where
  /-- The thread everything started from. -/
  root : ThreadId
  /-- The other threads, by position. -/
  others : List ThreadId
  catalogue : Catalogue
  accesses : AccessLedger
deriving DecidableEq, Inhabited

namespace Recording

/-- All threads by position, the root first. -/
def threads (r : Recording) : List ThreadId := r.root :: r.others

/-- The thread at a place in the spawn tree. -/
def threadAt? (r : Recording) (position : Position) : Option ThreadId :=
  r.threads.find? fun t => t.position == position

/-- Does the order of positions allow `a` before `b`? -/
def positionLe (a b : ThreadEntry) : Bool := (compare a.position b.position).isLE

/-- Gives a dumped thread its place among the threads known so far. -/
def addThread (known : List ThreadId) (t : ThreadEntry) : Except Inconsistency (List ThreadId) :=
  if known.any (·.raw == t.id) then .error (.threadRepeated t.id)
  else if known.any (·.position == t.position) then .error (.positionRepeated t.id t.position)
  else match t.position.getLast? with
    | none => .ok (known ++ [.root t.id])
    | some index =>
      match known.find? (·.position == t.position.dropLast) with
      | some parent => .ok (known ++ [parent.child t.id index])
      | none => .error (.parentMissing t.id t.position)

/-- The spawn tree of the dumped threads, as a list by position. -/
def growTree (threads : List ThreadEntry) : Except Inconsistency (List ThreadId) :=
  (threads.mergeSort positionLe).foldlM addThread []

/-- Adds a dumped location whose accesses were all made by known threads. -/
def addLocation (threads : List ThreadId) (ledger : AccessLedger) (l : LocationEntry) :
    Except Inconsistency AccessLedger :=
  match l.events.find? fun e => !threads.any (·.raw == e.thread) with
  | some e => .error (.strangerAccess l.key e.thread)
  | none =>
    match ledger.add? l.key ⟨l.className, l.events⟩ with
    | some ledger => .ok ledger
    | none => .error (.locationRepeated l.key)

/-- The recording that a dump describes. -/
def ofDump (d : Dump) : Except Inconsistency Recording := do
  match ← growTree d.threads with
  | root :: others =>
    if root.isRoot then
      let accesses ← d.locations.foldlM (addLocation (root :: others)) ∅
      return ⟨root, others, d.sharedFields, accesses⟩
    else throw .rootMissing
  | [] => throw .rootMissing

/-! ## Remarks on a dump -/

/-- The locations that the check of a dump comes to before it ends: all of them,
or those before the first with a stranger's access, or those up to the first that
is listed again. -/
def reached (threads : List ThreadId) : AccessLedger → List LocationEntry → List LocationEntry
  | _, [] => []
  | ledger, l :: ls =>
    match addLocation threads ledger l with
    | .ok ledger => l :: reached threads ledger ls
    | .error (.locationRepeated _) => [l]
    | .error _ => []

/-- The notices given while a dump is checked: one for every location come to
whose field the catalogue does not list. -/
def remarks (d : Dump) : List Notice :=
  match growTree d.threads with
  | .ok (root :: others) =>
    ((reached (root :: others) ∅ d.locations).filter fun l =>
      !d.sharedFields.isShared l.className l.field).map fun l => .notReplayed l.key l.className
  | _ => []

end Recording
end AccessReplay
