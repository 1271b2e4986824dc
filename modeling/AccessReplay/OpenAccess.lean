import AccessReplay.Access
import AccessReplay.Location.Key

/-!
# Open accesses

Between its before-hook and its after-hook an access is open: it was let through,
and the program may be performing it.
-/

namespace AccessReplay

/-- An access that was let through and has not been finished. -/
structure OpenAccess where
  location : LocationRef
  /-- The recorded thread that the accessing thread replays. -/
  thread : RuntimeId
  kind : AccessKind
  outcome : Outcome := .granted
  /-- How often the thread backed off before the access went ahead. -/
  retries : Nat := 0
deriving DecidableEq, Repr, Inhabited

namespace OpenAccess

/-- Did the access go ahead without being granted? -/
def isForced (a : OpenAccess) : Bool := a.outcome == .forced

/-- How an open access is named in log lines. -/
def text (a : OpenAccess) : String :=
  s!"{a.kind.letter}({a.thread}) @ {a.location.key.text}" ++ if a.isForced then " [forced]" else ""

end OpenAccess
end AccessReplay
