import AccessReplay.Thread.Id

/-!
# Accesses

A program reads and writes shared locations.  A recording lists the accesses made
to a location in the order they happened, each by the runtime id its thread had
while recording; a replay lets accesses through, granted in the recorded order
or forced without it.
-/

namespace AccessReplay

/-- What an access does. -/
inductive AccessKind where
  | read
  | write
deriving DecidableEq, Repr, Inhabited

namespace AccessKind

/-- One letter, as in listings. -/
def letter : AccessKind → String
  | .read => "R"
  | .write => "W"

/-- One word, as in dumps. -/
def word : AccessKind → String
  | .read => "read"
  | .write => "write"

/-- The kind that a word names. -/
def ofWord? (s : String) : Option AccessKind :=
  if s = "read" then some .read else if s = "write" then some .write else none

end AccessKind

/-- One access as it happened while recording. -/
structure RecordedAccess where
  /-- The accessing thread, by its runtime id while recording. -/
  thread : RuntimeId
  kind : AccessKind
  /-- The access's place in the whole recording, where the recorder gives one. -/
  seq : Option UInt64 := none
deriving DecidableEq, Repr, Inhabited

/-- How an access went ahead. -/
inductive Outcome where
  /-- In the recorded order. -/
  | granted
  /-- Without the recorded order being satisfied. -/
  | forced
deriving DecidableEq, Repr, Inhabited

/-- The word for an outcome. -/
def Outcome.word : Outcome → String
  | .granted => "granted"
  | .forced => "forced"

end AccessReplay
