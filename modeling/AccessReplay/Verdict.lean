import AccessReplay.Access
import AccessReplay.Location.Key

/-!
# Verdicts and divergences

An access may happen now, must wait, or can never be matched with the recording.
A replay that lets an access through which it could not grant reports a
divergence with the reason.
-/

namespace AccessReplay

/-- Why an access cannot be replayed in the recorded order. -/
inductive DivergenceReason where
  /-- The thread has made all the reads it was recorded to make here. -/
  | noRecordedRead (consumed : Nat)
  /-- The thread has made all the writes it was recorded to make here. -/
  | noRecordedWrite (committed : Nat)
  /-- The write that the recorded read saw has been overwritten. -/
  | staleRead (expected committed : Nat)
  /-- The access was not granted within the retry budget. -/
  | stalled (nextWriter : Option RuntimeId) (committed : Nat)
deriving DecidableEq, Repr, Inhabited

/-- The wording of a reason. -/
def DivergenceReason.text : DivergenceReason → String
  | .noRecordedRead consumed => s!"no recorded read left (already consumed {consumed})"
  | .noRecordedWrite committed =>
    s!"no recorded write left for this thread ({committed} writes committed)"
  | .staleRead expected committed =>
    s!"recorded read observed write #{expected} but {committed} writes are already committed"
  | .stalled (some writer) committed =>
    s!"retry budget exhausted; recorded order expects a write by thread {writer} next " ++
      s!"({committed} committed)"
  | .stalled none committed =>
    s!"retry budget exhausted; no further recorded writes ({committed} committed)"

/-- The answer to "may this access happen now?". -/
inductive Verdict where
  /-- Go ahead. -/
  | grant
  /-- Something recorded before this access still has to happen. -/
  | wait
  /-- This access can never be matched with the recording. -/
  | diverged (reason : DivergenceReason)
deriving DecidableEq, Repr, Inhabited

/-- A violation of the recorded order; the access went ahead all the same. -/
structure Divergence where
  location : LocationKey
  /-- The accessing thread, by its runtime id in the replay. -/
  live : RuntimeId
  /-- The recorded thread it replays. -/
  recorded : RuntimeId
  kind : AccessKind
  reason : DivergenceReason
  retries : Nat
deriving DecidableEq, Repr, Inhabited

/-- The wording of a divergence. -/
def Divergence.text (d : Divergence) : String :=
  s!"{d.kind.letter} of {d.location.text} by thread {d.live} (recorded {d.recorded}) " ++
    s!"after {d.retries} retries: {d.reason.text}"

end AccessReplay
