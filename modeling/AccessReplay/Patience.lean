import AccessReplay.Duration

/-!
# Patience

A thread that must wait asks again after a pause.  Its budget is a number of
retries, not a time: the first `yieldLimit` of them only give way to other
threads, the others sleep.
-/

namespace AccessReplay

/-- How long a thread keeps asking. -/
structure Budget where
  maxRetries : Nat := 20000
  /-- How many of the retries only give way. -/
  yieldLimit : Nat := 1000
  /-- How long each of the others sleeps. -/
  sleep : Duration := .ofMicros 100
deriving DecidableEq, Repr, Inhabited

/-- The longest sleep that one access can take, unless it is beyond all durations. -/
def Budget.longestSleep? (b : Budget) : Option Duration :=
  b.sleep.times? (b.maxRetries - b.yieldLimit)

/-- What a thread does instead of going ahead. -/
inductive Pause where
  /-- Gives way to other threads. -/
  | yield
  | sleep (length : Duration)
deriving DecidableEq, Repr

/-- How much of its budget an access has used up. -/
structure Patience where
  budget : Budget
  retries : Nat := 0
deriving DecidableEq, Repr, Inhabited

/-- The pause that comes after `n` others. -/
def Budget.pauseAfter (b : Budget) (n : Nat) : Pause :=
  if n < b.yieldLimit then .yield else .sleep b.sleep

namespace Patience

/-- Backs off once: the pause to take, or `none` once the budget is used up. -/
def pause (b : Patience) : Option Pause × Patience :=
  if b.budget.maxRetries ≤ b.retries then (none, b)
  else
    (some (if b.retries < b.budget.yieldLimit then .yield else .sleep b.budget.sleep),
      { b with retries := b.retries + 1 })

theorem pause_of_spent {b : Patience} (h : b.budget.maxRetries ≤ b.retries) :
    b.pause = (none, b) := by
  rw [pause, if_pos h]

theorem pause_of_left {b : Patience} (h : b.retries < b.budget.maxRetries) :
    b.pause = (some (b.budget.pauseAfter b.retries), { b with retries := b.retries + 1 }) := by
  rw [pause, if_neg (Nat.not_le.mpr h), Budget.pauseAfter]

end Patience
end AccessReplay
