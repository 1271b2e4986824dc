import AccessReplay.Engine.Step

/-!
# Hooks end

Each step of a hook lowers the rank of the stage (`rank_step_lt`), whatever the
engine looks like, and no step changes the budget (`budget_step`).  So a hook that
is run for as many steps as its rank has ended (`stage_run`), and `Engine.call` is
the whole hook.
-/

namespace AccessReplay
namespace Engine

/-- Saying things changes nothing else. -/
@[simp] theorem budget_notes (e : Engine) (ns : List Notice) : (e.notes ns).budget = e.budget :=
  rfl

/-- Saying something changes nothing else. -/
@[simp] theorem budget_note (e : Engine) (n : Notice) : (e.note n).budget = e.budget := rfl

/-- Reporting a divergence leaves the budget as it is. -/
@[simp] theorem budget_report (e : Engine) (d : Divergence) : (e.report d).budget = e.budget := by
  unfold report
  split
  · rfl
  · dsimp only
    split <;> rfl

/-- Every step leaves the budget as it is. -/
theorem budget_step (e : Engine) (c : Caller) : (e.step c).1.budget = e.budget := by
  obtain ⟨p, stage⟩ := c
  cases stage with
  | counted | choosing | waiting | resting => simp only [step]; split <;> rfl
  | concluding kind =>
    simp only [step]
    split
    · rfl
    · split <;> rfl
  | filing a next => simp only [step, file]; split <;> rfl
  | flagging q reason => simp only [step, flag]; split <;> rfl
  | locating r => simp only [step, locate]; split <;> rfl
  | asking q => simp only [step]; split <;> rfl
  | reporting q reason => simp only [step, letThrough, budget_note, budget_report]
  | outside | announced | committing | releasing | marking | counting | leaving => rfl

/-- Every step of a hook lowers the rank. -/
theorem rank_step_lt (e : Engine) (c : Caller) (h : c.stage ≠ .outside) :
    (e.step c).2.stage.rank e.budget.maxRetries < c.stage.rank e.budget.maxRetries := by
  obtain ⟨p, stage⟩ := c
  cases stage with
  | outside => exact absurd rfl h
  | counted | concluding | choosing | locating =>
    simp only [step]
    split <;> simp only [Stage.rank] <;> omega
  | committing a next => cases next <;> simp only [step, Stage.rank] <;> omega
  | filing a next => cases next <;> simp only [step, Stage.rank] <;> omega
  | releasing next =>
    cases next <;> simp only [step, Stage.rank, Option.elim_none, Option.elim_some] <;> omega
  | asking q =>
    simp only [step]
    split <;> simp only [Stage.rank, letThrough] <;> omega
  | waiting q =>
    simp only [step]
    split <;> simp only [Stage.rank, letThrough] <;> omega
  | resting q =>
    rcases Nat.lt_or_ge q.retries e.budget.maxRetries with hleft | hspent
    · simp only [step, Patience.pause_of_left (b := ⟨e.budget, q.retries⟩) hleft, Stage.rank]
      omega
    · simp only [step, Patience.pause_of_spent (b := ⟨e.budget, q.retries⟩) hspent, Stage.rank]
      omega
  | announced | marking | flagging | counting | reporting | leaving =>
    simp only [step, letThrough, Stage.rank]
    omega

/-- A hook that is run for as many steps as its rank has ended. -/
theorem stage_run (fuel : Nat) (e : Engine) (c : Caller)
    (h : c.stage.rank e.budget.maxRetries ≤ fuel) : (run fuel e c).2.stage = .outside := by
  induction fuel generalizing e c with
  | zero =>
    by_cases hout : c.stage = .outside
    · exact hout
    · have := rank_step_lt e c hout
      omega
  | succ fuel ih =>
    rw [run]
    split
    · assumption
    · next hout =>
      have hlt := rank_step_lt e c hout
      refine ih (e.step c).1 (e.step c).2 ?_
      rw [budget_step]
      omega

end Engine
end AccessReplay
