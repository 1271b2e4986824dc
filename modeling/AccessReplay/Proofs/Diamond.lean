import Mathlib.Data.List.Basic

/-!
# Threads whose moves commute

A thread has at most one next move, and `move t σ` is what it leads to, if `t` can
move in `σ`.  A run is a list of threads, each of which moves in its turn.

If moves of two different threads commute (`Diamond`), then neither takes the other's
move away, and a run that can go no further is determined up to the order of its
moves: every other one makes the same moves of each thread and ends in the same state
(`Diamond.maximal_runs_agree`).
-/
namespace AccessReplay

section Runs
variable {State Thread : Type} (move : Thread → State → Option State)

/-- The state after the threads moved in turn, if each of them could. -/
def runMoves : List Thread → State → Option State
  | [], σ => some σ
  | t :: ts, σ => (move t σ).bind (runMoves ts)

/-- No thread can move. -/
def Stuck (σ : State) : Prop := ∀ t, move t σ = none

@[simp] theorem runMoves_nil (σ : State) : runMoves move [] σ = some σ := rfl

theorem runMoves_cons_iff {t : Thread} {ts : List Thread} {σ σ' : State} :
    runMoves move (t :: ts) σ = some σ' ↔
      ∃ σ₁, move t σ = some σ₁ ∧ runMoves move ts σ₁ = some σ' := by
  simp [runMoves, Option.bind_eq_some_iff]

/-- In the states described by `Inv`, which moves do not leave, moves of two different
threads can be made in either order and lead to one state. -/
structure Diamond (Inv : State → Prop) : Prop where
  keep : ∀ {t σ σ'}, Inv σ → move t σ = some σ' → Inv σ'
  square : ∀ {t u σ σ₁ σ₂}, Inv σ → t ≠ u → move t σ = some σ₁ → move u σ = some σ₂ →
    ∃ σ₃, move u σ₁ = some σ₃ ∧ move t σ₂ = some σ₃

namespace Diamond

variable {move} {Inv : State → Prop} {t : Thread} {ts us : List Thread} {σ σ' σ'' σ₁ : State}

theorem keep_run (h : Diamond move Inv) (hσ : Inv σ) (hrun : runMoves move ts σ = some σ') :
    Inv σ' := by
  induction ts generalizing σ with
  | nil => exact Option.some.inj hrun ▸ hσ
  | cons t ts ih =>
    obtain ⟨σ₁, ht, hrest⟩ := (runMoves_cons_iff move).mp hrun
    exact ih (h.keep hσ ht) hrest

/-- Nothing that other threads do takes a thread's move away. -/
theorem still_moves (h : Diamond move Inv) (hσ : Inv σ) (ht : move t σ = some σ₁)
    (hts : t ∉ ts) (hrun : runMoves move ts σ = some σ') : ∃ σ₂, move t σ' = some σ₂ := by
  induction ts generalizing σ σ₁ with
  | nil => exact ⟨σ₁, Option.some.inj hrun ▸ ht⟩
  | cons u ts ih =>
    obtain ⟨σ₂, hu, hrest⟩ := (runMoves_cons_iff move).mp hrun
    obtain ⟨htu, hts⟩ := List.ne_and_not_mem_of_not_mem_cons hts
    obtain ⟨σ₃, -, ht'⟩ := h.square hσ htu ht hu
    exact ih (h.keep hσ hu) ht' hts hrest

variable [DecidableEq Thread]

/-- A move that is possible is made at some time, if the run goes on until nothing is
possible, and it might as well be made first. -/
theorem move_first (h : Diamond move Inv) (hσ : Inv σ) (ht : move t σ = some σ₁)
    (hrun : runMoves move ts σ = some σ') (hstuck : Stuck move σ') :
    t ∈ ts ∧ runMoves move (ts.erase t) σ₁ = some σ' := by
  induction ts generalizing σ σ₁ with
  | nil =>
    obtain rfl := Option.some.inj hrun
    rw [hstuck t] at ht
    cases ht
  | cons u ts ih =>
    obtain ⟨σ₂, hu, hrest⟩ := (runMoves_cons_iff move).mp hrun
    by_cases htu : t = u
    · subst htu
      obtain rfl := Option.some.inj (ht.symm.trans hu)
      exact ⟨List.mem_cons_self, by rwa [List.erase_cons_head]⟩
    · -- the square leaves `t` its move, to be made first in the rest of the run
      obtain ⟨σ₃, hu', ht'⟩ := h.square hσ htu ht hu
      obtain ⟨hmem, hrest'⟩ := ih (h.keep hσ hu) ht' hrest
      refine ⟨List.mem_cons_of_mem _ hmem, ?_⟩
      rw [List.erase_cons_tail (by simpa using Ne.symm htu)]
      exact (runMoves_cons_iff move).mpr ⟨σ₃, hu', hrest'⟩

/-- **Runs that can go no further agree** on how often each thread moves and on the state
they end in. -/
theorem maximal_runs_agree (h : Diamond move Inv) (hσ : Inv σ)
    (hts : runMoves move ts σ = some σ') (hstuck : Stuck move σ')
    (hus : runMoves move us σ = some σ'') (hstuck' : Stuck move σ'') :
    ts.Perm us ∧ σ' = σ'' := by
  induction us generalizing σ ts with
  | nil =>
    obtain rfl := Option.some.inj hus
    cases ts with
    | nil => exact ⟨List.Perm.refl _, (Option.some.inj hts).symm⟩
    | cons t ts =>
      obtain ⟨σ₁, ht, -⟩ := (runMoves_cons_iff move).mp hts
      rw [hstuck' t] at ht
      cases ht
  | cons u us ih =>
    -- the other run makes the first move of this one too, and might make it first
    obtain ⟨σ₁, hu, hrest⟩ := (runMoves_cons_iff move).mp hus
    obtain ⟨hmem, hts'⟩ := h.move_first hσ hu hts hstuck
    obtain ⟨hperm, heq⟩ := ih (h.keep hσ hu) hts' hrest
    exact ⟨(List.perm_cons_erase hmem).trans (hperm.cons u), heq⟩

end Diamond
end Runs
end AccessReplay
