import AccessReplay.Proofs.Diamond
import AccessReplay.Proofs.RecordedLocations
import AccessReplay.Proofs.SequentialReplay

/-!
# Replay does not depend on scheduling

Every thread has a list of accesses to make, not necessarily the recorded ones.  A move
of a thread is its next access as a whole, and is possible if the access is granted.
In which order the threads move is left to a scheduler.

At one location, accesses are granted to two threads at a time only if both are reads:
a write is granted only when no read recorded before it is left to make, and only to
the writer of the next write.  So moves of different threads commute, and what runs
that can go no further have in common is everything but the order of their moves.
-/
namespace AccessReplay

/-! ## Two threads at one location -/

namespace Location.Tracks

variable {s : List Access} {l : Location} {t u : RuntimeId} {k k' : AccessKind}

/-- Accesses are granted to two threads at a time only if both are reads. -/
theorem both_read (h : Tracks s (fun _ => none) l) (htu : t ≠ u)
    (ht : l.verdict t k = .grant) (hu : l.verdict u k' = .grant) : k = .read ∧ k' = .read := by
  have read_or_write : ∀ {v w}, l.verdict v .read = .grant → l.verdict w .write ≠ .grant := by
    intro v w hv hw
    have hlt := (h.read_granted_iff.mp hv).2
    have hge := (h.write_granted_iff.mp hw).2.2 v
    omega
  cases k with
  | read =>
    cases k' with
    | read => exact ⟨rfl, rfl⟩
    | write => exact absurd hu (read_or_write ht)
  | write =>
    cases k' with
    | read => exact absurd ht (read_or_write hu)
    | write =>
      have hwt := (h.write_granted_iff.mp ht).1
      have hwu := (h.write_granted_iff.mp hu).1
      exact absurd (Option.some.inj (hwt.symm.trans hwu)) htu

/-- Another thread's read leaves a read granted. -/
theorem granted_after_read (h : Tracks s (fun _ => none) l) (htu : t ≠ u)
    (ht : l.verdict t .read = .grant) (hu : l.verdict u .read = .grant) :
    (l.attempt ⟨t, .read⟩).2.verdict u .read = .grant := by
  rw [(h.attempt _).read_granted_iff, h.attempt_read ht, ReadCounts.get_increment_of_ne htu]
  exact h.read_granted_iff.mp hu

theorem attempt_comm (h : Tracks s (fun _ => none) l) (htu : t ≠ u)
    (ht : l.verdict t .read = .grant) (hu : l.verdict u .read = .grant) :
    ((l.attempt ⟨t, .read⟩).2.attempt ⟨u, .read⟩).2 =
      ((l.attempt ⟨u, .read⟩).2.attempt ⟨t, .read⟩).2 := by
  rw [(h.attempt _).attempt_read (h.granted_after_read htu ht hu),
    (h.attempt _).attempt_read (h.granted_after_read htu.symm hu ht),
    h.attempt_read ht, h.attempt_read hu, ReadCounts.increment_comm htu]

/-- **Diverged is final**, whatever another thread does: it does not make the accesses
that are counted. -/
theorem diverged_after (h : Tracks s (fun _ => none) l) (htu : t ≠ u)
    (ht : ∃ reason, l.verdict t k = .diverged reason) :
    ∃ reason, (l.attempt ⟨u, k'⟩).2.verdict t k = .diverged reason := by
  rw [(h.attempt _).diverged_iff_exhausted, h.made_attempt]
  simpa [htu.symm] using h.diverged_iff_exhausted.mp ht

end Location.Tracks

/-! ## Threads at many locations -/

namespace Interleaving

/-- The locations, and what each thread still has to do. -/
@[ext] structure State where
  locations : LocationKey → Location
  todo : RuntimeId → List LocatedAccess

/-- The locations of a recording before any access, and a program for each thread. -/
def start (r : Recording) (program : RuntimeId → List LocatedAccess) : State :=
  ⟨r.locationAt, program⟩

/-- What a thread is answered if it asks for its next access. -/
def nextVerdict? (σ : State) (t : RuntimeId) : Option Verdict :=
  (σ.todo t).head?.map fun a => (σ.locations a.key).verdict t a.kind

/-- One move of a thread: its next access as a whole, if it is granted. -/
def move (t : RuntimeId) (σ : State) : Option State :=
  match σ.todo t with
  | [] => none
  | a :: rest =>
    let (verdict, l) := (σ.locations a.key).attempt ⟨t, a.kind⟩
    if verdict = .grant then
      some ⟨Function.update σ.locations a.key l, Function.update σ.todo t rest⟩
    else none

/-- Every location enforces what the recording has for it, and no access is open. -/
def OnTrack (r : Recording) (σ : State) : Prop :=
  ∀ key, (σ.locations key).Tracks (r.orderAt key) (fun _ => none)

variable {r : Recording} {σ σ' σ₁ σ₂ : State} {t u : RuntimeId}

theorem move_eq_some_iff : move t σ = some σ' ↔ ∃ a rest, σ.todo t = a :: rest ∧
    (σ.locations a.key).verdict t a.kind = .grant ∧
      σ' = ⟨Function.update σ.locations a.key ((σ.locations a.key).attempt ⟨t, a.kind⟩).2,
        Function.update σ.todo t rest⟩ := by
  unfold move
  cases h : σ.todo t with
  | nil => simp
  | cons a rest =>
    by_cases hg : (σ.locations a.key).verdict t a.kind = .grant
    · simp [hg, and_assoc, eq_comm (a := σ')]
    · simp [hg, and_assoc]

/-- A thread can move exactly if its next access would be granted. -/
theorem exists_move_iff : (∃ σ', move t σ = some σ') ↔ nextVerdict? σ t = some .grant := by
  simp only [move_eq_some_iff, nextVerdict?]
  cases σ.todo t with
  | nil => simp
  | cons a rest => simp

theorem onTrack_start (r : Recording) (program : RuntimeId → List LocatedAccess) :
    OnTrack r (start r program) := r.tracks_locationAt

theorem OnTrack.after_move (h : OnTrack r σ) (hm : move t σ = some σ') : OnTrack r σ' := by
  obtain ⟨a, rest, -, -, rfl⟩ := move_eq_some_iff.mp hm
  intro key
  by_cases hk : key = a.key
  · subst hk
    simpa using (h a.key).attempt _
  · simpa [hk] using h key

/-- **Moves of two different threads commute.** -/
theorem OnTrack.square (h : OnTrack r σ) (htu : t ≠ u) (ht : move t σ = some σ₁)
    (hu : move u σ = some σ₂) :
    ∃ σ₃, move u σ₁ = some σ₃ ∧ move t σ₂ = some σ₃ := by
  obtain ⟨⟨key, k⟩, rest, hat, hgt, rfl⟩ := move_eq_some_iff.mp ht
  obtain ⟨⟨key', k'⟩, rest', hau, hgu, rfl⟩ := move_eq_some_iff.mp hu
  have htodo := Function.update_comm htu rest rest' σ.todo
  by_cases hk : key = key'
  · -- at one location both accesses are reads, and the other thread's is counted apart
    subst hk
    obtain ⟨rfl, rfl⟩ := (h key).both_read htu hgt hgu
    refine ⟨_, move_eq_some_iff.mpr ⟨⟨key, .read⟩, rest', ?_, ?_, rfl⟩,
      move_eq_some_iff.mpr ⟨⟨key, .read⟩, rest, ?_, ?_, ?_⟩⟩
    · simpa [htu.symm] using hau
    · simpa using (h key).granted_after_read htu hgt hgu
    · simpa [htu] using hat
    · simpa using (h key).granted_after_read htu.symm hgu hgt
    · simp [htodo, (h key).attempt_comm htu hgt hgu]
  · have hlocations := Function.update_comm hk
      ((σ.locations key).attempt ⟨t, k⟩).2 ((σ.locations key').attempt ⟨u, k'⟩).2 σ.locations
    refine ⟨_, move_eq_some_iff.mpr ⟨⟨key', k'⟩, rest', ?_, ?_, rfl⟩,
      move_eq_some_iff.mpr ⟨⟨key, k⟩, rest, ?_, ?_, ?_⟩⟩
    · simpa [htu.symm] using hau
    · simpa [Ne.symm hk] using hgu
    · simpa [htu] using hat
    · simpa [hk] using hgt
    · simp [htodo, hlocations, hk, Ne.symm hk]

theorem diamond (r : Recording) : Diamond move (OnTrack r) where
  keep h hm := h.after_move hm
  square h htu ht hu := h.square htu ht hu

/-! ## What other threads cannot change -/

theorem granted_after_run (h : OnTrack r σ) {us : List RuntimeId} (htu : t ∉ us)
    (hrun : runMoves move us σ = some σ') (ht : nextVerdict? σ t = some .grant) :
    nextVerdict? σ' t = some .grant := by
  obtain ⟨σ₁, ht⟩ := exists_move_iff.mpr ht
  exact exists_move_iff.mp ((diamond r).still_moves h ht htu hrun)

theorem diverged_after_move (h : OnTrack r σ) (htu : t ≠ u)
    (hu : move u σ = some σ')
    (ht : ∃ reason, nextVerdict? σ t = some (.diverged reason)) :
    ∃ reason, nextVerdict? σ' t = some (.diverged reason) := by
  obtain ⟨a, rest, -, -, rfl⟩ := move_eq_some_iff.mp hu
  simp only [nextVerdict?, Option.map_eq_some_iff] at ht ⊢
  obtain ⟨reason, b, hb, hv⟩ := ht
  simp only [Function.update_of_ne htu, hb, Option.some.injEq, exists_eq_left']
  by_cases hk : b.key = a.key
  · rw [hk, Function.update_self]
    exact (h a.key).diverged_after htu ⟨reason, hk ▸ hv⟩
  · exact ⟨reason, by rwa [Function.update_of_ne hk]⟩

theorem diverged_after_run (h : OnTrack r σ) {us : List RuntimeId} (htu : t ∉ us)
    (hrun : runMoves move us σ = some σ')
    (ht : ∃ reason, nextVerdict? σ t = some (.diverged reason)) :
    ∃ reason, nextVerdict? σ' t = some (.diverged reason) := by
  induction us generalizing σ with
  | nil => exact Option.some.inj hrun ▸ ht
  | cons u us ih =>
    obtain ⟨σ₁, hu, hrest⟩ := (runMoves_cons_iff _).mp hrun
    obtain ⟨hne, hnot⟩ := List.ne_and_not_mem_of_not_mem_cons htu
    exact ih (h.after_move hu) hnot hrest (diverged_after_move h hne hu ht)

/-- **Replay is independent of scheduling.**  After any moves `ts`:

* whatever moves other threads make, a thread's next access stays granted if it was, and
  stays diverged if it was;
* moves of two different threads commute.

And any two runs that can go no further consist of the same number of accesses of each
thread, and agree on the writes, the last write and the reads of every location. -/
theorem scheduling_independence (r : Recording) (program : RuntimeId → List LocatedAccess) :
    (∀ ts σ, runMoves move ts (start r program) = some σ →
      (∀ t us σ', t ∉ us → runMoves move us σ = some σ' →
        (nextVerdict? σ t = some .grant → nextVerdict? σ' t = some .grant) ∧
        ((∃ reason, nextVerdict? σ t = some (.diverged reason)) →
          ∃ reason, nextVerdict? σ' t = some (.diverged reason))) ∧
      (∀ t u σ₁ σ₂, t ≠ u → move t σ = some σ₁ → move u σ = some σ₂ →
        ∃ σ₃, move u σ₁ = some σ₃ ∧ move t σ₂ = some σ₃)) ∧
    (∀ ts us σ σ', runMoves move ts (start r program) = some σ →
      Stuck move σ → runMoves move us (start r program) = some σ' →
      Stuck move σ' →
      (∀ t, ts.count t = us.count t) ∧
      ∀ key, (σ.locations key).committed = (σ'.locations key).committed ∧
        (σ.locations key).lastWrite = (σ'.locations key).lastWrite ∧
        ∀ t, (σ.locations key).reads.get t = (σ'.locations key).reads.get t) := by
  have hstart := onTrack_start r program
  refine ⟨fun ts σ hts => ?_, fun ts us σ σ' hts hstuck hus hstuck' => ?_⟩
  · have hσ := (diamond r).keep_run hstart hts
    exact ⟨fun t us σ' htu hrun => ⟨granted_after_run hσ htu hrun, diverged_after_run hσ htu hrun⟩,
      fun t u σ₁ σ₂ htu ht hu => hσ.square htu ht hu⟩
  · obtain ⟨hperm, rfl⟩ := (diamond r).maximal_runs_agree hstart hts hstuck hus hstuck'
    exact ⟨fun t => hperm.count_eq t, fun key => ⟨rfl, rfl, fun _ => rfl⟩⟩

end Interleaving
end AccessReplay
