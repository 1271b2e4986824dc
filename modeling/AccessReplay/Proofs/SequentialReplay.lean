import AccessReplay.Proofs.LocationProgress
import AccessReplay.Proofs.Rearrangement

/-!
# Replaying one access after the other

`Location.attempt` makes one access as a whole: it is asked for and, if granted,
committed before anything else happens.  `attemptAll` makes a list of accesses that way.

A location's state after granted accesses is read off those accesses alone
(`follows_attemptAll`), so its next answer is decided by the counts that decide
rearrangements: what a location grants is exactly what leads a rearrangement of its
recorded order.
-/
namespace AccessReplay

/-- The last write of an order of accesses, with its index among the writes. -/
def lastWriteOf (s : List Access) : Option LastWrite :=
  (writersOf s).getLast?.map fun t => ⟨t, (writersOf s).length - 1⟩

namespace Location

/-- Makes one access: asks for it and, if it is granted, commits it. -/
def attempt (l : Location) (a : Access) : Verdict × Location :=
  let (verdict, asked) := l.poll a.thread a.kind
  (verdict, if verdict = .grant then asked.commit a.thread a.kind .granted else asked)

/-- Makes accesses one after the other, whatever the answers. -/
def attemptAll (l : Location) : List Access → List Verdict × Location
  | [] => ([], l)
  | a :: s =>
    let (verdict, next) := l.attempt a
    let (verdicts, last) := next.attemptAll s
    (verdict :: verdicts, last)

/-! ## One access -/

section Attempt
variable {s : List Access} {l : Location} {a : Access}

@[simp] theorem attempt_fst (l : Location) (a : Access) :
    (l.attempt a).1 = l.verdict a.thread a.kind := rfl

theorem attempt_of_not_grant (h : l.verdict a.thread a.kind ≠ .grant) : (l.attempt a).2 = l := by
  simp [attempt, poll, h, reserve_of_not_grant h]

theorem attempt_of_grant (h : l.verdict a.thread a.kind = .grant) :
    (l.attempt a).2 = (l.reserve a.thread a.kind).commit a.thread a.kind .granted := by
  simp [attempt, poll, h]

/-- **An access as a whole keeps a location on track.** -/
theorem Tracks.attempt (h : Tracks s (fun _ => none) l) (a : Access) :
    Tracks s (fun _ => none) (l.attempt a).2 := by
  by_cases hg : l.verdict a.thread a.kind = .grant
  · rw [attempt_of_grant hg]
    have hopen := h.grant rfl hg
    have hdone := hopen.commit (Function.update_self ..)
    rwa [Function.update_idem, Function.update_eq_self] at hdone
  · rwa [attempt_of_not_grant hg]

/-- An access counts if it is granted. -/
theorem Tracks.made_attempt (h : Tracks s (fun _ => none) l) (a b : Access) :
    made s (l.attempt a).2 b =
      made s l b + if l.verdict a.thread a.kind = .grant ∧ a = b then 1 else 0 := by
  by_cases hg : l.verdict a.thread a.kind = .grant
  · rw [attempt_of_grant hg, (h.grant rfl hg).made_commit (Function.update_self ..), made_reserve]
    simp [hg]
  · simp [attempt_of_not_grant hg, hg]

theorem Tracks.writeOpen_eq (h : Tracks s (fun _ => none) l) : l.writeOpen = false := by
  have := h.reserved
  simpa using this

theorem Tracks.attempt_read (h : Tracks s (fun _ => none) l) {t : RuntimeId}
    (hg : l.verdict t .read = .grant) :
    (l.attempt ⟨t, .read⟩).2 = { l with reads := l.reads.increment t } := by
  rw [attempt_of_grant hg, reserve_read, commit_granted_read h.undiverged]

theorem Tracks.attempt_write (h : Tracks s (fun _ => none) l) {t : RuntimeId}
    (hg : l.verdict t .write = .grant) :
    (l.attempt ⟨t, .write⟩).2 =
      { l with committed := l.committed + 1, lastWrite := some ⟨t, l.committed⟩ } := by
  rw [attempt_of_grant hg, reserve_write h.undiverged hg,
    commit_granted_write (by exact h.undiverged)]
  simp [h.writeOpen_eq]

end Attempt

/-! ## Many accesses -/

theorem attemptAll_concat (l : Location) (p : List Access) (a : Access) :
    l.attemptAll (p ++ [a]) =
      ((l.attemptAll p).1 ++ [((l.attemptAll p).2.attempt a).1],
        ((l.attemptAll p).2.attempt a).2) := by
  induction p generalizing l with
  | nil => rfl
  | cons b p ih => simp [attemptAll, ih]

/-- Were all of the accesses granted? -/
def GrantsAll (l : Location) (p : List Access) : Prop := ∀ v ∈ (l.attemptAll p).1, v = .grant

theorem grantsAll_concat {l : Location} {p : List Access} {a : Access} :
    GrantsAll l (p ++ [a]) ↔
      GrantsAll l p ∧ (l.attemptAll p).2.verdict a.thread a.kind = .grant := by
  simp only [GrantsAll, attemptAll_concat, attempt_fst, List.forall_mem_append,
    List.forall_mem_singleton]

/-- What a location says of itself after the granted accesses `p`. -/
structure Follows (s p : List Access) (l : Location) : Prop extends
    Tracks s (fun _ => none) l where
  committed_eq : l.committed = (writersOf p).length
  lastWrite_eq : l.lastWrite = lastWriteOf p
  reads_eq : ∀ t, l.reads.get t = p.count ⟨t, .read⟩

namespace Follows

variable {s p : List Access} {l : Location} {a : Access}

/-- A location grants what the recorded order admits. -/
theorem granted_iff (h : Follows s p l) : l.verdict a.thread a.kind = .grant ↔ Admits s p a := by
  rcases a with ⟨t, _ | _⟩
  · simp only [h.read_granted_iff, h.committed_eq, h.reads_eq, Admits]
  · simp only [h.write_granted_iff, h.committed_eq, h.reads_eq, h.writeOpen_eq, true_and, Admits]

theorem attempt (h : Follows s p l) (hg : l.verdict a.thread a.kind = .grant) :
    Follows s (p ++ [a]) (l.attempt a).2 where
  toTracks := h.toTracks.attempt a
  committed_eq := by
    rcases a with ⟨t, _ | _⟩
    · simp [h.attempt_read hg, h.committed_eq]
    · simp [h.attempt_write hg, h.committed_eq]
  lastWrite_eq := by
    rcases a with ⟨t, _ | _⟩
    · simp [h.attempt_read hg, h.lastWrite_eq, lastWriteOf]
    · simp [h.attempt_write hg, h.committed_eq, lastWriteOf]
  reads_eq u := by
    rcases a with ⟨t, _ | _⟩
    · simp [h.attempt_read hg, ReadCounts.get_increment, h.reads_eq, List.count_singleton]
    · simp [h.attempt_write hg, h.reads_eq]

end Follows

theorem follows_ofEvents (es : List RecordedAccess) :
    Follows (accessOrder es) [] (ofEvents es) where
  toTracks := tracks_ofEvents es
  committed_eq := rfl
  lastWrite_eq := rfl
  reads_eq _ := by simp [ofEvents]

theorem follows_attemptAll {es : List RecordedAccess} {p : List Access}
    (h : GrantsAll (ofEvents es) p) :
    Follows (accessOrder es) p ((ofEvents es).attemptAll p).2 := by
  induction p using List.reverseRecOn with
  | nil => exact follows_ofEvents es
  | append_singleton p a ih =>
    obtain ⟨hp, hg⟩ := grantsAll_concat.mp h
    rw [attemptAll_concat]
    exact (ih hp).attempt hg

theorem grantsAll_iff_leads (es : List RecordedAccess) (p : List Access) :
    GrantsAll (ofEvents es) p ↔ Leads (accessOrder es) p := by
  induction p using List.reverseRecOn with
  | nil => exact iff_of_true (fun _ h => by simp [attemptAll] at h) (leads_nil _)
  | append_singleton p a ih =>
    rw [grantsAll_concat, leads_concat_iff, ← ih]
    exact and_congr_right fun hp => (follows_attemptAll hp).granted_iff

/-- **A location grants exactly the recorded order up to reordering reads between
writes.**  And what it says of itself afterwards are the counts of what it granted. -/
theorem attemptAll_granted_iff_rearranged (es : List RecordedAccess) (s : List Access) :
    ((∀ v ∈ ((ofEvents es).attemptAll s).1, v = .grant) ↔
        ∃ s', Rearranged (accessOrder es) s' ∧ s <+: s') ∧
      ((∀ v ∈ ((ofEvents es).attemptAll s).1, v = .grant) →
        ((ofEvents es).attemptAll s).2.committed = (writersOf s).length ∧
          ((ofEvents es).attemptAll s).2.lastWrite = lastWriteOf s ∧
          ∀ t, ((ofEvents es).attemptAll s).2.reads.get t = s.count ⟨t, .read⟩) := by
  refine ⟨grantsAll_iff_leads es s, fun h => ?_⟩
  have hfollows := follows_attemptAll h
  exact ⟨hfollows.committed_eq, hfollows.lastWrite_eq, hfollows.reads_eq⟩

end Location
end AccessReplay
