import AccessReplay.Location.Live
import AccessReplay.Proofs.ScheduleTables
import Mathlib.Logic.Function.Basic

/-!
# How far a location has come

A location enforces a recorded order `s`.  Threads have accesses of it open — granted
and not yet committed — at most one each.  `Location.Tracks s opened l` says what is
true of `l` whatever the threads did so far:

* as many writes are committed as `l` says, and every read recorded before the last of
  them is made;
* no read recorded after the next write is made or open;
* a write is open only for the recorded writer of the next write, and only once every
  read recorded before it is made.

The last point excludes a reader while a write is open, although a granted read
reserves nothing: a reader's next read is one of those that the write waits for.

Granting an access and committing it keep this (`Tracks.grant`, `Tracks.commit`); these
are the only steps that change an undiverged location.
-/
namespace AccessReplay

section Opened
variable {Thread α : Type} [DecidableEq Thread] {opened : Thread → Option α} {t u : Thread}
  {a b : α}

/-- What is open once `t` has closed its access. -/
theorem update_none_iff :
    Function.update opened t none u = some a ↔ u ≠ t ∧ opened u = some a := by
  by_cases h : u = t <;> simp [h]

/-- What is open once `t` has opened an access. -/
theorem update_some_iff (hidle : opened t = none) :
    Function.update opened t (some b) u = some a ↔ (u = t ∧ b = a) ∨ opened u = some a := by
  by_cases h : u = t
  · subst h
    simp [hidle]
  · simp [h]

end Opened

namespace Location

/-- `l` checks accesses against the recorded order `s`. -/
structure Enforces (s : List Access) (l : Location) : Prop where
  schedule : ∃ es, accessOrder es = s ∧ l.schedule = Schedule.ofEvents es
  undiverged : l.isDiverged = false

namespace Enforces

variable {s : List Access} {l : Location} {t : RuntimeId}

/-- A thread's next read is granted between the writes it was recorded between. -/
theorem read_granted_iff (h : Enforces s l) :
    l.verdict t .read = .grant ↔
      (through l.committed s).count ⟨t, .read⟩ ≤ l.reads.get t ∧
        l.reads.get t < (through (l.committed + 1) s).count ⟨t, .read⟩ := by
  obtain ⟨es, rfl, hs⟩ := h.schedule
  simp [verdict, h.undiverged, hs, Schedule.judgeRead_eq_grant_iff]

theorem read_diverged_iff (h : Enforces s l) :
    (∃ reason, l.verdict t .read = .diverged reason) ↔
      s.count ⟨t, .read⟩ ≤ l.reads.get t ∨
        l.reads.get t < (through l.committed s).count ⟨t, .read⟩ := by
  obtain ⟨es, rfl, hs⟩ := h.schedule
  simp [verdict, h.undiverged, hs, Schedule.judgeRead_eq_diverged_iff]

/-- The next write is granted to its recorded writer once everything before it is done. -/
theorem write_granted_iff (h : Enforces s l) :
    l.verdict t .write = .grant ↔
      (writersOf s)[l.committed]? = some t ∧ l.writeOpen = false ∧
        ∀ u, (through (l.committed + 1) s).count ⟨u, .read⟩ ≤ l.reads.get u := by
  obtain ⟨es, rfl, hs⟩ := h.schedule
  simp [verdict, h.undiverged, hs, Schedule.judgeWrite_eq_grant_iff]

theorem write_diverged_iff (h : Enforces s l) :
    (∃ reason, l.verdict t .write = .diverged reason) ↔
      t ∉ (writersOf s).drop l.committed := by
  obtain ⟨es, rfl, hs⟩ := h.schedule
  simp [verdict, h.undiverged, hs, Schedule.judgeWrite_eq_diverged_iff]

end Enforces

/-- What holds of a location that enforces `s` while `opened` tells which access each
thread has open. -/
structure Tracks (s : List Access) (opened : RuntimeId → Option AccessKind) (l : Location) : Prop
    extends Enforces s l where
  committed_le : l.committed ≤ (writersOf s).length
  reads_ge : ∀ t, (through l.committed s).count ⟨t, .read⟩ ≤ l.reads.get t
  reads_le : ∀ t, l.reads.get t ≤ (through (l.committed + 1) s).count ⟨t, .read⟩
  read_open : ∀ t, opened t = some .read →
    l.reads.get t < (through (l.committed + 1) s).count ⟨t, .read⟩
  write_open : ∀ t, opened t = some .write → (writersOf s)[l.committed]? = some t
  reserved : l.writeOpen = true ↔ ∃ t, opened t = some .write
  ready : l.writeOpen = true →
    ∀ t, (through (l.committed + 1) s).count ⟨t, .read⟩ ≤ l.reads.get t

/-- A location before its first access. -/
def ofEvents (es : List RecordedAccess) : Location := { schedule := Schedule.ofEvents es }

theorem tracks_ofEvents (es : List RecordedAccess) :
    Tracks (accessOrder es) (fun _ => none) (ofEvents es) := by
  constructor <;> simp [ofEvents]
  exact ⟨⟨es, rfl, rfl⟩, rfl⟩

variable {s : List Access} {opened : RuntimeId → Option AccessKind} {l : Location}
  {t u : RuntimeId} {k : AccessKind}

namespace Tracks

/-! ## What the invariant excludes -/

/-- At most one write is open. -/
theorem one_writer (h : Tracks s opened l) (ht : opened t = some .write)
    (hu : opened u = some .write) : t = u :=
  Option.some.inj ((h.write_open t ht).symm.trans (h.write_open u hu))

/-- No read is open while a write is open. -/
theorem no_reader (h : Tracks s opened l) (ht : opened t = some .write) :
    opened u ≠ some .read := by
  intro hu
  have hready := h.ready (h.reserved.mpr ⟨t, ht⟩) u
  have hopen := h.read_open u hu
  omega

/-! ## Granting -/

theorem grant_read (h : Tracks s opened l) (hidle : opened t = none)
    (hg : l.verdict t .read = .grant) :
    Tracks s (Function.update opened t (some .read)) l where
  toEnforces := h.toEnforces
  committed_le := h.committed_le
  reads_ge := h.reads_ge
  reads_le := h.reads_le
  read_open u hu := by
    rcases (update_some_iff hidle).mp hu with ⟨rfl, -⟩ | hu
    · exact (h.read_granted_iff.mp hg).2
    · exact h.read_open u hu
  write_open u hu := by
    rcases (update_some_iff hidle).mp hu with ⟨-, hk⟩ | hu
    · cases hk
    · exact h.write_open u hu
  reserved := by simp [update_some_iff hidle, h.reserved]
  ready := h.ready

theorem grant_write (h : Tracks s opened l) (hidle : opened t = none)
    (hg : l.verdict t .write = .grant) :
    Tracks s (Function.update opened t (some .write)) { l with writeOpen := true } where
  schedule := h.schedule
  undiverged := h.undiverged
  committed_le := h.committed_le
  reads_ge := h.reads_ge
  reads_le := h.reads_le
  read_open u hu := by
    rcases (update_some_iff hidle).mp hu with ⟨-, hk⟩ | hu
    · cases hk
    · exact h.read_open u hu
  write_open u hu := by
    rcases (update_some_iff hidle).mp hu with ⟨rfl, -⟩ | hu
    · exact (h.write_granted_iff.mp hg).1
    · exact h.write_open u hu
  reserved := ⟨fun _ => ⟨t, Function.update_self ..⟩, fun _ => rfl⟩
  ready _ := (h.write_granted_iff.mp hg).2.2

/-- **Granting keeps a location on track.** -/
theorem grant (h : Tracks s opened l) (hidle : opened t = none) (hg : l.verdict t k = .grant) :
    Tracks s (Function.update opened t (some k)) (l.reserve t k) := by
  cases k with
  | read => rw [reserve_read]; exact h.grant_read hidle hg
  | write => rw [reserve_write h.undiverged hg]; exact h.grant_write hidle hg

/-! ## Committing -/

theorem commit_read (h : Tracks s opened l) (ho : opened t = some .read) :
    Tracks s (Function.update opened t none) { l with reads := l.reads.increment t } where
  schedule := h.schedule
  undiverged := h.undiverged
  committed_le := h.committed_le
  reads_ge u := Nat.le_trans (h.reads_ge u) (ReadCounts.get_le_get_increment ..)
  reads_le u := by
    rw [ReadCounts.get_increment]
    split
    · next htu => subst htu; exact h.read_open t ho
    · exact h.reads_le u
  read_open u hu := by
    obtain ⟨htu, hu⟩ := update_none_iff.mp hu
    rw [ReadCounts.get_increment_of_ne (Ne.symm htu)]
    exact h.read_open u hu
  write_open u hu := h.write_open u (update_none_iff.mp hu).2
  reserved := by
    -- the access that is closed is a read, so the open writes are the same
    rw [h.reserved]
    refine exists_congr fun u => ?_
    rw [update_none_iff, iff_and_self]
    rintro hu rfl
    rw [ho] at hu
    cases hu
  ready hw u := Nat.le_trans (h.ready hw u) (ReadCounts.get_le_get_increment ..)

theorem commit_write (h : Tracks s opened l) (ho : opened t = some .write) :
    Tracks s (Function.update opened t none)
      { l with
        committed := l.committed + 1
        writeOpen := false
        lastWrite := some ⟨t, l.committed⟩ } where
  schedule := h.schedule
  undiverged := h.undiverged
  committed_le := (List.getElem?_eq_some_iff.mp (h.write_open t ho)).1
  reads_ge := h.ready (h.reserved.mpr ⟨t, ho⟩)
  reads_le u := Nat.le_trans (h.reads_le u) (count_through_mono (Nat.le_succ _) s _)
  read_open u hu := absurd (update_none_iff.mp hu).2 (h.no_reader ho)
  write_open u hu := by
    obtain ⟨htu, hu⟩ := update_none_iff.mp hu
    exact absurd (h.one_writer hu ho) htu
  reserved := by
    refine ⟨fun hw => by simp at hw, fun ⟨u, hu⟩ => ?_⟩
    obtain ⟨htu, hu⟩ := update_none_iff.mp hu
    exact absurd (h.one_writer hu ho) htu
  ready hw := by simp at hw

/-- **Committing keeps a location on track.** -/
theorem commit (h : Tracks s opened l) (ho : opened t = some k) :
    Tracks s (Function.update opened t none) (l.commit t k .granted) := by
  cases k with
  | read => rw [commit_granted_read h.undiverged]; exact h.commit_read ho
  | write => rw [commit_granted_write h.undiverged]; exact h.commit_write ho

end Tracks

/-! ## What is committed -/

/-- How many accesses of a thread and kind are committed. -/
def made (s : List Access) (l : Location) (a : Access) : Nat :=
  match a.kind with
  | .read => l.reads.get a.thread
  | .write => (through l.committed s).count a

@[simp] theorem made_read (s : List Access) (l : Location) (t : RuntimeId) :
    made s l ⟨t, .read⟩ = l.reads.get t := rfl

@[simp] theorem made_write (s : List Access) (l : Location) (t : RuntimeId) :
    made s l ⟨t, .write⟩ = (through l.committed s).count ⟨t, .write⟩ := rfl

theorem made_reserve (s : List Access) (l : Location) (t : RuntimeId) (k : AccessKind)
    (a : Access) : made s (l.reserve t k) a = made s l a := by
  unfold reserve
  split <;> rfl

theorem made_ofEvents (es : List RecordedAccess) (a : Access) :
    made (accessOrder es) (ofEvents es) a = 0 := by
  rcases a with ⟨t, _ | _⟩ <;> simp [ofEvents]

/-- **A commit makes one access**, of the thread and kind that it commits. -/
theorem Tracks.made_commit (h : Tracks s opened l) (ho : opened t = some k) (a : Access) :
    made s (l.commit t k .granted) a = made s l a + if (⟨t, k⟩ : Access) = a then 1 else 0 := by
  rcases a with ⟨u, _ | _⟩ <;> cases k
  · simp [commit_granted_read h.undiverged, ReadCounts.get_increment]
  · simp [commit_granted_write h.undiverged]
  · simp [commit_granted_read h.undiverged]
  · simp [commit_granted_write h.undiverged, count_through_succ_write (h.write_open t ho)]

/-- What is recorded before the last committed write is made. -/
theorem Tracks.count_through_le_made (h : Tracks s opened l) (a : Access) :
    (through l.committed s).count a ≤ made s l a := by
  rcases a with ⟨t, _ | _⟩
  · exact h.reads_ge t
  · exact Nat.le_refl _

theorem Tracks.length_writersOf_through (h : Tracks s opened l) :
    (writersOf (through l.committed s)).length = l.committed := by
  rw [writersOf_through, List.length_take, Nat.min_eq_left h.committed_le]

/-- **Only a thread without such an access left diverges.**  In particular no read is
found overwritten. -/
theorem Tracks.diverged_iff_exhausted (h : Tracks s opened l) :
    (∃ reason, l.verdict t k = .diverged reason) ↔ s.count ⟨t, k⟩ ≤ made s l ⟨t, k⟩ := by
  cases k with
  | read =>
    rw [h.read_diverged_iff]
    exact or_iff_left (Nat.not_lt_of_le (h.reads_ge t))
  | write =>
    have hsplit : s.count ⟨t, .write⟩ =
        (through l.committed s).count ⟨t, .write⟩ + ((writersOf s).drop l.committed).count t := by
      rw [← count_writersOf, ← count_writersOf, writersOf_through, ← List.count_append,
        List.take_append_drop]
    rw [h.write_diverged_iff, ← List.count_eq_zero, made_write, hsplit]
    omega

end Location
end AccessReplay
