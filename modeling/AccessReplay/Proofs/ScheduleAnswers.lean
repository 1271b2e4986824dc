import AccessReplay.Proofs.ScheduleTables

/-!
# What a schedule answers

A schedule answers from its tables.  Here its answers are read off the list of recorded accesses
itself, for any thread, any number of committed writes and any read counts, whether or not a
replay can come to them (`answers_as_recorded`).

A recorded access is told by what was recorded before it (`RecordedAfter`).  The write that is
next after `c` writes has `c` writes before it, and the read that is a thread's next after `j`
reads has `j` reads of the thread before it.
-/
namespace AccessReplay

/-- How many writes are listed. -/
def writesIn (es : List RecordedAccess) : Nat := es.countP (·.kind = .write)

/-- How many reads of a thread are listed. -/
def readsIn (t : RuntimeId) (es : List RecordedAccess) : Nat :=
  es.countP fun e => e.thread = t ∧ e.kind = .read

/-- The access was recorded when just `before` had been. -/
def RecordedAfter (es before : List RecordedAccess) (a : Access) : Prop :=
  ∃ e after, es = before ++ e :: after ∧ e.access = a

/-- The thread has no recorded write with index `c` or a later one. -/
def NoWriteFrom (es : List RecordedAccess) (t : RuntimeId) (c : Nat) : Prop :=
  ∀ before, RecordedAfter es before ⟨t, .write⟩ → writesIn before < c

/-- The write with index `c` is the thread's, and all reads recorded before it are made. -/
def WriteDue (es : List RecordedAccess) (t : RuntimeId) (c : Nat) (reads : ReadCounts) : Prop :=
  ∃ before, RecordedAfter es before ⟨t, .write⟩ ∧ writesIn before = c ∧
    ∀ u, readsIn u before ≤ reads.get u

variable {es before : List RecordedAccess} {a : Access} {t u : RuntimeId} {c : Nat}
  {reads : ReadCounts}

theorem writesIn_eq (es : List RecordedAccess) :
    writesIn es = (writersOf (accessOrder es)).length := by
  rw [writesIn, writersOf, List.length_map, accessOrder, ← List.countP_eq_length_filter,
    List.countP_map]
  rfl

theorem readsIn_eq (t : RuntimeId) (es : List RecordedAccess) :
    readsIn t es = (accessOrder es).count ⟨t, .read⟩ := by
  rw [readsIn, accessOrder, List.count, List.countP_map]
  refine List.countP_congr fun e _ => ?_
  simp [RecordedAccess.access]

/-! ## Places in the recorded order -/

theorem RecordedAfter.cons (h : RecordedAfter es before a) (e : RecordedAccess) :
    RecordedAfter (e :: es) (e :: before) a := by
  obtain ⟨e', after, rfl, ha⟩ := h
  exact ⟨e', after, rfl, ha⟩

/-- The order of accesses around a recorded one. -/
theorem RecordedAfter.accessOrder_eq (h : RecordedAfter es before a) :
    ∃ after, accessOrder es = accessOrder before ++ a :: after := by
  obtain ⟨e, after, rfl, rfl⟩ := h
  exact ⟨accessOrder after, by simp [RecordedAccess.access]⟩

/-- The writer with an index has as many writes before its write. -/
theorem getElem?_writersOf_iff : (writersOf (accessOrder es))[c]? = some t ↔
    ∃ before, RecordedAfter es before ⟨t, .write⟩ ∧ writesIn before = c := by
  constructor
  · intro h
    induction es generalizing c with
    | nil => simp at h
    | cons e es ih =>
      rcases e with ⟨u, _ | _, seq⟩
      · obtain ⟨before, hb, hc⟩ := ih (by simpa using h)
        exact ⟨_, hb.cons _, by simpa [writesIn] using hc⟩
      · cases c with
        | zero =>
          obtain rfl : u = t := by simpa using h
          exact ⟨[], ⟨_, es, rfl, rfl⟩, rfl⟩
        | succ c =>
          obtain ⟨before, hb, hc⟩ := ih (by simpa using h)
          exact ⟨_, hb.cons _, by simpa [writesIn] using hc⟩
  · rintro ⟨before, hb, rfl⟩
    obtain ⟨after, hes⟩ := hb.accessOrder_eq
    rw [hes, writesIn_eq]
    simp

/-- The reads before a write are those of the part through it. -/
theorem RecordedAfter.readsIn_eq_count_through (h : RecordedAfter es before ⟨t, .write⟩)
    (u : RuntimeId) : readsIn u before =
      (through (writesIn before + 1) (accessOrder es)).count ⟨u, .read⟩ := by
  obtain ⟨after, hes⟩ := h.accessOrder_eq
  rw [hes, writesIn_eq, through_append_next, readsIn_eq]
  simp

/-- A thread that has not made all its reads has a next one. -/
theorem exists_next_read {j : Nat} (h : j < readsIn t es) :
    ∃ before, RecordedAfter es before ⟨t, .read⟩ ∧ readsIn t before = j := by
  rw [readsIn_eq] at h
  obtain ⟨before, e, after, hes, he, hj⟩ := exists_place_of_lt_count h
  exact ⟨before, ⟨e, after, hes, he⟩, (readsIn_eq t before).trans hj⟩

theorem noWriteFrom_iff : NoWriteFrom es t c ↔ t ∉ (writersOf (accessOrder es)).drop c := by
  simp only [NoWriteFrom, List.mem_iff_getElem?, List.getElem?_drop, getElem?_writersOf_iff]
  constructor
  · rintro h ⟨i, before, hb, hi⟩
    have := h before hb
    omega
  · intro h before hb
    by_contra hc
    exact h ⟨writesIn before - c, before, hb, by omega⟩

theorem writeDue_iff : WriteDue es t c reads ↔ (writersOf (accessOrder es))[c]? = some t ∧
    ∀ u, (through (c + 1) (accessOrder es)).count ⟨u, .read⟩ ≤ reads.get u := by
  rw [getElem?_writersOf_iff]
  constructor
  · rintro ⟨before, hb, rfl, hreads⟩
    exact ⟨⟨before, hb, rfl⟩, fun u => hb.readsIn_eq_count_through u ▸ hreads u⟩
  · rintro ⟨⟨before, hb, rfl⟩, hreads⟩
    exact ⟨before, hb, rfl, fun u => hb.readsIn_eq_count_through u ▸ hreads u⟩

namespace Schedule

/-- A read's source is the number of writes recorded before it. -/
theorem sources_of_recordedAfter (h : RecordedAfter es before ⟨t, .read⟩) :
    (ofEvents es).sources[(⟨t, readsIn t before⟩ : ReadOfThread)]? = some (writesIn before) := by
  obtain ⟨after, hes⟩ := h.accessOrder_eq
  rw [sources_ofEvents, hes, writesIn_eq, readsIn_eq, through_append_of_le (Nat.le_refl _),
    through_append_next]
  exact ⟨count_through_le .., by simp⟩

/-- The write that is judged after a thread was found to have one left is in the tables. -/
theorem index_lt_of_hasWriteFrom (h : (ofEvents es).hasWriteFrom t c = true) :
    c < (ofEvents es).writers.size ∧ c < (ofEvents es).readsBefore.size := by
  rw [size_writers_ofEvents, size_readsBefore_ofEvents, and_self]
  rw [hasWriteFrom_ofEvents] at h
  by_contra hc
  rw [List.drop_eq_nil_of_le (Nat.le_of_not_lt hc)] at h
  exact List.not_mem_nil h

/-- A write is found impossible for one reason only. -/
theorem judgeWrite_cases (s : Schedule) (t : RuntimeId) (c : Nat) (writeOpen : Bool)
    (reads : ReadCounts) : s.judgeWrite t c writeOpen reads = .diverged (.noRecordedWrite c) ∨
      s.judgeWrite t c writeOpen reads = .grant ∨ s.judgeWrite t c writeOpen reads = .wait := by
  unfold judgeWrite
  split
  · exact .inl rfl
  · split
    · exact .inr (.inr rfl)
    · split
      · exact .inr (.inl rfl)
      · exact .inr (.inr rfl)

/-- **A schedule answers as the recorded accesses say.**  A write can never be matched if its
thread has none left, it is granted if it is the next one, no write is open and all reads before
it are made, and otherwise it has to wait; the tables that are asked for the next write have it.
A read can never be matched if its thread has none left, and otherwise it has to come after just
the writes that were recorded before it. -/
theorem answers_as_recorded (es : List RecordedAccess) (t : RuntimeId) (c : Nat) (writeOpen : Bool)
    (reads : ReadCounts) :
    ((ofEvents es).judgeWrite t c writeOpen reads = .diverged (.noRecordedWrite c) ↔
      NoWriteFrom es t c) ∧
    ((ofEvents es).judgeWrite t c writeOpen reads = .grant ↔
      WriteDue es t c reads ∧ writeOpen = false) ∧
    ((ofEvents es).judgeWrite t c writeOpen reads = .wait ↔
      ¬NoWriteFrom es t c ∧ ¬(WriteDue es t c reads ∧ writeOpen = false)) ∧
    ((ofEvents es).hasWriteFrom t c = true →
      c < (ofEvents es).writers.size ∧ c < (ofEvents es).readsBefore.size) ∧
    ((ofEvents es).judgeRead t c reads = .diverged (.noRecordedRead (reads.get t)) ↔
      readsIn t es ≤ reads.get t) ∧
    (reads.get t < readsIn t es →
      ∃ before, RecordedAfter es before ⟨t, .read⟩ ∧ readsIn t before = reads.get t ∧
        (ofEvents es).judgeRead t c reads =
          if c < writesIn before then .wait
          else if c = writesIn before then .grant
          else .diverged (.staleRead (writesIn before) c)) := by
  have hdiverged : (ofEvents es).judgeWrite t c writeOpen reads = .diverged (.noRecordedWrite c) ↔
      NoWriteFrom es t c := by
    rw [noWriteFrom_iff, ← judgeWrite_eq_diverged_iff es t c writeOpen reads]
    refine ⟨fun h => ⟨_, h⟩, fun ⟨reason, h⟩ => ?_⟩
    simpa [h] using judgeWrite_cases (ofEvents es) t c writeOpen reads
  have hgrant : (ofEvents es).judgeWrite t c writeOpen reads = .grant ↔
      WriteDue es t c reads ∧ writeOpen = false := by
    rw [judgeWrite_eq_grant_iff, writeDue_iff, and_assoc, and_comm (b := writeOpen = false)]
  refine ⟨hdiverged, hgrant, ?_, index_lt_of_hasWriteFrom, ?_, ?_⟩
  · rw [← hdiverged, ← hgrant]
    have hcases := judgeWrite_cases (ofEvents es) t c writeOpen reads
    grind
  · rw [readsIn_eq, ← sources_eq_none_iff]
    grind [judgeRead]
  · intro hleft
    obtain ⟨before, hb, hj⟩ := exists_next_read hleft
    have hsource := sources_of_recordedAfter hb
    rw [hj] at hsource
    exact ⟨before, hb, hj, by grind [judgeRead]⟩

end Schedule
end AccessReplay
