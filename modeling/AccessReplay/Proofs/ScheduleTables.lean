import AccessReplay.Proofs.AccessOrder
import AccessReplay.Schedule
import Mathlib.Data.Nat.Find

/-!
# What the tables of a schedule say

A schedule is built by taking the recorded accesses one at a time.  Each of its
tables is read back here as a fact about the recorded order itself, by induction on
that order with the last access taken off.  From there the two judgements are
stated without tables: what is granted to a thread, what it has to wait for, and
what can never be matched.
-/
namespace AccessReplay.Schedule

variable (es : List RecordedAccess)

theorem ofEvents_concat (e : RecordedAccess) :
    ofEvents (es ++ [e]) = (ofEvents es).record e := by
  simp [ofEvents]

/-! ## The tables -/

theorem writers_ofEvents : (ofEvents es).writers.toList = writersOf (accessOrder es) := by
  induction es using List.reverseRecOn with
  | nil => rfl
  | append_singleton es e ih =>
    rw [ofEvents_concat]
    rcases e with ⟨u, _ | _, _⟩ <;> simp [record, ih]

theorem size_writers_ofEvents :
    (ofEvents es).writers.size = (writersOf (accessOrder es)).length := by
  rw [← writers_ofEvents, Array.length_toList]

theorem writeCount_ofEvents :
    (ofEvents es).writeCount = (writersOf (accessOrder es)).length := size_writers_ofEvents es

theorem nextWriter_ofEvents (c : Nat) :
    (ofEvents es).nextWriter? c = (writersOf (accessOrder es))[c]? := by
  rw [nextWriter?, ← writers_ofEvents, Array.getElem?_toList]

theorem get_reads_ofEvents (t : RuntimeId) :
    (ofEvents es).reads.get t = (accessOrder es).count ⟨t, .read⟩ := by
  induction es using List.reverseRecOn with
  | nil => simp [ofEvents]
  | append_singleton es e ih =>
    rw [ofEvents_concat]
    rcases e with ⟨u, _ | _, _⟩
    · simp [record, ReadCounts.get_increment, ih, List.count_singleton]
    · simp [record, ih]

theorem size_readsBefore_ofEvents :
    (ofEvents es).readsBefore.size = (writersOf (accessOrder es)).length := by
  induction es using List.reverseRecOn with
  | nil => rfl
  | append_singleton es e ih =>
    rw [ofEvents_concat]
    rcases e with ⟨u, _ | _, _⟩ <;> simp [record, ih]

/-- The reads before a write are those of the part through it. -/
theorem get_readsBefore_ofEvents {k : Nat} {needed : ReadCounts}
    (h : (ofEvents es).readsBefore[k]? = some needed) (t : RuntimeId) :
    needed.get t = (through (k + 1) (accessOrder es)).count ⟨t, .read⟩ := by
  induction es using List.reverseRecOn with
  | nil => simp [ofEvents] at h
  | append_singleton es e ih =>
    have hlen := size_readsBefore_ofEvents es
    rw [ofEvents_concat] at h
    rw [accessOrder_append, accessOrder_cons, accessOrder_nil, through_concat]
    rcases e with ⟨u, _ | _, _⟩
    · have hk : k < (ofEvents es).readsBefore.size := (Array.getElem?_eq_some_iff.mp h).1
      rw [if_neg (by omega)]
      exact ih h
    · simp only [record, Array.getElem?_push] at h
      split at h
      · next hk =>
        rw [if_pos (by omega), ← Option.some.inj h, get_reads_ofEvents]
        simp
      · next hk =>
        have hk : k < (ofEvents es).readsBefore.size := (Array.getElem?_eq_some_iff.mp h).1
        rw [if_neg (by omega)]
        exact ih h

/-- A thread's `j`-th read has `w` writes before it if it is among the thread's reads
through the next write, but not among those through write `w`. -/
theorem sources_ofEvents (t : RuntimeId) (j w : Nat) :
    (ofEvents es).sources[(⟨t, j⟩ : ReadOfThread)]? = some w ↔
      (through w (accessOrder es)).count ⟨t, .read⟩ ≤ j ∧
        j < (through (w + 1) (accessOrder es)).count ⟨t, .read⟩ := by
  induction es using List.reverseRecOn with
  | nil => simp [ofEvents]
  | append_singleton es e ih =>
    have hle : ∀ n, (through n (accessOrder es)).count ⟨t, .read⟩ ≤
        (accessOrder es).count ⟨t, .read⟩ := fun n => count_through_le n _ _
    have hall : ∀ n, (writersOf (accessOrder es)).length < n →
        (through n (accessOrder es)).count ⟨t, .read⟩ = (accessOrder es).count ⟨t, .read⟩ :=
      fun n hn => by rw [through_of_lt hn]
    rw [ofEvents_concat, accessOrder_append, accessOrder_cons, accessOrder_nil, through_concat,
      through_concat]
    -- a new read is its thread's next one, and all writes so far come before it
    rcases e with ⟨u, _ | _, _⟩
    · simp only [record, Std.ExtTreeMap.getElem?_insert, get_reads_ofEvents, size_writers_ofEvents]
      grind
    · grind [record]

theorem sources_eq_none_iff (t : RuntimeId) (j : Nat) :
    (ofEvents es).sources[(⟨t, j⟩ : ReadOfThread)]? = none ↔
      (accessOrder es).count ⟨t, .read⟩ ≤ j := by
  constructor
  · intro h
    by_contra hj
    -- the first write that has more than `j` reads of the thread behind it
    have hex : ∃ n, j < (through n (accessOrder es)).count ⟨t, .read⟩ :=
      ⟨(writersOf (accessOrder es)).length + 1, by rw [through_of_lt (by omega)]; omega⟩
    obtain ⟨n, hn⟩ : ∃ n, Nat.find hex = n + 1 :=
      Nat.exists_eq_succ_of_ne_zero fun h0 => by
        have := Nat.find_spec hex
        rw [h0] at this
        simp at this
    have hspec := Nat.find_spec hex
    have hmin := Nat.find_min hex (m := n) (by omega)
    rw [hn] at hspec
    rw [(sources_ofEvents es t j n).mpr ⟨by omega, hspec⟩] at h
    cases h
  · intro hj
    cases hw : (ofEvents es).sources[(⟨t, j⟩ : ReadOfThread)]? with
    | none => rfl
    | some w =>
      have hlt := ((sources_ofEvents es t j w).mp hw).2
      have hle := count_through_le (w + 1) (accessOrder es) ⟨t, .read⟩
      omega

theorem hasWriteFrom_ofEvents (t : RuntimeId) (c : Nat) :
    (ofEvents es).hasWriteFrom t c = true ↔ t ∈ (writersOf (accessOrder es)).drop c := by
  induction es using List.reverseRecOn with
  | nil => simp [ofEvents, hasWriteFrom]
  | append_singleton es e ih =>
    rw [ofEvents_concat, accessOrder_append, accessOrder_cons, accessOrder_nil]
    rcases e with ⟨u, _ | _, _⟩
    · simpa [record, hasWriteFrom] using ih
    · have hdrop : (writersOf (accessOrder es ++ [⟨u, .write⟩])).drop c =
          (writersOf (accessOrder es)).drop c ++
            [u].drop (c - (writersOf (accessOrder es)).length) := by
        simp [List.drop_append]
      rw [hdrop, List.mem_append, ← ih]
      by_cases hu : u = t
      · subst hu
        by_cases hc : c ≤ (writersOf (accessOrder es)).length
        · simp [record, hasWriteFrom, size_writers_ofEvents, hc, Nat.sub_eq_zero_of_le hc]
        · have hnone : ¬ (ofEvents es).hasWriteFrom u c = true := by
            rw [ih, List.drop_eq_nil_of_le (by omega)]
            exact List.not_mem_nil
          have hone : 1 ≤ c - (writersOf (accessOrder es)).length := by omega
          simp only [hnone, List.drop_eq_nil_of_le (show [u].length ≤ _ from hone),
            List.not_mem_nil]
          simpa [record, hasWriteFrom, size_writers_ofEvents] using hc
      · have hne : t ∉ [u].drop (c - (writersOf (accessOrder es)).length) := fun h =>
          hu (List.mem_singleton.mp (List.mem_of_mem_drop h)).symm
        simp [record, hasWriteFrom, Std.ExtTreeMap.getElem?_insert, hu, hne]

theorem readsDone_ofEvents {c : Nat} (h : c < (writersOf (accessOrder es)).length)
    (reads : ReadCounts) :
    (ofEvents es).readsDone c reads = true ↔
      ∀ t, (through (c + 1) (accessOrder es)).count ⟨t, .read⟩ ≤ reads.get t := by
  rw [← size_readsBefore_ofEvents] at h
  have hneeded := Array.getElem?_eq_getElem h
  simp only [readsDone, hneeded, ReadCounts.covers_iff, get_readsBefore_ofEvents es hneeded]

/-! ## The judgements -/

variable (t : RuntimeId) (c : Nat) (writeOpen : Bool) (reads : ReadCounts)

/-- **A read is granted** if the thread's next one belongs between the last committed
write and the next one. -/
theorem judgeRead_eq_grant_iff :
    (ofEvents es).judgeRead t c reads = .grant ↔
      (through c (accessOrder es)).count ⟨t, .read⟩ ≤ reads.get t ∧
        reads.get t < (through (c + 1) (accessOrder es)).count ⟨t, .read⟩ := by
  rw [← sources_ofEvents]
  grind [judgeRead]

/-- A read can never be matched if the thread has none left, or if its next one belongs
before a write that is committed. -/
theorem judgeRead_eq_diverged_iff :
    (∃ reason, (ofEvents es).judgeRead t c reads = .diverged reason) ↔
      (accessOrder es).count ⟨t, .read⟩ ≤ reads.get t ∨
        reads.get t < (through c (accessOrder es)).count ⟨t, .read⟩ := by
  cases hw : (ofEvents es).sources[(⟨t, reads.get t⟩ : ReadOfThread)]? with
  | none =>
    have hnone := (sources_eq_none_iff es t _).mp hw
    simp [judgeRead, hw, hnone]
  | some w =>
    have hbounds := (sources_ofEvents es t _ w).mp hw
    have hlast := count_through_le (w + 1) (accessOrder es) ⟨t, .read⟩
    have hlt : w < c ↔ reads.get t < (through c (accessOrder es)).count ⟨t, .read⟩ := by
      constructor
      · intro h
        exact Nat.lt_of_lt_of_le hbounds.2 (count_through_mono h _ _)
      · intro h
        exact lt_of_count_through_lt (Nat.lt_of_le_of_lt hbounds.1 h)
    have hleft : ¬ (accessOrder es).count ⟨t, .read⟩ ≤ reads.get t := by omega
    simp only [judgeRead, hw, ← hlt, hleft, false_or]
    split
    · exact iff_of_false (by simp) (by omega)
    · split
      · next hlt => exact iff_of_true ⟨_, rfl⟩ hlt
      · next hge => exact iff_of_false (by simp) hge

/-- **A write is granted** to the recorded writer of the next write, once no other is
open and all reads recorded before it are made. -/
theorem judgeWrite_eq_grant_iff :
    (ofEvents es).judgeWrite t c writeOpen reads = .grant ↔
      (writersOf (accessOrder es))[c]? = some t ∧ writeOpen = false ∧
        ∀ u, (through (c + 1) (accessOrder es)).count ⟨u, .read⟩ ≤ reads.get u := by
  by_cases ht : (writersOf (accessOrder es))[c]? = some t
  · obtain ⟨hc, hget⟩ := List.getElem?_eq_some_iff.mp ht
    have hleft : (ofEvents es).hasWriteFrom t c = true := by
      rw [hasWriteFrom_ofEvents, List.mem_drop_iff_getElem]
      exact ⟨0, by omega, hget⟩
    rw [← readsDone_ofEvents es hc]
    cases writeOpen <;> simp [judgeWrite, hleft, nextWriter_ofEvents, ht]
  · simp only [ht, false_and, iff_false]
    grind [judgeWrite, nextWriter_ofEvents]

/-- A write can never be matched if the thread has none left. -/
theorem judgeWrite_eq_diverged_iff :
    (∃ reason, (ofEvents es).judgeWrite t c writeOpen reads = .diverged reason) ↔
      t ∉ (writersOf (accessOrder es)).drop c := by
  rw [← hasWriteFrom_ofEvents, Bool.not_eq_true]
  cases hw : (ofEvents es).hasWriteFrom t c with
  | false => simp [judgeWrite, hw]
  | true =>
    simp only [judgeWrite, hw, Bool.not_true, Bool.false_eq_true, ↓reduceIte]
    split
    · simp
    · split <;> simp

end AccessReplay.Schedule
