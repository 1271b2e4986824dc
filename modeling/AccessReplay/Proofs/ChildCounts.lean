import AccessReplay.Proofs.AcceptedRecordings
import AccessReplay.Simulation.Plan
import Mathlib.Data.List.Induction
import Mathlib.Order.Bounds.Basic

/-!
# How many threads a place starts

The plan of a recording gathers, thread by thread, how many threads each place has to start.  Each
count is one more than the largest index recorded right below its place (`Exact`), which one more
recorded thread keeps (`Exact.reach`): the running maximum in machine words is the maximum of the
indices as numbers.

There is one index for which this fails.  A count of 32 bits cannot say that the last child index
there is has to be reached, and a recording may hold a thread there: nothing bounds the positions
of a dump.  The sum then overflows (`last_index_overflows`), and this is the only way for it to do
so (`child_counts_exact`).
-/
namespace AccessReplay.Plan

variable {threads : List ThreadId} {children : Std.ExtTreeMap Position UInt32} {r : Recording}
  {p : Plan} {q : Position} {index : UInt32} {t : ThreadId}

/-- The counts that are gathered from a list of threads. -/
def childCounts (threads : List ThreadId) : Std.ExtTreeMap Position UInt32 :=
  threads.foldl (fun children t => reach children t.position) ∅

/-- The indices of the threads that were recorded right below a place. -/
def indicesBelow (threads : List ThreadId) (q : Position) : Set Nat :=
  {i | ∃ t ∈ threads, ∃ index : UInt32, t.position = q ++ [index] ∧ index.toNat = i}

/-- A place with recorded children has one more than the largest of their indices for its count, and
the others have none. -/
structure Exact (threads : List ThreadId) (children : Std.ExtTreeMap Position UInt32) : Prop where
  uncounted : ∀ q, children[q]? = none → indicesBelow threads q = ∅
  counted : ∀ q count, children[q]? = some count →
    ∃ largest, IsGreatest (indicesBelow threads q) largest ∧ count.toNat = largest + 1

theorem outOfReach_iff {position : Position} :
    outOfReach position = true ↔ ∃ q, position = q ++ [0xFFFFFFFF] := by
  rw [outOfReach, beq_iff_eq, List.getLast?_eq_some_iff]

/-- The number of threads that reaches an index can be counted, unless it is the last one. -/
theorem toNat_succ (h : outOfReach (q ++ [index]) = false) :
    (index + 1).toNat = index.toNat + 1 := by
  have hne : index.toNat ≠ 4294967295 := by
    intro hlast
    obtain rfl : index = 0xFFFFFFFF := UInt32.toNat_inj.mp hlast
    rw [outOfReach_iff.mpr ⟨q, rfl⟩] at h
    cases h
  have hlt := index.toNat_lt
  rw [UInt32.toNat_add]
  simp only [UInt32.reduceToNat]
  omega

/-! ## One more thread -/

theorem indicesBelow_concat_self (ht : t.position = q ++ [index]) :
    indicesBelow (threads ++ [t]) q = insert index.toNat (indicesBelow threads q) := by
  ext i
  constructor
  · rintro ⟨u, hu, index', hposition, rfl⟩
    rcases List.mem_append.mp hu with hu | hu
    · exact .inr ⟨u, hu, index', hposition, rfl⟩
    · rw [List.mem_singleton.mp hu, ht] at hposition
      obtain ⟨-, hlast⟩ := List.append_inj' hposition rfl
      exact .inl (congrArg UInt32.toNat (List.cons.inj hlast).1.symm)
  · rintro (rfl | ⟨u, hu, index', hposition, rfl⟩)
    · exact ⟨t, by simp, index, ht, rfl⟩
    · exact ⟨u, List.mem_append_left _ hu, index', hposition, rfl⟩

theorem indicesBelow_concat_of_ne (ht : ∀ index, t.position ≠ q ++ [index]) :
    indicesBelow (threads ++ [t]) q = indicesBelow threads q := by
  ext i
  constructor
  · rintro ⟨u, hu, index', hposition, rfl⟩
    rcases List.mem_append.mp hu with hu | hu
    · exact ⟨u, hu, index', hposition, rfl⟩
    · rw [List.mem_singleton.mp hu] at hposition
      exact absurd hposition (ht index')
  · rintro ⟨u, hu, index', hposition, rfl⟩
    exact ⟨u, List.mem_append_left _ hu, index', hposition, rfl⟩

theorem getElem?_reach_self :
    (reach children (q ++ [index]))[q]? = some (max (children.getD q 0) (index + 1)) := by
  simp [reach]

/-- Reaching a thread leaves alone the counts of the places that it is not right below. -/
theorem getElem?_reach_of_ne {position : Position} (h : ∀ index, position ≠ q ++ [index]) :
    (reach children position)[q]? = children[q]? := by
  unfold reach
  split
  · rfl
  · next index hlast =>
    have hne : position.dropLast ≠ q := by
      rintro rfl
      exact h index (List.dropLast_append_getLast? index hlast).symm
    simp [Std.ExtTreeMap.getElem?_insert, hne]

/-- **One more thread keeps the counts exact**, unless its index is the last one there is. -/
theorem Exact.reach (h : Exact threads children) (ht : outOfReach t.position = false) :
    Exact (threads ++ [t]) (reach children t.position) := by
  -- only the place right above the thread has another index below it and another count
  constructor
  · intro q hq
    by_cases hplace : ∃ index, t.position = q ++ [index]
    · obtain ⟨index, hposition⟩ := hplace
      rw [hposition, getElem?_reach_self] at hq
      cases hq
    · have hplace := not_exists.mp hplace
      rw [getElem?_reach_of_ne hplace] at hq
      rw [indicesBelow_concat_of_ne hplace]
      exact h.uncounted q hq
  · intro q count hq
    by_cases hplace : ∃ index, t.position = q ++ [index]
    · obtain ⟨index, hposition⟩ := hplace
      rw [hposition, getElem?_reach_self, Option.some.injEq] at hq
      have hsucc : (index + 1).toNat = index.toNat + 1 := toNat_succ (hposition ▸ ht)
      rw [indicesBelow_concat_self hposition, ← hq, UInt32.toNat_max, hsucc,
        Std.ExtTreeMap.getD_eq_getD_getElem?]
      cases hold : children[q]? with
      | none =>
        refine ⟨index.toNat, ?_, ?_⟩
        · rw [h.uncounted q hold, insert_empty_eq]
          exact isGreatest_singleton
        · simp
      | some old =>
        obtain ⟨largest, hlargest, hvalue⟩ := h.counted q old hold
        refine ⟨max index.toNat largest, hlargest.insert index.toNat, ?_⟩
        rw [Option.getD_some, hvalue]
        omega
    · have hplace := not_exists.mp hplace
      rw [getElem?_reach_of_ne hplace] at hq
      rw [indicesBelow_concat_of_ne hplace]
      exact h.counted q count hq

/-- **The counts of a recording are exact.** -/
theorem exact_childCounts (h : ∀ t ∈ threads, outOfReach t.position = false) :
    Exact threads (childCounts threads) := by
  induction threads using List.reverseRecOn with
  | nil =>
    constructor
    · intro q _
      simp [indicesBelow]
    · intro q count hq
      simp [childCounts] at hq
  | append_singleton threads t ih =>
    have hrest := ih fun u hu => h u (List.mem_append_left _ hu)
    rw [childCounts, List.foldl_concat]
    exact hrest.reach (h t (by simp))

/-- A place has a count just if a thread was recorded right below it, and the count reaches that
thread. -/
theorem Exact.reaches (h : Exact threads children) (ht : t ∈ threads)
    (hposition : t.position = q ++ [index]) :
    ∃ count largest, children[q]? = some count ∧ IsGreatest (indicesBelow threads q) largest ∧
      count.toNat = largest + 1 ∧ index.toNat < count.toNat := by
  have hmem : index.toNat ∈ indicesBelow threads q := ⟨t, ht, index, hposition, rfl⟩
  cases hq : children[q]? with
  | none =>
    rw [h.uncounted q hq] at hmem
    cases hmem
  | some count =>
    obtain ⟨largest, hlargest, hvalue⟩ := h.counted q count hq
    have hle := hlargest.2 hmem
    exact ⟨count, largest, rfl, hlargest, hvalue, by omega⟩

/-! ## Plans -/

/-- A plan has the counts of its recording, all of whose places are in reach. -/
theorem children_of_ofRecording (hp : ofRecording r = .ok p) :
    p.children = childCounts r.threads ∧ ∀ t ∈ r.threads, outOfReach t.position = false := by
  unfold ofRecording at hp
  split at hp
  · cases hp
  · next hreach =>
    split at hp
    · cases hp
    · cases hp
      exact ⟨rfl, by simpa using hreach⟩

theorem ofRecording_eq_placeOutOfReach_iff : ofRecording r = .error .placeOutOfReach ↔
    ∃ t ∈ r.threads, outOfReach t.position = true := by
  rw [← List.any_eq_true]
  unfold ofRecording
  split
  · next hany => exact iff_of_true rfl hany
  · next hany =>
    refine iff_of_false ?_ hany
    split
    · exact nofun
    · exact nofun

/-- **Child counts are exact and reach every recorded thread**, unless a thread is recorded at the
last child index there is; and just then the sum that is to reach it overflows.  Otherwise the plan,
if there is one, has for each place with a recorded thread right below it one more than the largest
index recorded there, which is greater than the index of each such thread, and no count for the
other places. -/
theorem child_counts_exact (r : Recording) :
    (ofRecording r = .error .placeOutOfReach ↔
      ∃ t ∈ r.threads, ∃ q, t.position = q ++ [0xFFFFFFFF]) ∧
    (∀ p, ofRecording r = .ok p → p.children = childCounts r.threads) ∧
    ((∀ t ∈ r.threads, ∀ q, t.position ≠ q ++ [0xFFFFFFFF]) →
      (∀ t ∈ r.threads, ∀ q index, t.position = q ++ [index] → ∃ count largest,
        (childCounts r.threads)[q]? = some count ∧
        IsGreatest (indicesBelow r.threads q) largest ∧ count.toNat = largest + 1 ∧
        index.toNat < count.toNat) ∧
      ∀ q, (∀ t ∈ r.threads, ∀ index, t.position ≠ q ++ [index]) →
        (childCounts r.threads)[q]? = none) := by
  refine ⟨?_, fun p hp => (children_of_ofRecording hp).1, fun hinside => ?_⟩
  · rw [ofRecording_eq_placeOutOfReach_iff]
    simp only [outOfReach_iff]
  have hreach : ∀ t ∈ r.threads, outOfReach t.position = false := by
    intro t ht
    rw [← Bool.not_eq_true, outOfReach_iff]
    rintro ⟨q, hposition⟩
    exact hinside t ht q hposition
  have hexact := exact_childCounts hreach
  refine ⟨fun t ht q index hposition => hexact.reaches ht hposition, fun q hq => ?_⟩
  cases hcount : (childCounts r.threads)[q]? with
  | none => rfl
  | some count =>
    obtain ⟨largest, ⟨⟨t, ht, index, hposition, -⟩, -⟩, -⟩ := hexact.counted q count hcount
    exact absurd hposition (hq t ht index)

/-- A thread whose recorded children have gaps between them, up to the last index but one. -/
def scattered : Recording where
  root := .root 1
  others :=
    let first := (ThreadId.root 1).child 2 0
    [first, first.child 3 7, first.child 4 0xFFFFFFFE, (ThreadId.root 1).child 5 3]
  catalogue := ∅
  accesses := ∅

theorem scattered_counts_exact :
    (∀ t ∈ scattered.threads, ∀ q, t.position ≠ q ++ [0xFFFFFFFF]) ∧
    ∃ count, (childCounts scattered.threads)[([0] : Position)]? = some count ∧
      count = 0xFFFFFFFF := by
  have hinside : ∀ t ∈ scattered.threads, ∀ q, t.position ≠ q ++ [0xFFFFFFFF] := by
    intro t ht q hposition
    have hlast := outOfReach_iff.mpr ⟨q, hposition⟩
    have hall : ∀ t ∈ scattered.threads, outOfReach t.position = false := by decide
    rw [hall t ht] at hlast
    cases hlast
  obtain ⟨-, -, hcounts⟩ := child_counts_exact scattered
  obtain ⟨count, largest, hcount, -, -, hlt⟩ := (hcounts hinside).1
    (((ThreadId.root 1).child 2 0).child 4 0xFFFFFFFE) (by decide) [0] 0xFFFFFFFE rfl
  refine ⟨hinside, count, hcount, UInt32.toNat_inj.mp ?_⟩
  have hbound := count.toNat_lt
  simp only [UInt32.reduceToNat] at hlt ⊢
  omega

/-- A dump of a thread at the last child index, and of an object that is not simulated. -/
def lastIndexDump : Dump where
  threads := [⟨1, []⟩, ⟨2, [0xFFFFFFFF]⟩]
  locations := [⟨⟨1048576⟩, "Box", "value", []⟩]

/-- The recording of `lastIndexDump`. -/
def lastIndex : Recording where
  root := .root 1
  others := [(ThreadId.root 1).child 2 0xFFFFFFFF]
  catalogue := ∅
  accesses := (∅ : AccessLedger).insert ⟨⟨1048576⟩, "value"⟩ ⟨"Box", []⟩

/-- **The last child index is accepted, and the count that is to reach it overflows**, before it is
seen that an object is beyond the limit. -/
theorem last_index_overflows : Recording.ofDump lastIndexDump = .ok lastIndex ∧
    ofRecording lastIndex = .error .placeOutOfReach ∧
    ∃ key ∈ lastIndex.accesses, objectLimit ≤ key.object.number.toNat := by
  have hgrow : Recording.ofDump lastIndexDump = .ok lastIndex := by
    rw [Recording.ofDump, Recording.growTree_of_pairwise (by decide)]
    rfl
  have hoverflow : ofRecording lastIndex = .error .placeOutOfReach :=
    ofRecording_eq_placeOutOfReach_iff.mpr
      ⟨(ThreadId.root 1).child 2 0xFFFFFFFF, by decide, by decide⟩
  exact ⟨hgrow, hoverflow, ⟨⟨1048576⟩, "value"⟩, by decide, by decide⟩

end AccessReplay.Plan
