import AccessReplay.Thread.Id
import Std.Data.ExtTreeMap

/-!
# Read counts

How many reads each thread has made of one location.  Threads without a read are
not kept, so `get` is total and counts only grow.
-/

namespace AccessReplay

/-- The number of reads of each thread. -/
abbrev ReadCounts := Std.ExtTreeMap RuntimeId Nat

namespace ReadCounts

/-- A thread's number of reads. -/
def get (c : ReadCounts) (thread : RuntimeId) : Nat := c.getD thread 0

/-- One more read by a thread. -/
def increment (c : ReadCounts) (thread : RuntimeId) : ReadCounts :=
  c.insert thread (c.get thread + 1)

/-- Has every thread made at least the reads needed? -/
def covers (c needed : ReadCounts) : Bool :=
  needed.toList.all fun entry => entry.2 ≤ c.get entry.1

@[simp] theorem get_empty (t : RuntimeId) : get ∅ t = 0 := by simp [get]

theorem get_increment (c : ReadCounts) (t u : RuntimeId) :
    (c.increment t).get u = c.get u + if t = u then 1 else 0 := by
  by_cases h : t = u
  · subst h
    simp [get, increment]
  · simp [get, increment, Std.ExtTreeMap.getD_insert, h]

@[simp] theorem get_increment_self (c : ReadCounts) (t : RuntimeId) :
    (c.increment t).get t = c.get t + 1 := by
  simp [get_increment]

theorem get_increment_of_ne {t u : RuntimeId} (h : t ≠ u) (c : ReadCounts) :
    (c.increment t).get u = c.get u := by
  simp [get_increment, h]

theorem get_le_get_increment (c : ReadCounts) (t u : RuntimeId) :
    c.get u ≤ (c.increment t).get u := by
  rw [get_increment]
  exact Nat.le_add_right ..

theorem getElem?_increment (counts : ReadCounts) (t u : RuntimeId) :
    (counts.increment t)[u]? = if t = u then some (counts.get t + 1) else counts[u]? := by
  simp [increment, Std.ExtTreeMap.getElem?_insert]

/-- Reads of different threads are counted in either order. -/
theorem increment_comm {t u : RuntimeId} (h : t ≠ u) (c : ReadCounts) :
    (c.increment t).increment u = (c.increment u).increment t := by
  apply Std.ExtTreeMap.ext_getElem?
  intro v
  simp only [getElem?_increment, get_increment_of_ne h, get_increment_of_ne h.symm]
  by_cases ht : t = v
  · subst ht
    simp [h.symm]
  · simp [ht]

/-- Covering what is needed is having at least the needed reads of every thread. -/
theorem covers_iff (c needed : ReadCounts) :
    c.covers needed = true ↔ ∀ t, needed.get t ≤ c.get t := by
  simp only [covers, List.all_eq_true, decide_eq_true_eq, Prod.forall,
    Std.ExtTreeMap.mem_toList_iff_getElem?_eq_some]
  constructor
  · intro h t
    cases ht : needed[t]? with
    | none => simp [get, Std.ExtTreeMap.getD_eq_getD_getElem?, ht]
    | some n => simpa [get, Std.ExtTreeMap.getD_eq_getD_getElem?, ht] using h t n ht
  · intro h t n ht
    simpa [get, Std.ExtTreeMap.getD_eq_getD_getElem?, ht] using h t

end ReadCounts
end AccessReplay
