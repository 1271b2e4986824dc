import AccessReplay.Patience

/-!
# Budgets are spent exactly

A thread that must wait backs off until its budget is used up.  The pauses that it takes until then
are as many as its retries: first it only gives way, then it sleeps (`pauses_fresh`).  The time that
it sleeps is added up pause by pause here, and told in advance by a product
(`Budget.longestSleep?`); the two are equal, unless the sum is beyond all durations
(`budget_spent_exactly`).
-/
namespace AccessReplay

namespace Pause

/-- How long a pause sleeps. -/
def slept : Pause → Duration
  | .yield => ⟨0⟩
  | .sleep length => length

/-- The time slept in several pauses. -/
def sleptIn : List Pause → Duration
  | [] => ⟨0⟩
  | pause :: pauses => ⟨pause.slept.nanos + (sleptIn pauses).nanos⟩

theorem sleptIn_append (first rest : List Pause) :
    sleptIn (first ++ rest) = ⟨(sleptIn first).nanos + (sleptIn rest).nanos⟩ := by
  induction first with
  | nil => simp [sleptIn]
  | cons pause first ih => simp [sleptIn, ih, Nat.add_assoc]

theorem sleptIn_replicate (n : Nat) (pause : Pause) :
    sleptIn (List.replicate n pause) = ⟨pause.slept.nanos * n⟩ := by
  induction n with
  | zero => rfl
  | succ n ih => rw [List.replicate_succ, sleptIn, ih, Nat.mul_succ, Nat.add_comm]

end Pause

namespace Patience

variable {p rest : Patience} {b : Budget} {pause : Pause}

/-- An access has used up nothing when it begins to wait. -/
def fresh (b : Budget) : Patience := { budget := b }

/-- What is used up once a thread has backed off, or tried to, `n` times. -/
def after (p : Patience) : Nat → Patience
  | 0 => p
  | n + 1 => (p.after n).pause.2

/-- What a thread that has backed off, or tried to, `n` times is told when it does so again. -/
def answer (p : Patience) (n : Nat) : Option Pause := (p.after n).pause.1

/-- A pause uses up a retry. -/
theorem left_lt (h : p.pause = (some pause, rest)) :
    rest.budget.maxRetries - rest.retries < p.budget.maxRetries - p.retries := by
  rcases Nat.lt_or_ge p.retries p.budget.maxRetries with hleft | hspent
  · rw [pause_of_left hleft] at h
    cases h
    exact Nat.sub_succ_lt_self _ _ hleft
  · rw [pause_of_spent hspent] at h
    cases h

/-- The pauses of a thread that backs off until its budget is used up. -/
def pauses (p : Patience) : List Pause :=
  match _h : p.pause with
  | (none, _) => []
  | (some pause, rest) => pause :: rest.pauses
termination_by p.budget.maxRetries - p.retries
decreasing_by exact left_lt ‹_›

/-! ## Backing off again and again -/

/-- Each time uses up a retry, and none once all are used up. -/
theorem after_fresh (b : Budget) (n : Nat) : (fresh b).after n = ⟨b, min n b.maxRetries⟩ := by
  induction n with
  | zero => rw [Nat.zero_min]; rfl
  | succ n ih =>
    rw [after, ih]
    rcases Nat.lt_or_ge n b.maxRetries with hleft | hspent
    · rw [Nat.min_eq_left (Nat.le_of_lt hleft), pause_of_left hleft, Nat.min_eq_left hleft]
    · rw [Nat.min_eq_right hspent, pause_of_spent (Nat.le_refl _),
        Nat.min_eq_right (Nat.le_succ_of_le hspent)]

theorem answer_fresh (b : Budget) (n : Nat) :
    (fresh b).answer n = if n < b.maxRetries then some (b.pauseAfter n) else none := by
  rw [answer, after_fresh]
  split
  · next hleft => rw [Nat.min_eq_left (Nat.le_of_lt hleft), pause_of_left hleft]
  · next hspent =>
    rw [Nat.min_eq_right (Nat.not_lt.mp hspent), pause_of_spent (Nat.le_refl _)]

/-! ## Backing off to the end -/

theorem pauses_of_spent (h : p.budget.maxRetries ≤ p.retries) : p.pauses = [] := by
  rw [pauses]
  split
  · rfl
  · next hpause => simp [pause_of_spent h] at hpause

theorem pauses_of_left (h : p.retries < p.budget.maxRetries) : p.pauses =
    p.budget.pauseAfter p.retries :: pauses { p with retries := p.retries + 1 } := by
  rw [pauses]
  split
  · next hpause => simp [pause_of_left h] at hpause
  · next hpause =>
    rw [pause_of_left h] at hpause
    cases hpause
    rfl

/-- The pauses that are left are those after the retries made so far. -/
theorem pauses_eq (b : Budget) (retries : Nat) : pauses ⟨b, retries⟩ =
    (List.range' retries (b.maxRetries - retries)).map b.pauseAfter := by
  -- the induction is on the number of retries left
  induction hleft : b.maxRetries - retries generalizing retries with
  | zero => exact pauses_of_spent (Nat.sub_eq_zero_iff_le.mp hleft)
  | succ left ih =>
    have hlt : retries < b.maxRetries := by omega
    rw [pauses_of_left hlt, ih (retries + 1) (by omega), List.range'_succ, List.map_cons]

/-- Pauses that are alike are told by their number. -/
theorem map_pauseAfter {start count : Nat}
    (h : ∀ n, start ≤ n → n < start + count → b.pauseAfter n = pause) :
    (List.range' start count).map b.pauseAfter = List.replicate count pause := by
  refine List.eq_replicate_iff.mpr ⟨by simp, fun other hother => ?_⟩
  obtain ⟨n, hn, rfl⟩ := List.mem_map.mp hother
  rw [List.mem_range'_1] at hn
  exact h n hn.1 hn.2

/-- **A thread gives way first and sleeps then**, as often as its budget says. -/
theorem pauses_fresh (b : Budget) : (fresh b).pauses =
    List.replicate (min b.maxRetries b.yieldLimit) .yield ++
      List.replicate (b.maxRetries - b.yieldLimit) (.sleep b.sleep) := by
  have hyields : (List.range' 0 (min b.maxRetries b.yieldLimit)).map b.pauseAfter =
      List.replicate (min b.maxRetries b.yieldLimit) .yield :=
    map_pauseAfter fun n _ hn => if_pos (by omega)
  have hsleeps : (List.range' (min b.maxRetries b.yieldLimit)
      (b.maxRetries - b.yieldLimit)).map b.pauseAfter =
      List.replicate (b.maxRetries - b.yieldLimit) (.sleep b.sleep) :=
    map_pauseAfter fun n hn hlt => if_neg (by omega)
  have hretries : b.maxRetries =
      min b.maxRetries b.yieldLimit + (b.maxRetries - b.yieldLimit) := by omega
  calc (fresh b).pauses
    _ = (List.range' 0 b.maxRetries).map b.pauseAfter := pauses_eq b 0
    _ = (List.range' 0 (min b.maxRetries b.yieldLimit)).map b.pauseAfter ++
        (List.range' (min b.maxRetries b.yieldLimit) (b.maxRetries - b.yieldLimit)).map
          b.pauseAfter := by
      rw [hretries, ← List.range'_append_1, Nat.zero_add, List.map_append, ← hretries]
    _ = _ := by rw [hyields, hsleeps]

/-- The sum over the pauses is a product. -/
theorem sleptIn_fresh (b : Budget) : Pause.sleptIn (fresh b).pauses =
    ⟨b.sleep.nanos * (b.maxRetries - b.yieldLimit)⟩ := by
  simp [pauses_fresh, Pause.sleptIn_append, Pause.sleptIn_replicate, Pause.slept]

/-- **A budget is spent exactly**, whatever it allows.  A thread that backs off again and again

* is told to pause as many times as it has retries, and not to ever after: to give way as often as
  its budget allows that, and to sleep all other times;
* has made as many retries as it was told to pause, and makes no more once the budget is used up;
* pauses as often as it has retries before it is told not to, and sleeps as long in all as was told
  in advance, which is told unless it is beyond all durations. -/
theorem budget_spent_exactly (b : Budget) :
    (∀ n, (fresh b).answer n = if n < b.maxRetries then
      some (if n < min b.maxRetries b.yieldLimit then .yield else .sleep b.sleep) else none) ∧
    (∀ n, ((fresh b).after n).retries = min n b.maxRetries) ∧
    (fresh b).pauses = List.replicate (min b.maxRetries b.yieldLimit) .yield ++
      List.replicate (b.maxRetries - b.yieldLimit) (.sleep b.sleep) ∧
    (fresh b).pauses.length = b.maxRetries ∧
    ∀ d, b.longestSleep? = some d ↔ d = Pause.sleptIn (fresh b).pauses ∧
      d.nanos < Text.bound64 * Duration.perSecond := by
  refine ⟨fun n => ?_, fun n => ?_, pauses_fresh b, ?_, fun d => ?_⟩
  · rw [answer_fresh]
    split
    · next hleft =>
      have hyield : n < min b.maxRetries b.yieldLimit ↔ n < b.yieldLimit := by omega
      simp only [Budget.pauseAfter, hyield]
    · rfl
  · rw [after_fresh]
  · rw [pauses_fresh, List.length_append, List.length_replicate, List.length_replicate]
    omega
  · rw [Budget.longestSleep?, Duration.times?_eq_some_iff, sleptIn_fresh]

end Patience
end AccessReplay
