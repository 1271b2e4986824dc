import AccessReplay.Access
import Mathlib.Data.List.Induction

/-!
# Orders of accesses

A replay is judged by who accessed a location and how, in which order.  This
module measures such orders.  `s.count ⟨t, .read⟩` is the number of reads that `t`
makes in `s`; `writersOf s` lists who writes, in order; and `through n s` is the part
of `s` through its `n`-th write.

What the oracle compares are the read counts of these prefixes: the reads that a
location's first `n` writes have behind them are those of `through n s`, and the
reads between the `n`-th write and the next one are those by which
`through (n + 1) s` exceeds `through n s`.
-/
namespace AccessReplay

/-- Who accesses a location, and how. -/
structure Access where
  thread : RuntimeId
  kind : AccessKind
deriving DecidableEq, Repr, Inhabited

/-- A recorded access without its place in the whole recording. -/
def RecordedAccess.access (e : RecordedAccess) : Access := ⟨e.thread, e.kind⟩

/-- What was accessed by whom at a location, in the recorded order. -/
def accessOrder (es : List RecordedAccess) : List Access := es.map RecordedAccess.access

@[simp] theorem accessOrder_nil : accessOrder [] = [] := rfl

@[simp] theorem accessOrder_append (es es' : List RecordedAccess) :
    accessOrder (es ++ es') = accessOrder es ++ accessOrder es' := List.map_append

@[simp] theorem accessOrder_cons (e : RecordedAccess) (es : List RecordedAccess) :
    accessOrder (e :: es) = ⟨e.thread, e.kind⟩ :: accessOrder es := rfl

/-! ## Writers -/

/-- The threads of the writes, in order. -/
def writersOf (s : List Access) : List RuntimeId :=
  (s.filter (·.kind = .write)).map Access.thread

@[simp] theorem writersOf_nil : writersOf [] = [] := rfl

@[simp] theorem writersOf_append (s r : List Access) :
    writersOf (s ++ r) = writersOf s ++ writersOf r := by
  simp [writersOf]

@[simp] theorem writersOf_cons_read (t : RuntimeId) (s : List Access) :
    writersOf (⟨t, .read⟩ :: s) = writersOf s := by
  simp [writersOf]

@[simp] theorem writersOf_cons_write (t : RuntimeId) (s : List Access) :
    writersOf (⟨t, .write⟩ :: s) = t :: writersOf s := by
  simp [writersOf]

theorem count_writersOf (t : RuntimeId) (s : List Access) :
    (writersOf s).count t = s.count ⟨t, .write⟩ := by
  induction s with
  | nil => rfl
  | cons a s ih =>
    rcases a with ⟨u, _ | _⟩
    · simpa using ih
    · simp [List.count_cons, ih]

/-- Orders with the same writes of every thread have the same number of writes. -/
theorem length_writersOf_eq {s r : List Access}
    (h : ∀ t, s.count ⟨t, .write⟩ = r.count ⟨t, .write⟩) :
    (writersOf s).length = (writersOf r).length :=
  (List.perm_iff_count.mpr fun t => by rw [count_writersOf, count_writersOf, h t]).length_eq

/-- Before the last write stands what the other writes stand in. -/
theorem exists_last_write {es : List RecordedAccess} {ws : List RuntimeId} {t : RuntimeId}
    (h : writersOf (accessOrder es) = ws ++ [t]) :
    ∃ before w between, es = before ++ w :: between ∧ w.access = ⟨t, .write⟩ ∧
      (∀ e ∈ between, e.kind = .read) ∧ writersOf (accessOrder before) = ws := by
  induction es using List.reverseRecOn with
  | nil => simp at h
  | append_singleton es e ih =>
    rcases e with ⟨u, _ | _, seq⟩
    · -- a read at the end comes after the last write, which is found before it
      obtain ⟨before, w, between, rfl, hw, hreads, hws⟩ := ih (by simpa using h)
      refine ⟨before, w, between ++ [⟨u, .read, seq⟩], by simp, hw, ?_, hws⟩
      intro e he
      rcases List.mem_append.mp he with he | he
      · exact hreads e he
      · rw [List.mem_singleton.mp he]
    · have hws : writersOf (accessOrder es) = ws ∧ u = t := by simpa using h
      exact ⟨es, ⟨u, .write, seq⟩, [], rfl, by simp [RecordedAccess.access, hws.2], by simp, hws.1⟩

/-- Every access that an order counts has a place in it. -/
theorem exists_place_of_lt_count {es : List RecordedAccess} {a : Access} {j : Nat}
    (h : j < (accessOrder es).count a) :
    ∃ before e after, es = before ++ e :: after ∧ e.access = a ∧
      (accessOrder before).count a = j := by
  induction es generalizing j with
  | nil => simp at h
  | cons e es ih =>
    by_cases he : e.access = a
    · cases j with
      | zero => exact ⟨[], e, es, rfl, he, rfl⟩
      | succ j =>
        have hcons : accessOrder (e :: es) = a :: accessOrder es := by rw [← he]; rfl
        rw [hcons, List.count_cons_self] at h
        obtain ⟨before, e', after, rfl, he', hc⟩ := ih (Nat.lt_of_succ_lt_succ h)
        refine ⟨e :: before, e', after, rfl, he', ?_⟩
        rw [show accessOrder (e :: before) = a :: accessOrder before by rw [← he]; rfl,
          List.count_cons_self, hc]
    · have hcons : ∀ q, (accessOrder (e :: q)).count a = (accessOrder q).count a := fun q =>
        List.count_cons_of_ne he
      rw [hcons] at h
      obtain ⟨before, e', after, rfl, he', hc⟩ := ih h
      exact ⟨e :: before, e', after, rfl, he', by rw [hcons, hc]⟩

/-! ## The part through a write -/

/-- The accesses through the `n`-th write, counted from one: all of them if there are
fewer writes, and none for `n = 0`. -/
def through : Nat → List Access → List Access
  | 0, _ => []
  | _ + 1, [] => []
  | n + 1, ⟨t, .read⟩ :: s => ⟨t, .read⟩ :: through (n + 1) s
  | n + 1, ⟨t, .write⟩ :: s => ⟨t, .write⟩ :: through n s

@[simp] theorem through_zero (s : List Access) : through 0 s = [] := by cases s <;> rfl

@[simp] theorem through_nil (n : Nat) : through n [] = [] := by cases n <;> rfl

@[simp] theorem through_cons_read (n : Nat) (t : RuntimeId) (s : List Access) :
    through (n + 1) (⟨t, .read⟩ :: s) = ⟨t, .read⟩ :: through (n + 1) s := rfl

@[simp] theorem through_cons_write (n : Nat) (t : RuntimeId) (s : List Access) :
    through (n + 1) (⟨t, .write⟩ :: s) = ⟨t, .write⟩ :: through n s := rfl

theorem through_prefix_self (n : Nat) (s : List Access) : through n s <+: s := by
  fun_induction through n s with
  | case1 => exact List.nil_prefix
  | case2 => exact List.nil_prefix
  | case3 n t s ih => exact (List.prefix_cons_inj _).mpr ih
  | case4 n t s ih => exact (List.prefix_cons_inj _).mpr ih

theorem through_mono {m n : Nat} (h : m ≤ n) (s : List Access) : through m s <+: through n s := by
  fun_induction through m s generalizing n with
  | case1 => exact List.nil_prefix
  | case2 => exact List.nil_prefix
  | case3 m t s ih =>
    obtain ⟨n, rfl⟩ : ∃ k, n = k + 1 := ⟨n - 1, by omega⟩
    exact (List.prefix_cons_inj _).mpr (ih h)
  | case4 m t s ih =>
    obtain ⟨n, rfl⟩ : ∃ k, n = k + 1 := ⟨n - 1, by omega⟩
    exact (List.prefix_cons_inj _).mpr (ih (by omega))

/-- Past the last write, the part through a write is everything. -/
theorem through_of_lt {n : Nat} {s : List Access} (h : (writersOf s).length < n) :
    through n s = s := by
  fun_induction through n s with
  | case1 => simp at h
  | case2 => rfl
  | case3 n t s ih => rw [ih (by simpa using h)]
  | case4 n t s ih => rw [ih (by simpa using h)]

theorem through_append_of_le {n : Nat} {s : List Access} (h : n ≤ (writersOf s).length)
    (r : List Access) : through n (s ++ r) = through n s := by
  fun_induction through n s with
  | case1 => exact through_zero _
  | case2 => simp at h
  | case3 n t s ih => simp only [List.cons_append, through_cons_read, ih (by simpa using h)]
  | case4 n t s ih => simp only [List.cons_append, through_cons_write, ih (by simpa using h)]

theorem through_append_of_lt {n : Nat} {s : List Access} (h : (writersOf s).length < n)
    (r : List Access) : through n (s ++ r) = s ++ through (n - (writersOf s).length) r := by
  fun_induction through n s with
  | case1 => simp at h
  | case2 => simp
  | case3 n t s ih =>
    simp only [List.cons_append, through_cons_read, writersOf_cons_read, ih (by simpa using h)]
  | case4 n t s ih =>
    have hn : n + 1 - ((writersOf s).length + 1) = n - (writersOf s).length := by omega
    simp only [List.cons_append, through_cons_write, writersOf_cons_write, List.length_cons,
      ih (by simpa using h), hn]

/-- The part through the write after `s`. -/
theorem through_append_next (s r : List Access) :
    through ((writersOf s).length + 1) (s ++ r) = s ++ through 1 r := by
  rw [through_append_of_lt (Nat.lt_add_one _), Nat.add_sub_cancel_left]

theorem through_concat (n : Nat) (s : List Access) (a : Access) :
    through n (s ++ [a]) = if (writersOf s).length < n then s ++ [a] else through n s := by
  split
  · next h =>
    obtain ⟨k, hk⟩ : ∃ k, n - (writersOf s).length = k + 1 :=
      ⟨n - (writersOf s).length - 1, by omega⟩
    rw [through_append_of_lt h, hk]
    rcases a with ⟨t, _ | _⟩ <;> simp
  · next h => exact through_append_of_le (Nat.le_of_not_lt h) _

theorem writersOf_through (n : Nat) (s : List Access) :
    writersOf (through n s) = (writersOf s).take n := by
  fun_induction through n s with
  | case1 => rfl
  | case2 => rfl
  | case3 n t s ih => simpa using ih
  | case4 n t s ih => simpa using ih

theorem count_through_le (n : Nat) (s : List Access) (a : Access) :
    (through n s).count a ≤ s.count a :=
  (through_prefix_self n s).sublist.count_le a

theorem count_through_mono {m n : Nat} (h : m ≤ n) (s : List Access) (a : Access) :
    (through m s).count a ≤ (through n s).count a :=
  (through_mono h s).sublist.count_le a

/-- If more of an access is counted through write `m` than through write `n`, then `m`
comes later. -/
theorem lt_of_count_through_lt {m n : Nat} {s : List Access} {a : Access}
    (h : (through n s).count a < (through m s).count a) : n < m :=
  Nat.lt_of_not_le fun hmn => Nat.not_lt_of_le (count_through_mono hmn s a) h

/-- The writes of a thread through the next write are those so far, and the next one
if it is the thread's. -/
theorem count_through_succ_write {n : Nat} {s : List Access} {u : RuntimeId}
    (h : (writersOf s)[n]? = some u) (t : RuntimeId) :
    (through (n + 1) s).count ⟨t, .write⟩ =
      (through n s).count ⟨t, .write⟩ + if u = t then 1 else 0 := by
  rw [← count_writersOf, ← count_writersOf, writersOf_through, writersOf_through,
    List.take_add_one, h]
  simp [List.count_singleton]

end AccessReplay
