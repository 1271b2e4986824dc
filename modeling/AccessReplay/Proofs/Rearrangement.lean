import AccessReplay.Proofs.AccessOrder
import Mathlib.Data.List.Perm.Basic

/-!
# Rearrangements of a recorded order

Reads between the same two writes may change places; nothing else may.
`Rearranged s s'` says that `s'` is `s` with the reads of each such stretch in some
order, and `Leads s p` that `p` is how such a rearrangement begins.

Whether an order is a rearrangement shows in two measures only: the writers, and how
many reads of each thread each write has behind it (`rearranged_iff`).  Hence one more
access can be told from the counts alone: `p` followed by `a` leads exactly if `p`
does and `a` is admitted (`leads_concat_iff`).
-/
namespace AccessReplay

/-- No access of the list is a write. -/
def ReadsOnly (r : List Access) : Prop := ∀ a ∈ r, a.kind = .read

/-- `s'` has the writes of `s` in their order and, in each stretch before, between and
after them, the reads of `s` in some order. -/
inductive Rearranged : List Access → List Access → Prop
  | reads {r r' : List Access} : ReadsOnly r → r.Perm r' → Rearranged r r'
  | write {r r' s s' : List Access} (t : RuntimeId) : ReadsOnly r → r.Perm r' →
      Rearranged s s' → Rearranged (r ++ ⟨t, .write⟩ :: s) (r' ++ ⟨t, .write⟩ :: s')

/-! ## Stretches of reads -/

theorem readsOnly_iff {r : List Access} : ReadsOnly r ↔ writersOf r = [] := by
  simp only [writersOf, List.map_eq_nil_iff, List.filter_eq_nil_iff, decide_eq_true_eq]
  refine forall₂_congr fun a _ => ?_
  cases a.kind <;> simp

theorem ReadsOnly.perm {r r' : List Access} (h : ReadsOnly r) (hp : r.Perm r') : ReadsOnly r' :=
  fun a ha => h a (hp.mem_iff.mpr ha)

/-- Stretches with the same reads of every thread are permutations of each other. -/
theorem perm_of_count_reads {r r' : List Access} (hr : ReadsOnly r) (hr' : ReadsOnly r')
    (h : ∀ t, r.count ⟨t, .read⟩ = r'.count ⟨t, .read⟩) : r.Perm r' := by
  rw [List.perm_iff_count]
  rintro ⟨t, _ | _⟩
  · exact h t
  · have hw : ∀ {q}, ReadsOnly q → q.count ⟨t, .write⟩ = 0 := fun hq =>
      List.count_eq_zero.mpr fun hm => by simpa using hq _ hm
    rw [hw hr, hw hr']

theorem through_reads {r : List Access} (hr : ReadsOnly r) (n : Nat) : through (n + 1) r = r :=
  through_of_lt (by rw [readsOnly_iff.mp hr]; exact Nat.succ_pos n)

theorem through_reads_append {r : List Access} (hr : ReadsOnly r) (n : Nat) (s : List Access) :
    through (n + 1) (r ++ s) = r ++ through (n + 1) s := by
  have hlen : (writersOf r).length = 0 := by rw [readsOnly_iff.mp hr]; rfl
  rw [through_append_of_lt (by omega), hlen, Nat.sub_zero]

/-- An order with a write is a stretch of reads, the write, and the rest. -/
theorem exists_first_write {s : List Access} {t : RuntimeId} {ws : List RuntimeId}
    (h : writersOf s = t :: ws) :
    ∃ r q, ReadsOnly r ∧ s = r ++ ⟨t, .write⟩ :: q ∧ writersOf q = ws := by
  induction s with
  | nil => simp at h
  | cons a s ih =>
    rcases a with ⟨u, _ | _⟩
    · obtain ⟨r, q, hr, rfl, hq⟩ := ih (by simpa using h)
      refine ⟨⟨u, .read⟩ :: r, q, ?_, rfl, hq⟩
      rintro b hb
      rcases List.mem_cons.mp hb with rfl | hb
      · rfl
      · exact hr b hb
    · rw [writersOf_cons_write, List.cons.injEq] at h
      obtain ⟨rfl, rfl⟩ := h
      exact ⟨[], s, by simp [ReadsOnly], rfl, rfl⟩

/-! ## Counting decides -/

theorem Rearranged.writersOf_eq {s s' : List Access} (h : Rearranged s s') :
    writersOf s = writersOf s' := by
  induction h with
  | reads hr hp => rw [readsOnly_iff.mp hr, readsOnly_iff.mp (hr.perm hp)]
  | write t hr hp _ ih => simp [readsOnly_iff.mp hr, readsOnly_iff.mp (hr.perm hp), ih]

theorem Rearranged.count_through {s s' : List Access} (h : Rearranged s s') (n : Nat)
    (t : RuntimeId) : (through n s).count ⟨t, .read⟩ = (through n s').count ⟨t, .read⟩ := by
  induction h generalizing n with
  | reads hr hp =>
    cases n with
    | zero => simp
    | succ n => rw [through_reads hr, through_reads (hr.perm hp), hp.count_eq]
  | write u hr hp _ ih =>
    cases n with
    | zero => simp
    | succ n =>
      rw [through_reads_append hr, through_reads_append (hr.perm hp)]
      simp [hp.count_eq, ih]

/-- **An order is a rearrangement** exactly if it has the same writers, and the same reads
of every thread before each write. -/
theorem rearranged_iff {s s' : List Access} :
    Rearranged s s' ↔ writersOf s = writersOf s' ∧
      ∀ n t, (through n s).count ⟨t, .read⟩ = (through n s').count ⟨t, .read⟩ := by
  refine ⟨fun h => ⟨h.writersOf_eq, h.count_through⟩, ?_⟩
  rintro ⟨hw, hc⟩
  generalize hws : writersOf s = ws at hw
  induction ws generalizing s s' with
  | nil =>
    have hs := readsOnly_iff.mpr hws
    have hs' := readsOnly_iff.mpr hw.symm
    refine .reads hs (perm_of_count_reads hs hs' fun t => ?_)
    simpa only [through_reads hs, through_reads hs'] using hc 1 t
  | cons t ws ih =>
    obtain ⟨r, q, hr, rfl, hq⟩ := exists_first_write hws
    obtain ⟨r', q', hr', rfl, hq'⟩ := exists_first_write hw.symm
    have hcount : ∀ n u, r.count ⟨u, .read⟩ + (through n q).count ⟨u, .read⟩ =
        r'.count ⟨u, .read⟩ + (through n q').count ⟨u, .read⟩ := fun n u => by
      simpa [through_reads_append hr, through_reads_append hr'] using hc (n + 1) u
    have hrr : ∀ u, r.count ⟨u, .read⟩ = r'.count ⟨u, .read⟩ := fun u => by
      simpa using hcount 0 u
    refine .write t hr (perm_of_count_reads hr hr' hrr) (ih ?_ hq hq'.symm)
    intro n u
    have := hcount n u
    rw [hrr u] at this
    omega

theorem Rearranged.refl (s : List Access) : Rearranged s s :=
  rearranged_iff.mpr ⟨rfl, fun _ _ => rfl⟩

theorem Rearranged.trans {s s' s'' : List Access} (h : Rearranged s s')
    (h' : Rearranged s' s'') : Rearranged s s'' :=
  rearranged_iff.mpr ⟨h.writersOf_eq.trans h'.writersOf_eq,
    fun n t => (h.count_through n t).trans (h'.count_through n t)⟩

theorem Rearranged.append_left {s s' : List Access} (h : Rearranged s s') (p : List Access) :
    Rearranged (p ++ s) (p ++ s') := by
  refine rearranged_iff.mpr ⟨by simp [h.writersOf_eq], fun n t => ?_⟩
  rcases Nat.lt_or_ge (writersOf p).length n with hn | hn
  · simp [through_append_of_lt hn, h.count_through]
  · simp [through_append_of_le hn]

/-- A read may move before the reads of its own stretch. -/
theorem rearranged_move {q : List Access} (hq : ReadsOnly q) (t : RuntimeId) (r : List Access) :
    Rearranged (q ++ ⟨t, .read⟩ :: r) (⟨t, .read⟩ :: (q ++ r)) := by
  refine rearranged_iff.mpr ⟨by simp, fun n u => ?_⟩
  cases n with
  | zero => simp
  | succ n =>
    simp only [through_cons_read, through_reads_append hq, List.count_append, List.count_cons]
    omega

theorem Rearranged.perm {s s' : List Access} (h : Rearranged s s') : s.Perm s' := by
  induction h with
  | reads _ hp => exact hp
  | write t _ hp _ ih => exact hp.append (ih.cons _)

/-! ## Beginnings of rearrangements -/

/-- A rearrangement of `s` begins with `p`. -/
def Leads (s p : List Access) : Prop := ∃ s', Rearranged s s' ∧ p <+: s'

/-- After the accesses `p`, the order `s` admits `a` next: a read if its thread's next one
belongs between the last write of `p` and the following one, and a write if it is the
following one and `p` has all reads before it. -/
def Admits (s p : List Access) (a : Access) : Prop :=
  match a.kind with
  | .read =>
    (through (writersOf p).length s).count ⟨a.thread, .read⟩ ≤ p.count ⟨a.thread, .read⟩ ∧
      p.count ⟨a.thread, .read⟩ <
        (through ((writersOf p).length + 1) s).count ⟨a.thread, .read⟩
  | .write =>
    (writersOf s)[(writersOf p).length]? = some a.thread ∧
      ∀ u, (through ((writersOf p).length + 1) s).count ⟨u, .read⟩ ≤ p.count ⟨u, .read⟩

theorem Rearranged.admits_iff {s s' : List Access} (h : Rearranged s s') (p : List Access)
    (a : Access) : Admits s p a ↔ Admits s' p a := by
  simp only [Admits, h.writersOf_eq, h.count_through]

theorem leads_nil (s : List Access) : Leads s [] := ⟨s, .refl s, List.nil_prefix⟩

theorem Leads.length_le {s p : List Access} (h : Leads s p) : p.length ≤ s.length := by
  obtain ⟨s', hs, hp⟩ := h
  exact hs.perm.length_eq ▸ hp.length_le

/-- An order admits its own next access. -/
theorem admits_next (p r : List Access) (a : Access) : Admits (p ++ a :: r) p a := by
  rcases a with ⟨t, _ | _⟩
  · have hle := count_through_le (writersOf p).length p ⟨t, .read⟩
    simp only [Admits, through_append_of_le (Nat.le_refl _), through_append_next,
      through_cons_read, List.count_append, List.count_cons_self]
    omega
  · simp [Admits, through_append_next]

/-- **A read keeps its place among the writes**: the `j`-th read of a thread has the same
writes before it in a rearrangement. -/
theorem Rearranged.writersOf_before_read {s s' p p' r r' : List Access} {t : RuntimeId}
    (h : Rearranged s s') (hs : s = p ++ ⟨t, .read⟩ :: r) (hs' : s' = p' ++ ⟨t, .read⟩ :: r')
    (hc : p.count ⟨t, .read⟩ = p'.count ⟨t, .read⟩) : writersOf p = writersOf p' := by
  obtain ⟨hlo, hhi⟩ := hs ▸ admits_next p r ⟨t, .read⟩
  obtain ⟨hlo', hhi'⟩ := (h.admits_iff _ _).mpr (hs' ▸ admits_next p' r' ⟨t, .read⟩)
  have hlt := lt_of_count_through_lt (Nat.lt_of_le_of_lt hlo (hc ▸ hhi'))
  have hlt' := lt_of_count_through_lt (Nat.lt_of_le_of_lt hlo' (hc ▸ hhi))
  have hw := h.writersOf_eq
  rw [hs, hs', writersOf_append, writersOf_append] at hw
  exact List.append_inj_left hw (by omega)

/-- If there is a read of `t` in the first stretch, it stands behind reads only. -/
theorem exists_read_of_mem_through {t : RuntimeId} {r : List Access}
    (h : ⟨t, .read⟩ ∈ through 1 r) :
    ∃ q q', ReadsOnly q ∧ r = q ++ ⟨t, .read⟩ :: q' := by
  induction r with
  | nil => simp at h
  | cons a r ih =>
    rcases a with ⟨u, _ | _⟩
    · by_cases hu : u = t
      · subst hu
        exact ⟨[], r, by simp [ReadsOnly], rfl⟩
      · obtain ⟨q, q', hq, rfl⟩ := ih (by simpa [Ne.symm hu] using h)
        refine ⟨⟨u, .read⟩ :: q, q', ?_, rfl⟩
        rintro b hb
        rcases List.mem_cons.mp hb with rfl | hb
        · rfl
        · exact hq b hb
    · simp at h

/-- **One access more.**  What leads a rearrangement still does so with `a` behind it
exactly if the order admits `a` next. -/
theorem leads_concat_iff {s p : List Access} {a : Access} :
    Leads s (p ++ [a]) ↔ Leads s p ∧ Admits s p a := by
  constructor
  · rintro ⟨s', hs, r, rfl⟩
    rw [List.append_assoc, List.singleton_append] at hs
    exact ⟨⟨_, hs, List.prefix_append ..⟩, (hs.admits_iff p a).mpr (admits_next p r a)⟩
  · rintro ⟨⟨s', hs, r, rfl⟩, ha⟩
    rw [hs.admits_iff] at ha
    rcases a with ⟨t, _ | _⟩
    · -- the read is found in the first stretch of what follows, and moved to its front
      simp only [Admits, through_append_next, List.count_append] at ha
      have hmem : ⟨t, .read⟩ ∈ through 1 r := List.count_pos_iff.mp (by omega)
      obtain ⟨q, q', hq, rfl⟩ := exists_read_of_mem_through hmem
      exact ⟨_, hs.trans ((rearranged_move hq t q').append_left p), q ++ q', by simp⟩
    · -- the first stretch of what follows is empty, since none of its reads is left to make
      simp only [Admits, through_append_next, List.count_append, writersOf_append,
        List.getElem?_append_right (Nat.le_refl _), Nat.sub_self] at ha
      obtain ⟨ws, hws⟩ : ∃ ws, writersOf r = t :: ws := by
        cases hr : writersOf r with
        | nil => simp [hr] at ha
        | cons u ws => exact ⟨ws, by simpa [hr] using ha.1⟩
      obtain ⟨q, q', hq, rfl, -⟩ := exists_first_write hws
      have hnil : q = [] := by
        refine List.eq_nil_iff_forall_not_mem.mpr ?_
        rintro ⟨u, k⟩ hu
        obtain rfl : k = .read := hq _ hu
        have hpos := List.count_pos_iff.mpr hu
        have hle := ha.2 u
        rw [through_reads_append hq, List.count_append] at hle
        omega
      subst hnil
      exact ⟨_, hs, q', by simp⟩

end AccessReplay
