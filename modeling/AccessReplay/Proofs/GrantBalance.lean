import AccessReplay.Proofs.LocationProgress
import AccessReplay.Proofs.Rearrangement

/-!
# The balance of what was granted

What a location has granted is committed, in some order `p`, or still open, in a list `o`.
Several threads may act as one recorded thread, so `o` may have an access more than once.
`Location.Balanced s p o l` says what is true of a location with the recorded order `s`
whoever acts as whom:

* the writes that are committed are the first recorded ones, each with the reads made that were
  recorded before it;
* a granted write is reserved: one write is open at most, for the recorded writer of the next one.

A granted read reserves nothing.  If `n + 1` reads of a thread are open at once, `n` too many may
have been granted, but never more (`ReadsWithin`).  If no two are, then what was granted leads a
rearrangement of the recorded order, however the open accesses are finished (`leads_open`).
-/
namespace AccessReplay

theorem writersOf_perm {o o' : List Access} (h : o.Perm o') :
    (writersOf o).Perm (writersOf o') :=
  (h.filter _).map _

theorem mem_writersOf {o : List Access} {t : RuntimeId} :
    t ∈ writersOf o ↔ (⟨t, .write⟩ : Access) ∈ o := by
  rw [← List.count_pos_iff, count_writersOf, List.count_pos_iff]

/-- The beginning of what leads a rearrangement leads it too. -/
theorem Leads.of_beginning {s p q : List Access} (h : Leads s q) (hp : p <+: q) : Leads s p := by
  obtain ⟨s', hs, hq⟩ := h
  exact ⟨s', hs, hp.trans hq⟩

/-- Reads of the stretch that was come to may be made in any order. -/
theorem leads_reads {s p q : List Access} (h : Leads s p) (hq : ReadsOnly q)
    (hge : ∀ t, (through (writersOf p).length s).count ⟨t, .read⟩ ≤ p.count ⟨t, .read⟩)
    (hle : ∀ t, p.count ⟨t, .read⟩ + q.count ⟨t, .read⟩ ≤
      (through ((writersOf p).length + 1) s).count ⟨t, .read⟩) : Leads s (p ++ q) := by
  induction q using List.reverseRecOn with
  | nil => simpa using h
  | append_singleton q a ih =>
    have hreads : ReadsOnly q := fun b hb => hq b (List.mem_append_left _ hb)
    have hnone : writersOf q = [] := readsOnly_iff.mp hreads
    obtain ⟨t, k⟩ := a
    obtain rfl : k = .read := hq ⟨t, k⟩ (List.mem_append_right _ (List.mem_singleton_self _))
    rw [← List.append_assoc, leads_concat_iff]
    constructor
    · apply ih hreads
      intro u
      have hu := hle u
      rw [List.count_append] at hu
      omega
    · have ht := hle t
      rw [List.count_append, List.count_singleton_self] at ht
      have hlow := hge t
      simp only [Admits, writersOf_append, hnone, List.append_nil, List.count_append]
      omega

/-! ## A location's account -/

namespace Location

/-- What a location with the recorded order `s` says of itself once `p` was committed and while
`o` is open. -/
structure Balanced (s p o : List Access) (l : Location) : Prop extends Enforces s l where
  committed_eq : l.committed = (writersOf p).length
  reads_eq : ∀ t, l.reads.get t = p.count ⟨t, .read⟩
  /-- Writes are committed in the recorded order. -/
  writers_eq : writersOf p = (writersOf s).take l.committed
  /-- The reads recorded before the last committed write are made. -/
  reads_ge : ∀ t, (through l.committed s).count ⟨t, .read⟩ ≤ p.count ⟨t, .read⟩
  /-- A write is open exactly while one is reserved. -/
  reserved : (writersOf o).length = if l.writeOpen then 1 else 0
  write_open : ∀ t, (⟨t, .write⟩ : Access) ∈ o → (writersOf s)[l.committed]? = some t
  /-- The open write found all reads made that were recorded before it. -/
  ready : l.writeOpen = true →
    ∀ t, (through (l.committed + 1) s).count ⟨t, .read⟩ ≤ p.count ⟨t, .read⟩

/-- At most `n` more reads were granted to a recorded thread than are recorded before the next
write. -/
def ReadsWithin (n : Nat) (s p o : List Access) (t : RuntimeId) : Prop :=
  p.count ⟨t, .read⟩ + o.count ⟨t, .read⟩ ≤
    (through ((writersOf p).length + 1) s).count ⟨t, .read⟩ + n

/-- What a step may do to a location: what is granted now, what is committed now, and the
location afterwards. -/
inductive Turn (l : Location) : List Access → List Access → Location → Prop
  | kept : Turn l [] [] l
  | grant {t k} : l.verdict t k = .grant → Turn l [⟨t, k⟩] [] (l.reserve t k)
  | commit {t k} : Turn l [] [⟨t, k⟩] (l.commit t k .granted)

variable {s p o o' : List Access} {l l' : Location} {t u : RuntimeId} {k : AccessKind}
  {granted committed : List Access}

theorem balanced_ofEvents (es : List RecordedAccess) :
    Balanced (accessOrder es) [] [] (ofEvents es) where
  toEnforces := (tracks_ofEvents es).toEnforces
  committed_eq := rfl
  reads_eq t := by simp [ofEvents]
  writers_eq := by simp [ofEvents]
  reads_ge t := by simp [ofEvents]
  reserved := rfl
  write_open t ht := absurd ht List.not_mem_nil
  ready h := by simp [ofEvents] at h

namespace Balanced

/-- In which order accesses were opened makes no difference. -/
theorem perm (h : Balanced s p o l) (ho : o.Perm o') : Balanced s p o' l where
  toEnforces := h.toEnforces
  committed_eq := h.committed_eq
  reads_eq := h.reads_eq
  writers_eq := h.writers_eq
  reads_ge := h.reads_ge
  reserved := by rw [← (writersOf_perm ho).length_eq, h.reserved]
  write_open t ht := h.write_open t (ho.mem_iff.mpr ht)
  ready := h.ready

/-- While no write is reserved, only reads are open. -/
theorem writersOf_eq_nil (h : Balanced s p o l) (hfree : l.writeOpen = false) :
    writersOf o = [] := by
  simpa [hfree] using h.reserved

/-- While a write is reserved, one is open: the next recorded one. -/
theorem writersOf_eq_singleton (h : Balanced s p o l) (hopen : l.writeOpen = true) :
    ∃ t, writersOf o = [t] ∧ (writersOf s)[l.committed]? = some t := by
  obtain ⟨t, ht⟩ : ∃ t, writersOf o = [t] := by
    apply List.length_eq_one_iff.mp
    simpa [hopen] using h.reserved
  have hmem : (⟨t, .write⟩ : Access) ∈ o := by
    rw [← mem_writersOf, ht]
    exact List.mem_singleton_self t
  exact ⟨t, ht, h.write_open t hmem⟩

theorem grant (h : Balanced s p o l) (hg : l.verdict t k = .grant) :
    Balanced s p (⟨t, k⟩ :: o) (l.reserve t k) := by
  cases k with
  | read =>
    rw [reserve_read]
    refine ⟨h.toEnforces, h.committed_eq, h.reads_eq, h.writers_eq, h.reads_ge, ?_, ?_, h.ready⟩
    · rw [writersOf_cons_read]
      exact h.reserved
    · intro u hu
      exact h.write_open u (by simpa using hu)
  | write =>
    obtain ⟨hnext, hfree, hdone⟩ := h.write_granted_iff.mp hg
    have hnone := h.writersOf_eq_nil hfree
    rw [reserve_write h.undiverged hg]
    refine ⟨⟨h.schedule, h.undiverged⟩, h.committed_eq, h.reads_eq, h.writers_eq, h.reads_ge, ?_,
      ?_, ?_⟩
    · rw [writersOf_cons_write, hnone]
      rfl
    · intro u hu
      rw [← mem_writersOf, writersOf_cons_write, hnone, List.mem_singleton] at hu
      rw [hu]
      exact hnext
    · intro _ u
      rw [← h.reads_eq]
      exact hdone u

theorem commit (h : Balanced s p (⟨t, k⟩ :: o) l) :
    Balanced s (p ++ [⟨t, k⟩]) o (l.commit t k .granted) := by
  cases k with
  | read =>
    rw [commit_granted_read h.undiverged]
    have hmore (u : RuntimeId) : p.count (⟨u, .read⟩ : Access) ≤
        (p ++ [(⟨t, .read⟩ : Access)]).count ⟨u, .read⟩ := by
      rw [List.count_append]
      exact Nat.le_add_right ..
    refine ⟨⟨h.schedule, h.undiverged⟩, ?_, ?_, ?_, ?_, ?_, ?_, ?_⟩
    · simpa using h.committed_eq
    · intro u
      simp [ReadCounts.get_increment, h.reads_eq, List.count_singleton]
    · simpa using h.writers_eq
    · intro u
      exact Nat.le_trans (h.reads_ge u) (hmore u)
    · simpa using h.reserved
    · intro u hu
      exact h.write_open u (List.mem_cons_of_mem _ hu)
    · intro hopen u
      exact Nat.le_trans (h.ready hopen u) (hmore u)
  | write =>
    have hreserved := h.reserved
    have hopen : l.writeOpen = true := by
      by_contra hfree
      simp [hfree] at hreserved
    have hnone : writersOf o = [] := by
      simpa [hopen] using hreserved
    have hnext : (writersOf s)[l.committed]? = some t := h.write_open t List.mem_cons_self
    rw [commit_granted_write h.undiverged]
    refine ⟨⟨h.schedule, h.undiverged⟩, ?_, ?_, ?_, ?_, ?_, ?_, ?_⟩
    · simp [h.committed_eq]
    · intro u
      simp [h.reads_eq]
    · simp [List.take_add_one, hnext, h.writers_eq]
    · intro u
      simpa using h.ready hopen u
    · simp [hnone]
    · intro u hu
      rw [← mem_writersOf, hnone] at hu
      exact absurd hu List.not_mem_nil
    · intro hfree
      simp at hfree

/-- **A location's account is kept by every step.** -/
theorem turn (h : Balanced s p o l) (ht : Turn l granted committed l')
    (ho : (o' ++ committed).Perm (o ++ granted)) : Balanced s (p ++ committed) o' l' := by
  cases ht with
  | kept =>
    rw [List.append_nil] at ho ⊢
    exact h.perm (by simpa using ho.symm)
  | grant hg =>
    rw [List.append_nil] at ho ⊢
    exact (h.grant hg).perm ((List.perm_append_singleton _ o).symm.trans ho.symm)
  | commit =>
    rw [List.append_nil] at ho
    exact (h.perm (ho.symm.trans (List.perm_append_singleton _ o'))).commit

/-! ### Writes -/

/-- The writes that were granted are the first recorded ones. -/
theorem writersOf_begins (h : Balanced s p o l) : writersOf (p ++ o) <+: writersOf s := by
  rw [writersOf_append, h.writers_eq]
  cases hopen : l.writeOpen with
  | false =>
    rw [h.writersOf_eq_nil hopen, List.append_nil]
    exact List.take_prefix ..
  | true =>
    obtain ⟨t, ht, hnext⟩ := h.writersOf_eq_singleton hopen
    have htake : (writersOf s).take l.committed ++ [t] = (writersOf s).take (l.committed + 1) := by
      rw [List.take_add_one, hnext]
      rfl
    rw [ht, htake]
    exact List.take_prefix ..

/-- **A recorded write is granted at most once**: the reservation excludes a second grant. -/
theorem writes_le (h : Balanced s p o l) (t : RuntimeId) :
    (p ++ o).count ⟨t, .write⟩ ≤ s.count ⟨t, .write⟩ := by
  rw [← count_writersOf, ← count_writersOf]
  exact h.writersOf_begins.sublist.count_le t

/-! ### Reads -/

/-- A read is granted as long as a recorded one is left that is not committed. -/
theorem lt_of_read_granted (h : Balanced s p o l) (hg : l.verdict t .read = .grant) :
    p.count ⟨t, .read⟩ < (through ((writersOf p).length + 1) s).count ⟨t, .read⟩ := by
  have hlt := (h.read_granted_iff.mp hg).2
  rwa [h.reads_eq, h.committed_eq] at hlt

/-- **As many reads too many are granted** to a thread as it has open beside one another. -/
theorem readsWithin_turn {n : Nat} (h : Balanced s p o l) (hr : ReadsWithin n s p o u)
    (ht : Turn l granted committed l') (ho : (o' ++ committed).Perm (o ++ granted))
    (hfew : o'.count ⟨u, .read⟩ ≤ n + 1) : ReadsWithin n s (p ++ committed) o' u := by
  have hcount := ho.count_eq ⟨u, .read⟩
  rw [List.count_append, List.count_append] at hcount
  unfold ReadsWithin at hr ⊢
  rw [List.count_append]
  cases ht with
  | kept =>
    simp only [List.append_nil, List.count_nil] at hcount ⊢
    omega
  | @grant t k hg =>
    simp only [List.append_nil, List.count_nil] at hcount ⊢
    by_cases hsame : (⟨t, k⟩ : Access) = ⟨u, .read⟩
    · -- one recorded read is left that is not committed, and `n` more are open beside this one
      obtain ⟨rfl, rfl⟩ := Access.mk.inj hsame
      have hlt := h.lt_of_read_granted hg
      omega
    · rw [List.count_singleton, if_neg (by simpa using hsame)] at hcount
      omega
  | @commit t k =>
    simp only [List.count_nil] at hcount
    cases k with
    | read =>
      have hwriters : writersOf (p ++ [⟨t, .read⟩]) = writersOf p := by simp
      rw [hwriters]
      omega
    | write =>
      have hwriters : (writersOf (p ++ [⟨t, .write⟩])).length = (writersOf p).length + 1 := by simp
      have hother : [(⟨t, .write⟩ : Access)].count ⟨u, .read⟩ = 0 := by simp
      have hmono := count_through_mono (Nat.le_add_right ((writersOf p).length + 1) 1) s ⟨u, .read⟩
      rw [hwriters]
      omega

/-! ### The order -/

/-- If no read too many is granted, a write that is open is open alone: the reads recorded before
it are made. -/
theorem open_eq_singleton (h : Balanced s p o l) (hr : ∀ u, ReadsWithin 0 s p o u)
    (hopen : l.writeOpen = true) : ∃ t, o = [⟨t, .write⟩] := by
  have hwrites : ∀ a ∈ o, a.kind = .write := by
    rintro ⟨u, _ | _⟩ ha
    · have hpos : 0 < o.count ⟨u, .read⟩ := List.count_pos_iff.mpr ha
      have hready := h.ready hopen u
      have hwithin := hr u
      rw [ReadsWithin, ← h.committed_eq] at hwithin
      omega
    · rfl
  obtain ⟨t, ht, -⟩ := h.writersOf_eq_singleton hopen
  have hfilter : o.filter (·.kind = .write) = o :=
    List.filter_eq_self.mpr fun a ha => decide_eq_true (hwrites a ha)
  rw [writersOf, hfilter] at ht
  obtain ⟨⟨u, k⟩, rfl, -⟩ := List.map_eq_singleton_iff.mp ht
  obtain rfl : k = .write := hwrites ⟨u, k⟩ (List.mem_singleton_self _)
  exact ⟨u, rfl⟩

/-- **What was granted leads a rearrangement of the recorded order**, however the open accesses
are finished. -/
theorem leads_open (h : Balanced s p o l) (hp : Leads s p) (hr : ∀ u, ReadsWithin 0 s p o u) :
    Leads s (p ++ o) := by
  cases hopen : l.writeOpen with
  | false =>
    apply leads_reads hp (readsOnly_iff.mpr (h.writersOf_eq_nil hopen))
    · intro u
      rw [← h.committed_eq]
      exact h.reads_ge u
    · exact hr
  | true =>
    obtain ⟨t, rfl⟩ := h.open_eq_singleton hr hopen
    rw [leads_concat_iff]
    refine ⟨hp, ?_⟩
    simp only [Admits, ← h.committed_eq]
    exact ⟨h.write_open t (List.mem_singleton_self _), h.ready hopen⟩

theorem leads_turn (h : Balanced s p o l) (hp : Leads s p) (hr : ∀ u, ReadsWithin 0 s p o u)
    (ht : Turn l granted committed l') (ho : (o' ++ committed).Perm (o ++ granted)) :
    Leads s (p ++ committed) := by
  cases ht with
  | kept => simpa using hp
  | grant => simpa using hp
  | @commit t k =>
    -- the access that is committed was open: let it be finished first
    rw [List.append_nil] at ho
    have hfirst : o.Perm (⟨t, k⟩ :: o') := ho.symm.trans (List.perm_append_singleton _ o')
    have hwithin : ∀ u, ReadsWithin 0 s p (⟨t, k⟩ :: o') u := by
      intro u
      have hu := hr u
      rwa [ReadsWithin, hfirst.count_eq] at hu
    refine ((h.perm hfirst).leads_open hp hwithin).of_beginning ?_
    exact ⟨o', by simp⟩

/-- Nothing more than was recorded is granted, but for the reads too many. -/
theorem reads_le {n : Nat} (h : ReadsWithin n s p o u) :
    (p ++ o).count ⟨u, .read⟩ ≤ s.count ⟨u, .read⟩ + n := by
  have hle := count_through_le ((writersOf p).length + 1) s ⟨u, .read⟩
  rw [ReadsWithin] at h
  rw [List.count_append]
  omega

end Balanced

/-! ## A location's course -/

/-- What became of a location with the recorded accesses `es`, turn by turn: `p` was committed
and `o` is open, and `P` was true of what was open after each turn. -/
inductive Course (es : List RecordedAccess) (P : List Access → Prop) :
    List Access → List Access → Location → Prop
  | start : Course es P [] [] (ofEvents es)
  | turn {p o o' granted committed : List Access} {l l' : Location} : Course es P p o l →
      Turn l granted committed l' → (o' ++ committed).Perm (o ++ granted) → P o' →
      Course es P (p ++ committed) o' l'

namespace Course

variable {es : List RecordedAccess} {P : List Access → Prop}

theorem balanced (h : Course es P p o l) : Balanced (accessOrder es) p o l := by
  induction h with
  | start => exact balanced_ofEvents es
  | turn _ ht ho _ ih => exact ih.turn ht ho

/-- If never more than `n + 1` reads of a thread were open at once, at most `n` too many were
granted. -/
theorem readsWithin {n : Nat} (h : Course es P p o l)
    (hP : ∀ o, P o → o.count ⟨u, .read⟩ ≤ n + 1) : ReadsWithin n (accessOrder es) p o u := by
  induction h with
  | start => simp [ReadsWithin]
  | turn hc ht ho hp ih => exact hc.balanced.readsWithin_turn ih ht ho (hP _ hp)

/-- **If no two reads of a thread were open at once, what was granted leads a rearrangement of
the recorded order**, however the open accesses are finished. -/
theorem leads (h : Course es P p o l) (hP : ∀ o, P o → ∀ u, o.count ⟨u, .read⟩ ≤ 1)
    (ho : o.Perm o') : Leads (accessOrder es) (p ++ o') := by
  have hwithin : ∀ {p o l}, Course es P p o l → ∀ u, ReadsWithin 0 (accessOrder es) p o u :=
    fun hc u => hc.readsWithin fun o hp => hP o hp u
  have hcommitted : Leads (accessOrder es) p := by
    clear ho
    induction h with
    | start => exact leads_nil _
    | turn hc ht ho _ ih => exact hc.balanced.leads_turn ih (hwithin hc) ht ho
  apply (h.balanced.perm ho).leads_open hcommitted
  intro u
  have hu := hwithin h u
  rwa [ReadsWithin, ho.count_eq] at hu

end Course
end Location
end AccessReplay
