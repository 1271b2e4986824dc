import AccessReplay.Proofs.LocationProgress
import AccessReplay.Proofs.Rearrangement
import Mathlib.Logic.Relation

/-!
# Overlapping accesses

An access has three phases: it is granted, the program performs it on its memory, and
it is committed.  Phases of different threads are interleaved in any order, and each
thread has at most one access open at a time.

Accesses then overlap only as far as it does no harm: while a write is open nothing
else is, and while a read is open no write is committed.  The memory operations
therefore happen in a rearrangement of the recorded order (`Consistent.leads`), and a
read returns what the write stored that it was recorded after: each granted access has
the index that its counterpart has among the recorded ones of its thread and kind.
-/
namespace AccessReplay.Overlap

variable {Value : Type}

/-- An open access: the `index`-th of its thread and kind that was granted. -/
structure OpenPhase where
  kind : AccessKind
  index : Nat
  /-- Has the program performed it? -/
  performed : Bool
deriving DecidableEq, Repr

/-- A memory operation of the program, with the value it stored or returned. -/
structure Operation (Value : Type) where
  access : Access
  /-- Which granted access of its thread and kind it is. -/
  index : Nat
  value : Value

/-- One location, the memory behind it, and the accesses that threads make. -/
structure State (Value : Type) where
  location : Location
  memory : Value
  /-- The open access of each thread. -/
  opened : RuntimeId → Option OpenPhase
  /-- How many accesses of each thread and kind were granted. -/
  grants : Access → Nat
  /-- The memory operations, in order. -/
  log : List (Operation Value)

/-- A location before its first access, with a value in memory. -/
def start (es : List RecordedAccess) (initial : Value) : State Value :=
  { location := .ofEvents es, memory := initial, opened := fun _ => none, grants := fun _ => 0,
    log := [] }

/-- One phase of one thread's access. -/
inductive Step : State Value → State Value → Prop
  /-- A thread without an open access asks for one and is granted it. -/
  | grant {σ t k} : σ.opened t = none → (σ.location.poll t k).1 = .grant →
      Step σ { σ with
        location := (σ.location.poll t k).2
        opened := Function.update σ.opened t (some ⟨k, σ.grants ⟨t, k⟩, false⟩)
        grants := Function.update σ.grants ⟨t, k⟩ (σ.grants ⟨t, k⟩ + 1) }
  /-- A thread without an open access asks for one in vain. -/
  | refuse {σ t k} : σ.opened t = none → (σ.location.poll t k).1 ≠ .grant →
      Step σ { σ with location := (σ.location.poll t k).2 }
  /-- The program reads. -/
  | read {σ t i} : σ.opened t = some ⟨.read, i, false⟩ →
      Step σ { σ with
        opened := Function.update σ.opened t (some ⟨.read, i, true⟩)
        log := σ.log ++ [⟨⟨t, .read⟩, i, σ.memory⟩] }
  /-- The program writes some value. -/
  | write {σ t i} (v : Value) : σ.opened t = some ⟨.write, i, false⟩ →
      Step σ { σ with
        memory := v
        opened := Function.update σ.opened t (some ⟨.write, i, true⟩)
        log := σ.log ++ [⟨⟨t, .write⟩, i, v⟩] }
  /-- A performed access is committed. -/
  | commit {σ t k i} : σ.opened t = some ⟨k, i, true⟩ →
      Step σ { σ with
        location := σ.location.commit t k .granted
        opened := Function.update σ.opened t none }

/-- What can be reached by phases of any threads in any order. -/
def Reachable (es : List RecordedAccess) (initial : Value) : State Value → Prop :=
  Relation.ReflTransGen Step (start es initial)

/-! ## The memory and the order of its operations -/

/-- The accesses that memory operations belong to. -/
def orderOfLog (log : List (Operation Value)) : List Access := log.map Operation.access

@[simp] theorem orderOfLog_concat (log : List (Operation Value)) (x : Operation Value) :
    orderOfLog (log ++ [x]) = orderOfLog log ++ [x.access] := by
  simp [orderOfLog]

/-- What is in memory after the operations: what the last write stored. -/
def contents (initial : Value) (log : List (Operation Value)) : Value :=
  log.foldl (fun v x => if x.access.kind = .write then x.value else v) initial

theorem contents_concat (initial : Value) (log : List (Operation Value)) (x : Operation Value) :
    contents initial (log ++ [x]) =
      if x.access.kind = .write then x.value else contents initial log := by
  simp [contents]

/-- What is in memory is what the last write stored, or was there before. -/
theorem contents_eq (initial : Value) (log : List (Operation Value)) :
    (writersOf (orderOfLog log) = [] ∧ contents initial log = initial) ∨
      ∃ p x q, log = p ++ x :: q ∧ x.access.kind = .write ∧
        writersOf (orderOfLog log) = writersOf (orderOfLog p) ++ [x.access.thread] ∧
        contents initial log = x.value := by
  induction log using List.reverseRecOn with
  | nil => exact .inl ⟨rfl, rfl⟩
  | append_singleton log x ih =>
    rcases x with ⟨⟨t, _ | _⟩, i, v⟩
    · have hw : writersOf (orderOfLog (log ++ [⟨⟨t, .read⟩, i, v⟩])) =
          writersOf (orderOfLog log) := by simp
      rw [contents_concat, hw]
      rcases ih with ⟨hnone, hv⟩ | ⟨p, x, q, hlog, hx, hp, hv⟩
      · exact .inl ⟨hnone, by simpa using hv⟩
      · exact .inr ⟨p, x, q ++ [⟨⟨t, .read⟩, i, v⟩], by simp [hlog], hx, hp, by simpa using hv⟩
    · exact .inr ⟨log, ⟨⟨t, .write⟩, i, v⟩, [], rfl, rfl, by simp, by simp [contents_concat]⟩

/-! ## The invariant -/

/-- Is the open access one of this kind that is performed, or not yet?  As a number, one
or none. -/
def inPhase (performed : Bool) (k : AccessKind) (o : Option OpenPhase) : Nat :=
  match o with
  | some phase => if phase.kind = k ∧ phase.performed = performed then 1 else 0
  | none => 0

/-- What holds whatever phases were taken so far. -/
structure Consistent (s : List Access) (initial : Value) (σ : State Value) : Prop where
  tracks : σ.location.Tracks s (Option.map OpenPhase.kind ∘ σ.opened)
  leads : Leads s (orderOfLog σ.log)
  /-- What is granted is performed or waits for it. -/
  grants_eq : ∀ t k, σ.grants ⟨t, k⟩ =
    (orderOfLog σ.log).count ⟨t, k⟩ + inPhase false k (σ.opened t)
  /-- What is performed is committed or still open. -/
  performed_eq : ∀ t k, (orderOfLog σ.log).count ⟨t, k⟩ =
    Location.made s σ.location ⟨t, k⟩ + inPhase true k (σ.opened t)
  waiting : ∀ t k i, σ.opened t = some ⟨k, i, false⟩ → i = (orderOfLog σ.log).count ⟨t, k⟩
  memory_eq : σ.memory = contents initial σ.log
  numbered : ∀ p x q, σ.log = p ++ x :: q → x.index = (orderOfLog p).count x.access
  sees : ∀ p x q, σ.log = p ++ x :: q → x.access.kind = .read → x.value = contents initial p

theorem consistent_start (es : List RecordedAccess) (initial : Value) :
    Consistent (accessOrder es) initial (start es initial) where
  tracks := Location.tracks_ofEvents es
  leads := leads_nil _
  grants_eq _ _ := rfl
  performed_eq t k := by
    simp [start, orderOfLog, inPhase, Location.made_ofEvents]
  waiting t k i h := by simp [start] at h
  memory_eq := rfl
  numbered p x q h := by simp [start] at h
  sees p x q h := by simp [start] at h

/-- What holds at every place of a list and at its end holds at every place of the
list with one more entry. -/
theorem forall_place_concat {α : Type} {P : List α → α → Prop} {l : List α} {x : α}
    (h : ∀ p y q, l = p ++ y :: q → P p y) (hx : P l x) :
    ∀ p y q, l ++ [x] = p ++ y :: q → P p y := by
  intro p y q heq
  rcases List.eq_nil_or_concat q with rfl | ⟨q, z, rfl⟩
  · obtain ⟨rfl, hy⟩ := List.append_inj' heq rfl
    obtain rfl := List.singleton_inj.mp hy
    exact hx
  · rw [List.concat_eq_append, ← List.cons_append, ← List.append_assoc] at heq
    exact h p y q (List.append_inj' heq rfl).1

namespace Consistent

variable {s : List Access} {initial : Value} {σ : State Value} {t : RuntimeId} {k : AccessKind}
  {i : Nat}

theorem kind_of_opened {b : Bool} (ho : σ.opened t = some ⟨k, i, b⟩) :
    (Option.map OpenPhase.kind ∘ σ.opened) t = some k := by
  simp [ho]

/-- Unless a performed write is open, the writes that are performed are committed. -/
theorem length_writes (h : Consistent s initial σ)
    (hnone : ∀ u, inPhase true .write (σ.opened u) = 0) :
    (writersOf (orderOfLog σ.log)).length = σ.location.committed := by
  rw [← h.tracks.length_writersOf_through]
  refine length_writersOf_eq fun u => ?_
  rw [h.performed_eq, hnone]
  rfl

/-- No write is open and performed while another access is open. -/
theorem no_performed_write (h : Consistent s initial σ) (ho : σ.opened t = some ⟨k, i, false⟩)
    (u : RuntimeId) : inPhase true .write (σ.opened u) = 0 := by
  cases hu : σ.opened u with
  | none => rfl
  | some phase =>
    rcases phase with ⟨_ | _, j, _ | _⟩
    · rfl
    · rfl
    · rfl
    · -- an open write excludes a read, and is the only open write
      cases k with
      | read => exact absurd (kind_of_opened ho) (h.tracks.no_reader (kind_of_opened hu))
      | write =>
        obtain rfl := h.tracks.one_writer (kind_of_opened ho) (kind_of_opened hu)
        rw [ho] at hu
        cases hu

/-- The recorded order admits an access that is granted and not yet performed. -/
theorem admits_opened (h : Consistent s initial σ) (ho : σ.opened t = some ⟨k, i, false⟩) :
    Admits s (orderOfLog σ.log) ⟨t, k⟩ := by
  have hlen := h.length_writes (h.no_performed_write ho)
  cases k with
  | read =>
    have hreads : (orderOfLog σ.log).count ⟨t, .read⟩ = σ.location.reads.get t := by
      rw [h.performed_eq, ho]
      rfl
    simp only [Admits, hlen, hreads]
    exact ⟨h.tracks.reads_ge t, h.tracks.read_open t (kind_of_opened ho)⟩
  | write =>
    simp only [Admits, hlen]
    refine ⟨h.tracks.write_open t (kind_of_opened ho), fun u => ?_⟩
    have hready := h.tracks.ready (h.tracks.reserved.mpr ⟨t, kind_of_opened ho⟩) u
    rw [h.performed_eq]
    exact Nat.le_trans hready (Nat.le_add_right ..)

/-! ### The steps -/

theorem grant (h : Consistent s initial σ) (hidle : σ.opened t = none)
    (hg : σ.location.verdict t k = .grant) :
    Consistent s initial { σ with
      location := σ.location.reserve t k
      opened := Function.update σ.opened t (some ⟨k, σ.grants ⟨t, k⟩, false⟩)
      grants := Function.update σ.grants ⟨t, k⟩ (σ.grants ⟨t, k⟩ + 1) } where
  tracks := by
    rw [Function.comp_update]
    exact h.tracks.grant (by simp [hidle]) hg
  leads := h.leads
  grants_eq u k' := by
    by_cases hu : u = t
    · subst hu
      have hold := h.grants_eq u k'
      rw [hidle] at hold
      by_cases hk : k = k'
      · subst hk
        simp [inPhase, hold]
      · simp [inPhase, hold, hk, Ne.symm hk]
    · simpa [hu] using h.grants_eq u k'
  performed_eq u k' := by
    rw [Location.made_reserve, h.performed_eq]
    by_cases hu : u = t
    · subst hu
      simp [inPhase, hidle]
    · simp [hu]
  waiting u k' i hi := by
    rcases (update_some_iff hidle).mp hi with ⟨rfl, hphase⟩ | hi
    · cases hphase
      rw [h.grants_eq, hidle]
      rfl
    · exact h.waiting u k' i hi
  memory_eq := h.memory_eq
  numbered := h.numbered
  sees := h.sees

/-- The program performs a granted access: it stores `v`, or returns it if that is what
is in memory. -/
theorem perform (h : Consistent s initial σ) (ho : σ.opened t = some ⟨k, i, false⟩) (v : Value)
    (hv : k = .read → v = σ.memory) :
    Consistent s initial { σ with
      memory := v
      opened := Function.update σ.opened t (some ⟨k, i, true⟩)
      log := σ.log ++ [⟨⟨t, k⟩, i, v⟩] } where
  tracks := by
    rw [Function.comp_update]
    have hsame : Function.update (Option.map OpenPhase.kind ∘ σ.opened) t
        (Option.map OpenPhase.kind (some ⟨k, i, true⟩)) = Option.map OpenPhase.kind ∘ σ.opened :=
      Function.update_eq_self_iff.mpr (kind_of_opened ho).symm
    rw [hsame]
    exact h.tracks
  leads := by
    rw [orderOfLog_concat]
    exact leads_concat_iff.mpr ⟨h.leads, h.admits_opened ho⟩
  grants_eq u k' := by
    have hold := h.grants_eq u k'
    by_cases hu : u = t
    · subst hu
      rw [ho] at hold
      by_cases hk : k = k' <;> simp_all [inPhase]
    · simp_all [Ne.symm hu]
  performed_eq u k' := by
    have hold := h.performed_eq u k'
    by_cases hu : u = t
    · subst hu
      rw [ho] at hold
      by_cases hk : k = k' <;> simp_all [inPhase]
    · simp_all [Ne.symm hu]
  waiting u k' j hj := by
    by_cases hu : u = t
    · subst hu
      simp at hj
    · simp only [Function.update_of_ne hu] at hj
      simpa [Ne.symm hu] using h.waiting u k' j hj
  memory_eq := by
    rw [contents_concat]
    split
    · rfl
    · next hk => rw [hv (by cases k <;> simp_all), h.memory_eq]
  numbered := forall_place_concat h.numbered (h.waiting t k i ho)
  sees := forall_place_concat h.sees fun hk => by rw [hv hk, h.memory_eq]

theorem commit (h : Consistent s initial σ) (ho : σ.opened t = some ⟨k, i, true⟩) :
    Consistent s initial { σ with
      location := σ.location.commit t k .granted
      opened := Function.update σ.opened t none } where
  tracks := by
    rw [Function.comp_update]
    exact h.tracks.commit (kind_of_opened ho)
  leads := h.leads
  grants_eq u k' := by
    have hold := h.grants_eq u k'
    by_cases hu : u = t
    · subst hu
      rw [ho] at hold
      simpa [inPhase] using hold
    · simpa [hu] using hold
  performed_eq u k' := by
    rw [h.tracks.made_commit (kind_of_opened ho), h.performed_eq]
    by_cases hu : u = t
    · subst hu
      simp [inPhase, ho]
    · simp [hu, Ne.symm hu]
  waiting u k' j hj := h.waiting u k' j (update_none_iff.mp hj).2
  memory_eq := h.memory_eq
  numbered := h.numbered
  sees := h.sees

/-- **Every phase of every thread keeps the invariant.** -/
theorem step {σ' : State Value} (h : Consistent s initial σ) (hs : Step σ σ') :
    Consistent s initial σ' := by
  cases hs with
  | grant hidle hg => exact h.grant hidle hg
  | refuse _ hg =>
    have hsame := Location.reserve_of_not_grant hg
    simpa only [Location.poll, hsame] using h
  | read ho => exact h.perform ho σ.memory fun _ => rfl
  | write v ho => exact h.perform ho v fun hk => by cases hk
  | commit ho => exact h.commit ho

theorem of_reachable {es : List RecordedAccess} (h : Reachable es initial σ) :
    Consistent (accessOrder es) initial σ := by
  induction h with
  | refl => exact consistent_start es initial
  | tail _ hs ih => exact ih.step hs

/-! ### What accesses see -/

/-- The writes committed stay the same while a read is open. -/
theorem committed_step {σ' : State Value} (h : Consistent s initial σ) {b : Bool}
    (ho : σ.opened t = some ⟨.read, i, b⟩) (hs : Step σ σ') :
    σ'.location.committed = σ.location.committed := by
  cases hs with
  | grant _ _ => exact Location.committed_reserve ..
  | refuse _ _ => exact Location.committed_reserve ..
  | read _ => rfl
  | write _ _ => rfl
  | @commit u k j hu =>
    cases k with
    | read => rw [Location.commit_granted_read h.tracks.undiverged]
    | write => exact absurd (kind_of_opened ho) (h.tracks.no_reader (kind_of_opened hu))

/-- An operation that comes after another of its thread and kind has a greater index. -/
theorem index_lt {p q r : List (Operation Value)} {x y : Operation Value}
    (h : Consistent s initial σ) (hlog : σ.log = p ++ x :: (q ++ y :: r))
    (ha : x.access = y.access) : x.index < y.index := by
  have hx := h.numbered p x _ hlog
  have hy := h.numbered (p ++ x :: q) y r (by simp [hlog])
  rw [hx, hy, ← ha]
  simp [orderOfLog]

/-- A granted access is performed once. -/
theorem operation_unique {x y : Operation Value} (h : Consistent s initial σ) (hx : x ∈ σ.log)
    (hy : y ∈ σ.log) (ha : x.access = y.access) (hi : x.index = y.index) : x = y := by
  -- of two different places in the log, the first has the smaller index
  obtain ⟨p, q, hlog⟩ := List.append_of_mem hx
  rw [hlog] at hy
  rcases List.mem_append.mp hy with hy | hy
  · obtain ⟨p, r, rfl⟩ := List.append_of_mem hy
    have := h.index_lt (p := p) (q := r) (r := q) (by simp [hlog]) ha.symm
    omega
  · rcases List.mem_cons.mp hy with rfl | hy
    · rfl
    · obtain ⟨q, r, rfl⟩ := List.append_of_mem hy
      have := h.index_lt hlog ha
      omega

/-- A read has the counterpart of its index among the recorded reads of its thread, and
the same writers before it as that one. -/
theorem recorded_read {es : List RecordedAccess} {p q : List (Operation Value)} {j : Nat}
    {v : Value} (h : Consistent (accessOrder es) initial σ)
    (hlog : σ.log = p ++ ⟨⟨t, .read⟩, j, v⟩ :: q) :
    ∃ before e after, es = before ++ e :: after ∧ e.access = ⟨t, .read⟩ ∧
      (accessOrder before).count ⟨t, .read⟩ = j ∧
      writersOf (accessOrder before) = writersOf (orderOfLog p) := by
  -- in the rearrangement that the log leads, the read stands behind `p`
  obtain ⟨s', hs, r, hr⟩ := h.leads
  have hs' : s' = orderOfLog p ++ ⟨t, .read⟩ :: (orderOfLog q ++ r) := by
    rw [← hr, hlog]
    simp [orderOfLog]
  have hj : j = (orderOfLog p).count ⟨t, .read⟩ := h.numbered p _ q hlog
  have hlt : j < (accessOrder es).count ⟨t, .read⟩ := by
    rw [hs.perm.count_eq, hs', hj]
    simp
  obtain ⟨before, e, after, rfl, he, hc⟩ := exists_place_of_lt_count hlt
  have hplace : accessOrder (before ++ e :: after) =
      accessOrder before ++ ⟨t, .read⟩ :: accessOrder after := by
    rw [accessOrder_append, ← he]
    rfl
  exact ⟨before, e, after, rfl, he, hc, hs.writersOf_before_read hplace hs' (hc.trans hj)⟩

/-- **A read returns what its recorded write stored.** -/
theorem read_returns {es : List RecordedAccess} {j : Nat} {v : Value}
    (h : Consistent (accessOrder es) initial σ) (hx : ⟨⟨t, .read⟩, j, v⟩ ∈ σ.log) :
    ∃ before e after, es = before ++ e :: after ∧ e.access = ⟨t, .read⟩ ∧
      (accessOrder before).count ⟨t, .read⟩ = j ∧
      (((∀ e ∈ before, e.kind = .read) ∧ v = initial) ∨
        ∃ early w between, before = early ++ w :: between ∧ w.kind = .write ∧
          (∀ e ∈ between, e.kind = .read) ∧
          ⟨⟨w.thread, .write⟩, (accessOrder early).count ⟨w.thread, .write⟩, v⟩ ∈ σ.log) := by
  obtain ⟨p, q, hlog⟩ := List.append_of_mem hx
  obtain ⟨before, e, after, rfl, he, hc, hw⟩ := h.recorded_read hlog
  refine ⟨before, e, after, rfl, he, hc, ?_⟩
  rw [show v = contents initial p from h.sees p _ q hlog rfl]
  rcases contents_eq initial p with ⟨hnone, hv⟩ | ⟨p', x, q', rfl, hx, hlast, hv⟩
  · -- no write was performed before the read, and none was recorded before it
    refine .inl ⟨fun e he => ?_, hv⟩
    have hreads := readsOnly_iff.mpr (hw.trans hnone)
    exact hreads e.access (List.mem_map_of_mem he)
  · -- the last write before the read has the index of the last one recorded before it
    obtain ⟨early, w, between, rfl, hwrite, hreads, hearly⟩ :=
      exists_last_write (hw.trans hlast)
    obtain ⟨hthread, hkind⟩ := Access.mk.inj hwrite
    refine .inr ⟨early, w, between, rfl, hkind, hreads, ?_⟩
    have haccess : x.access = ⟨w.thread, .write⟩ := by rw [hthread, ← hx]
    have hindex := h.numbered p' x (q' ++ ⟨⟨t, .read⟩, j, v⟩ :: q) (by simp [hlog])
    rw [haccess, ← count_writersOf, ← hearly, count_writersOf] at hindex
    rw [hv, ← hindex, ← haccess, hlog]
    simp

end Consistent

/-- **Reads are causal although accesses overlap.**  In every state that phases of any
threads can reach: at most one write is open; no read is open while a write is; the
writes committed stay the same while a read is open; and the `j`-th granted read of a
thread returns what was stored by the write that its `j`-th recorded read comes after —
the `m`-th granted write of a thread being that thread's `m`-th recorded one — or what
was in memory at first, if no write was recorded before it. -/
theorem overlapping_reads_causal (es : List RecordedAccess) (initial : Value) (σ : State Value)
    (h : Reachable es initial σ) :
    (∀ t u i j b c, σ.opened t = some ⟨.write, i, b⟩ → σ.opened u = some ⟨.write, j, c⟩ → t = u) ∧
    (∀ t u i j b c, σ.opened t = some ⟨.write, i, b⟩ → σ.opened u ≠ some ⟨.read, j, c⟩) ∧
    (∀ t i b σ', σ.opened t = some ⟨.read, i, b⟩ → Step σ σ' →
      σ'.location.committed = σ.location.committed) ∧
    (∀ x ∈ σ.log, ∀ y ∈ σ.log, x.access = y.access → x.index = y.index → x = y) ∧
    (∀ t j v, ⟨⟨t, .read⟩, j, v⟩ ∈ σ.log →
      ∃ before e after, es = before ++ e :: after ∧ e.access = ⟨t, .read⟩ ∧
        (accessOrder before).count ⟨t, .read⟩ = j ∧
        (((∀ e ∈ before, e.kind = .read) ∧ v = initial) ∨
          ∃ early w between, before = early ++ w :: between ∧ w.kind = .write ∧
            (∀ e ∈ between, e.kind = .read) ∧
            ⟨⟨w.thread, .write⟩, (accessOrder early).count ⟨w.thread, .write⟩, v⟩ ∈ σ.log)) := by
  have hc := Consistent.of_reachable h
  refine ⟨fun t u i j b c ht hu => ?_, fun t u i j b c ht hu => ?_, fun t i b σ' ht hs => ?_,
    fun x hx y hy => hc.operation_unique hx hy, fun t j v => hc.read_returns⟩
  · exact hc.tracks.one_writer (Consistent.kind_of_opened ht) (Consistent.kind_of_opened hu)
  · exact hc.tracks.no_reader (Consistent.kind_of_opened ht) (Consistent.kind_of_opened hu)
  · exact hc.committed_step ht hs

/-- A thread writes, and another one reads. -/
def handover : List RecordedAccess := [⟨1, .write, none⟩, ⟨2, .read, none⟩]

theorem handed_over_value_is_read : ∃ σ : State Nat, Reachable handover 0 σ ∧
    ⟨⟨2, .read⟩, 0, 7⟩ ∈ σ.log ∧ ∃ x ∈ σ.log, x.access.kind = .write ∧ x.value = 7 := by
  have hwrite : Reachable handover 0 _ :=
    ((Relation.ReflTransGen.single (.grant (t := 1) (k := .write) rfl rfl)).tail
      (.write (t := 1) 7 rfl)).tail (.commit (t := 1) rfl)
  have hread := (hwrite.tail (.grant (t := 2) (k := .read) rfl rfl)).tail (.read (t := 2) rfl)
  refine ⟨_, hread, List.mem_of_getElem? (i := 1) rfl, ?_⟩
  obtain ⟨-, -, -, -, hreturns⟩ := overlapping_reads_causal handover 0 _ hread
  obtain ⟨before, e, after, -, -, -, hvalue⟩ :=
    hreturns 2 0 7 (List.mem_of_getElem? (i := 1) rfl)
  rcases hvalue with ⟨-, hinitial⟩ | ⟨early, w, between, -, -, -, hstored⟩
  · cases hinitial
  · exact ⟨_, hstored, rfl, rfl⟩

end AccessReplay.Overlap
