import AccessReplay.Proofs.ScheduleAnswers
import AccessReplay.Proofs.SequentialReplay
import Mathlib.Logic.Relation

/-!
# How long a verdict lasts

Threads ask one location for accesses and commit what they were granted, in any order, each with
at most one access open.

A thread that is told that its access can never be matched is told so again whatever the others
do: its accesses of that kind are used up, and only it could make more of them (`lasts`).  A thread
that is told to wait has an access left.  Once all open accesses are committed, the location
grants some access as long as any is left (`Tracks.exists_granted`), and each of them is one fewer
that the recorded order still has.  So there is a way for the others to go on after which the
thread need not wait any more (`exists_way`).
-/
namespace AccessReplay

/-- Two reasons are of one kind: at most the numbers in them differ. -/
inductive DivergenceReason.Alike : DivergenceReason → DivergenceReason → Prop
  | noRecordedRead (m n : Nat) : Alike (.noRecordedRead m) (.noRecordedRead n)
  | noRecordedWrite (m n : Nat) : Alike (.noRecordedWrite m) (.noRecordedWrite n)
  | staleRead (i j m n : Nat) : Alike (.staleRead i m) (.staleRead j n)
  | stalled (v w : Option RuntimeId) (m n : Nat) : Alike (.stalled v m) (.stalled w n)

/-! ## What a location that tracks its order can answer -/

namespace Location

variable {s : List Access} {opened : RuntimeId → Option AccessKind} {l : Location}
  {t : RuntimeId} {k : AccessKind} {a : Access}

/-- The reason for an access that can never be matched since the thread has none left. -/
def exhausted (l : Location) (t : RuntimeId) : AccessKind → DivergenceReason
  | .read => .noRecordedRead (l.reads.get t)
  | .write => .noRecordedWrite l.committed

/-- While the reads recorded before the last committed write are made, there is no other reason
for which an access can never be matched. -/
theorem Enforces.reason_eq {reason : DivergenceReason} (h : Enforces s l)
    (hge : (through l.committed s).count ⟨t, .read⟩ ≤ l.reads.get t)
    (hv : l.verdict t k = .diverged reason) : reason = l.exhausted t k := by
  cases k with
  | read =>
    have hused : s.count ⟨t, .read⟩ ≤ l.reads.get t :=
      (h.read_diverged_iff.mp ⟨reason, hv⟩).resolve_right (Nat.not_lt.mpr hge)
    obtain ⟨es, rfl, hes⟩ := h.schedule
    have hnone := (Schedule.sources_eq_none_iff es t (l.reads.get t)).mpr hused
    simpa [verdict, h.undiverged, hes, Schedule.judgeRead, hnone, exhausted] using hv.symm
  | write =>
    have hcases := Schedule.judgeWrite_cases l.schedule t l.committed l.writeOpen l.reads
    simp only [verdict, h.undiverged, Bool.false_eq_true, ↓reduceIte] at hv
    simpa [hv, exhausted] using hcases

namespace Tracks

/-- What a thread has open was recorded. -/
theorem mem_of_opened (h : Tracks s opened l) (ho : opened t = some k) :
    t ∈ s.map Access.thread := by
  have hmem : (⟨t, k⟩ : Access) ∈ s := by
    cases k with
    | read =>
      have hopen := h.read_open t ho
      have hle := count_through_le (l.committed + 1) s ⟨t, .read⟩
      exact List.count_pos_iff.mp (by omega)
    | write =>
      have hwriter := List.mem_of_getElem? (h.write_open t ho)
      rwa [← List.count_pos_iff, count_writersOf, List.count_pos_iff] at hwriter
  exact List.mem_map_of_mem hmem

/-- **Some access is granted** as long as one is left and none is open. -/
theorem exists_granted (h : Tracks s (fun _ => none) l) (hleft : made s l a < s.count a) :
    ∃ b : Access, l.verdict b.thread b.kind = .grant := by
  by_cases hreads : ∀ u, (through (l.committed + 1) s).count ⟨u, .read⟩ ≤ l.reads.get u
  · cases hnext : (writersOf s)[l.committed]? with
    | some w => exact ⟨⟨w, .write⟩, h.write_granted_iff.mpr ⟨hnext, h.writeOpen_eq, hreads⟩⟩
    | none =>
      -- all writes are committed and all reads are made, so nothing is left
      have hlast : (writersOf s).length ≤ l.committed := List.getElem?_eq_none_iff.mp hnext
      have hall : s.count a ≤ made s l a := by
        rcases a with ⟨u, _ | _⟩
        · have hu := hreads u
          rwa [through_of_lt (Nat.lt_succ_of_le hlast)] at hu
        · rw [made_write, ← count_writersOf, ← count_writersOf, writersOf_through,
            List.take_of_length_le hlast]
      omega
  · obtain ⟨u, hu⟩ := not_forall.mp hreads
    exact ⟨⟨u, .read⟩, h.read_granted_iff.mpr ⟨h.reads_ge u, Nat.lt_of_not_le hu⟩⟩

end Tracks
end Location

/-! ## Threads at one location -/

namespace Asking

/-- A location, the access that each thread has open, and the committed ones in order. -/
structure State where
  location : Location
  opened : RuntimeId → Option AccessKind
  committed : List Access

/-- A location before its first access. -/
def start (es : List RecordedAccess) : State := ⟨.ofEvents es, fun _ => none, []⟩

namespace State

/-- A thread was granted an access, which is now open. -/
def grant (σ : State) (t : RuntimeId) (k : AccessKind) : State :=
  { σ with
    location := (σ.location.poll t k).2
    opened := Function.update σ.opened t (some k) }

/-- A thread has committed its open access. -/
def commit (σ : State) (t : RuntimeId) (k : AccessKind) : State where
  location := σ.location.commit t k .granted
  opened := Function.update σ.opened t none
  committed := σ.committed ++ [⟨t, k⟩]

end State

/-- A thread goes on with an access. -/
inductive Advance : RuntimeId → State → State → Prop
  /-- It asks for an access while it has none open, and is granted it. -/
  | grant {σ t k} : σ.opened t = none → (σ.location.poll t k).1 = .grant →
      Advance t σ (σ.grant t k)
  /-- It commits the access that it was granted. -/
  | commit {σ t k} : σ.opened t = some k → Advance t σ (σ.commit t k)

/-- One step of a thread. -/
inductive Step : RuntimeId → State → State → Prop
  | advance {σ σ' t} : Advance t σ σ' → Step t σ σ'
  /-- It asks for an access in vain. -/
  | refuse {σ t k} : (σ.location.poll t k).1 ≠ .grant →
      Step t σ { σ with location := (σ.location.poll t k).2 }

/-- What can be reached by steps of any threads in any order. -/
def Reachable (es : List RecordedAccess) : State → Prop :=
  Relation.ReflTransGen (fun σ σ' => ∃ t, Step t σ σ') (start es)

/-- What can be reached from a state by steps of threads other than `t`. -/
def Others (t : RuntimeId) : State → State → Prop :=
  Relation.ReflTransGen fun σ σ' => ∃ u, u ≠ t ∧ Step u σ σ'

/-- What can be reached from a state by threads that go on with accesses. -/
def Advances : State → State → Prop := Relation.ReflTransGen fun σ σ' => ∃ u, Advance u σ σ'

/-- What is committed stays so. -/
theorem Advances.committed_prefix {σ σ' : State} (h : Advances σ σ') :
    σ.committed <+: σ'.committed := by
  induction h with
  | refl => exact List.prefix_refl _
  | tail _ hs ih =>
    obtain ⟨u, hs⟩ := hs
    cases hs with
    | grant _ _ => exact ih
    | commit _ => exact ih.trans (List.prefix_append ..)

/-- What holds whatever steps were taken so far. -/
structure Orderly (s : List Access) (σ : State) : Prop where
  tracks : σ.location.Tracks s σ.opened
  leads : Leads s σ.committed
  made_eq : ∀ a, σ.location.made s a = σ.committed.count a

theorem orderly_start (es : List RecordedAccess) : Orderly (accessOrder es) (start es) where
  tracks := Location.tracks_ofEvents es
  leads := leads_nil _
  made_eq a := by simp [start, Location.made_ofEvents]

namespace Orderly

variable {s : List Access} {σ σ' : State} {t u : RuntimeId} {k : AccessKind} {a : Access}

theorem length_writers (h : Orderly s σ) :
    (writersOf σ.committed).length = σ.location.committed := by
  rw [← h.tracks.length_writersOf_through]
  exact length_writersOf_eq fun u => (h.made_eq ⟨u, .write⟩).symm

/-- The recorded order admits an open access. -/
theorem admits_opened (h : Orderly s σ) (ho : σ.opened t = some k) :
    Admits s σ.committed ⟨t, k⟩ := by
  have hreads (u : RuntimeId) : σ.committed.count ⟨u, .read⟩ = σ.location.reads.get u :=
    (h.made_eq ⟨u, .read⟩).symm
  cases k with
  | read =>
    simp only [Admits, h.length_writers, hreads]
    exact ⟨h.tracks.reads_ge t, h.tracks.read_open t ho⟩
  | write =>
    simp only [Admits, h.length_writers, hreads]
    exact ⟨h.tracks.write_open t ho, h.tracks.ready (h.tracks.reserved.mpr ⟨t, ho⟩)⟩

/-! ### Steps -/

/-- What is granted is not made yet. -/
theorem made_grant (t : RuntimeId) (k : AccessKind) (a : Access) :
    (σ.grant t k).location.made s a = σ.location.made s a := Location.made_reserve ..

theorem made_commit (h : Orderly s σ) (ho : σ.opened t = some k) (a : Access) :
    (σ.commit t k).location.made s a =
      σ.location.made s a + if (⟨t, k⟩ : Access) = a then 1 else 0 := h.tracks.made_commit ho a

theorem advance (h : Orderly s σ) (hs : Advance t σ σ') : Orderly s σ' := by
  cases hs with
  | grant hidle hg =>
    refine ⟨h.tracks.grant hidle hg, h.leads, fun a => ?_⟩
    rw [made_grant, h.made_eq]
    rfl
  | commit ho =>
    refine ⟨h.tracks.commit ho, leads_concat_iff.mpr ⟨h.leads, h.admits_opened ho⟩, fun a => ?_⟩
    rw [h.made_commit ho, h.made_eq, State.commit, List.count_append, List.count_singleton]
    simp only [beq_iff_eq]

/-- An access that is asked for in vain changes nothing. -/
theorem refuse_eq (hv : (σ.location.poll t k).1 ≠ .grant) : (σ.location.poll t k).2 = σ.location :=
  Location.reserve_of_not_grant hv

/-- **Every step of every thread keeps the order.** -/
theorem step (h : Orderly s σ) (hs : Step t σ σ') : Orderly s σ' := by
  cases hs with
  | advance hs => exact h.advance hs
  | refuse hv => rwa [refuse_eq hv]

theorem of_reachable {es : List RecordedAccess} (h : Reachable es σ) :
    Orderly (accessOrder es) σ := by
  induction h with
  | refl => exact orderly_start es
  | tail _ hs ih =>
    obtain ⟨t, hs⟩ := hs
    exact ih.step hs

/-! ### Diverged is final -/

/-- Another thread's step makes none of this thread's accesses. -/
theorem made_step (h : Orderly s σ) (hs : Step u σ σ') (hne : u ≠ t) :
    σ'.location.made s ⟨t, k⟩ = σ.location.made s ⟨t, k⟩ := by
  cases hs with
  | refuse hv => rw [refuse_eq hv]
  | advance hs =>
    cases hs with
    | grant _ _ => exact made_grant ..
    | commit ho => simp [h.made_commit ho, hne]

/-- Whatever other threads do, a thread has made what it had. -/
theorem run_of_others (h : Orderly s σ) (hsteps : Others t σ σ') :
    Orderly s σ' ∧ ∀ k, σ'.location.made s ⟨t, k⟩ = σ.location.made s ⟨t, k⟩ := by
  induction hsteps with
  | refl => exact ⟨h, fun _ => rfl⟩
  | tail _ hs ih =>
    obtain ⟨u, hne, hs⟩ := hs
    exact ⟨ih.1.step hs, fun k => (ih.1.made_step hs hne).trans (ih.2 k)⟩

/-- **An access that can never be matched stays so**, for a reason of the same kind. -/
theorem lasts {reason : DivergenceReason} (h : Orderly s σ)
    (hv : (σ.location.poll t k).1 = .diverged reason) (hsteps : Others t σ σ') :
    ∃ reason', (σ'.location.poll t k).1 = .diverged reason' ∧ reason.Alike reason' := by
  obtain ⟨h', hmade⟩ := h.run_of_others hsteps
  have hused := h.tracks.diverged_iff_exhausted.mp ⟨reason, hv⟩
  rw [← hmade] at hused
  obtain ⟨reason', hv'⟩ := h'.tracks.diverged_iff_exhausted.mpr hused
  refine ⟨reason', hv', ?_⟩
  rw [h.tracks.reason_eq (h.tracks.reads_ge t) hv, h'.tracks.reason_eq (h'.tracks.reads_ge t) hv']
  cases k with
  | read => exact .noRecordedRead ..
  | write => exact .noRecordedWrite ..

/-! ### Waiting can end -/

/-- What listed threads have open can be committed, one after the other. -/
theorem exists_closed_of_listed (us : List RuntimeId) {σ : State} (hidle : σ.opened t = none)
    (hus : ∀ u, σ.opened u ≠ none → u ∈ us) :
    ∃ σ', Advances σ σ' ∧ Others t σ σ' ∧ σ'.opened = fun _ => none := by
  induction us generalizing σ with
  | nil =>
    refine ⟨σ, .refl, .refl, funext fun u => ?_⟩
    by_contra hu
    exact List.not_mem_nil (hus u hu)
  | cons v us ih =>
    have hrest : ∀ u, u ≠ v → σ.opened u ≠ none → u ∈ us := fun u hne hu =>
      (List.mem_cons.mp (hus u hu)).resolve_left hne
    cases hv : σ.opened v with
    | none =>
      refine ih hidle fun u hu => hrest u ?_ hu
      rintro rfl
      exact hu hv
    | some k =>
      have hvt : v ≠ t := by
        rintro rfl
        rw [hidle] at hv
        cases hv
      have hidle' : (σ.commit v k).opened t = none := by
        simpa [State.commit, hvt.symm] using hidle
      have hus' : ∀ u, (σ.commit v k).opened u ≠ none → u ∈ us := by
        intro u hu
        by_cases huv : u = v
        · simp [State.commit, huv] at hu
        · exact hrest u huv (by simpa [State.commit, huv] using hu)
      obtain ⟨σ', hsteps, hothers, hnone⟩ := ih hidle' hus'
      exact ⟨σ', .head ⟨v, .commit hv⟩ hsteps, .head ⟨v, hvt, .advance (.commit hv)⟩ hothers,
        hnone⟩

/-- The open accesses can be committed: only recorded threads have any. -/
theorem exists_closed (h : Orderly s σ) (hidle : σ.opened t = none) :
    ∃ σ', Advances σ σ' ∧ Others t σ σ' ∧ σ'.opened = fun _ => none := by
  refine exists_closed_of_listed (s.map Access.thread) hidle fun u hu => ?_
  obtain ⟨k, hk⟩ := Option.ne_none_iff_exists'.mp hu
  exact h.tracks.mem_of_opened hk

/-- While no access is open, one that is granted can be made as a whole. -/
theorem exists_made (h : Orderly s σ) (hclosed : σ.opened = fun _ => none)
    (hg : σ.location.verdict a.thread a.kind = .grant) :
    ∃ σ', Advances σ σ' ∧ Orderly s σ' ∧ σ'.opened = (fun _ => none) ∧
      σ'.committed = σ.committed ++ [a] := by
  have hgrant : Advance a.thread σ (σ.grant a.thread a.kind) := .grant (by rw [hclosed]) hg
  have hcommit : Advance a.thread (σ.grant a.thread a.kind)
      ((σ.grant a.thread a.kind).commit a.thread a.kind) := .commit (Function.update_self ..)
  refine ⟨_, .tail (.single ⟨_, hgrant⟩) ⟨_, hcommit⟩, (h.advance hgrant).advance hcommit, ?_, rfl⟩
  simp [State.grant, State.commit, hclosed]

/-- While no access is open and one is left, a way leads to where it is granted. -/
theorem exists_way_of_closed {σ : State} (h : Orderly s σ) (hclosed : σ.opened = fun _ => none)
    (hleft : σ.location.made s a < s.count a) :
    ∃ σ', Advances σ σ' ∧ Orderly s σ' ∧ σ'.opened = (fun _ => none) ∧
      σ'.location.verdict a.thread a.kind = .grant := by
  by_cases hg : σ.location.verdict a.thread a.kind = .grant
  · exact ⟨σ, .refl, h, hclosed, hg⟩
  · -- another access is granted, after which the recorded order has one fewer left
    have htracks : σ.location.Tracks s (fun _ => none) := hclosed ▸ h.tracks
    obtain ⟨b, hb⟩ := htracks.exists_granted hleft
    obtain ⟨σ₁, hsteps, h₁, hclosed₁, hmade⟩ := h.exists_made hclosed hb
    have hba : b ≠ a := by
      rintro rfl
      exact hg hb
    have hleft₁ : σ₁.location.made s a < s.count a := by
      rw [h.made_eq] at hleft
      rw [h₁.made_eq, hmade, List.count_append, List.count_singleton]
      simpa [hba] using hleft
    have hfewer : s.length - σ₁.committed.length < s.length - σ.committed.length := by
      have hlength := h₁.leads.length_le
      rw [hmade, List.length_append, List.length_singleton] at hlength ⊢
      omega
    obtain ⟨σ', hsteps', h', hclosed', hg'⟩ := exists_way_of_closed h₁ hclosed₁ hleft₁
    exact ⟨σ', hsteps.trans hsteps', h', hclosed', hg'⟩
termination_by s.length - σ.committed.length

/-- **A thread that is told to wait can be granted its access**: the open accesses are committed,
and then other recorded ones are made. -/
theorem exists_way (h : Orderly s σ) (hidle : σ.opened t = none)
    (hv : (σ.location.poll t k).1 = .wait) :
    ∃ σ', Advances σ σ' ∧ Orderly s σ' ∧ σ'.opened = (fun _ => none) ∧
      (σ'.location.poll t k).1 = .grant := by
  have hleft : σ.location.made s ⟨t, k⟩ < s.count ⟨t, k⟩ := by
    refine Nat.lt_of_not_le fun hused => ?_
    obtain ⟨reason, hdiverged⟩ := h.tracks.diverged_iff_exhausted.mpr hused
    have hwait : σ.location.verdict t k = .wait := hv
    rw [hwait] at hdiverged
    cases hdiverged
  obtain ⟨σ₁, hclose, hothers, hclosed⟩ := h.exists_closed hidle
  obtain ⟨h₁, hmade⟩ := h.run_of_others hothers
  rw [← hmade] at hleft
  obtain ⟨σ', hsteps, h', hclosed', hg⟩ := h₁.exists_way_of_closed hclosed hleft
  exact ⟨σ', hclose.trans hsteps, h', hclosed', hg⟩

end Orderly

/-- **Diverged is final, and waiting is honest.**  Let threads ask a location and commit what it
granted them, in any order and each with one access open at most.  Then for a thread that has none
open:

* if its access can never be matched, that is still the answer after any steps of other threads,
  with a reason of the same kind;
* if it has to wait, some threads can go on with accesses to where no access is open and this one
  is granted, and those committed by then, with this one behind them, lead a rearrangement of the
  recorded order;
* unless it is granted, asking for it changes nothing. -/
theorem diverged_final_wait_honest (es : List RecordedAccess) (σ : State) (h : Reachable es σ)
    (t : RuntimeId) (k : AccessKind) (hidle : σ.opened t = none) :
    (∀ reason, (σ.location.poll t k).1 = .diverged reason → ∀ σ', Others t σ σ' →
      ∃ reason', (σ'.location.poll t k).1 = .diverged reason' ∧ reason.Alike reason') ∧
    ((σ.location.poll t k).1 = .wait →
      ∃ σ', Advances σ σ' ∧ σ'.opened = (fun _ => none) ∧ (σ'.location.poll t k).1 = .grant ∧
        σ.committed <+: σ'.committed ∧ Leads (accessOrder es) (σ'.committed ++ [⟨t, k⟩])) ∧
    ((σ.location.poll t k).1 ≠ .grant → (σ.location.poll t k).2 = σ.location) := by
  have horderly := Orderly.of_reachable h
  refine ⟨fun reason hv σ' hsteps => horderly.lasts hv hsteps, fun hwait => ?_,
    Orderly.refuse_eq⟩
  obtain ⟨σ', hsteps, h', hclosed, hg⟩ := horderly.exists_way hidle hwait
  refine ⟨σ', hsteps, hclosed, hg, hsteps.committed_prefix, ?_⟩
  have hidle' : σ'.opened t = none := congrFun hclosed t
  have hopen := (h'.advance (.grant hidle' hg)).admits_opened (Function.update_self ..)
  exact leads_concat_iff.mpr ⟨h'.leads, hopen⟩

/-- A thread reads what another one writes. -/
def handedOver : List RecordedAccess := [⟨1, .write, none⟩, ⟨2, .read, none⟩]

/-- The write is granted and not committed yet. -/
def writing : State := (start handedOver).grant 1 .write

theorem reader_waits_for_writer : Reachable handedOver writing ∧ writing.opened 2 = none ∧
    (writing.location.poll 2 .read).1 = .wait ∧
    (∃ σ', Advances writing σ' ∧ (σ'.location.poll 2 .read).1 = .grant) ∧
    ∀ σ', Others 3 writing σ' →
      ∃ n, (σ'.location.poll 3 .read).1 = .diverged (.noRecordedRead n) := by
  have hreach : Reachable handedOver writing :=
    .single ⟨1, .advance (.grant rfl rfl)⟩
  have hwait : (writing.location.poll 2 .read).1 = .wait := by decide +kernel
  have hnone : (writing.location.poll 3 .read).1 = .diverged (.noRecordedRead 0) := by
    decide +kernel
  obtain ⟨-, hway, -⟩ := diverged_final_wait_honest handedOver writing hreach 2 .read rfl
  obtain ⟨hfinal, -, -⟩ := diverged_final_wait_honest handedOver writing hreach 3 .read rfl
  obtain ⟨σ', hsteps, -, hg, -⟩ := hway hwait
  refine ⟨hreach, rfl, hwait, ⟨σ', hsteps, hg⟩, fun σ'' hothers => ?_⟩
  obtain ⟨reason, hv, halike⟩ := hfinal _ hnone σ'' hothers
  cases halike with
  | noRecordedRead _ n => exact ⟨n, hv⟩

end Asking
end AccessReplay
