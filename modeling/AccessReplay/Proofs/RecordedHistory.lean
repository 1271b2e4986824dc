import AccessReplay.Proofs.AcceptedRecordings
import AccessReplay.Simulation.Plan
import Mathlib.Data.List.Nodup

/-!
# The history of a recording

Where every access has a place in the whole recording, the accesses of all locations
form one order, the `history`.  It shows in two kinds of parts: what was done at a
location, and what a thread did.  If the places agree with the orders of the locations
(`Sequenced`), the first are the recorded orders (`atLocation_history`) and the second
are what a plan has the threads do (`planned_eq`).

So there is one order that all threads' plans follow and that every location wants.  If
threads have come up to different points of their plans, the first access of that order
that is left to make is the next one of its thread (`exists_frontier`).
-/
namespace AccessReplay

open Plan (PlacedAccess placed seqLe)

/-- What a simulated thread does, as an access to make. -/
def SimulatedAccess.located (a : SimulatedAccess) : LocatedAccess := ⟨⟨a.object, a.field⟩, a.kind⟩

/-! ## Parts of an order -/

/-- What is done at a location in an order of placed accesses. -/
def atLocation (key : LocationKey) (h : List PlacedAccess) : List Access :=
  (h.filter (·.1 == key)).map fun x => x.2.access

/-- What a thread does in an order of placed accesses. -/
def byThread (t : RuntimeId) (h : List PlacedAccess) : List LocatedAccess :=
  (h.filter (·.2.thread == t)).map fun x => ⟨x.1, x.2.kind⟩

section Parts
variable {h p q : List PlacedAccess} {x : PlacedAccess} {key : LocationKey} {t : RuntimeId}

@[simp] theorem atLocation_append (key : LocationKey) (p q : List PlacedAccess) :
    atLocation key (p ++ q) = atLocation key p ++ atLocation key q := by
  simp [atLocation]

@[simp] theorem atLocation_cons_self (x : PlacedAccess) (q : List PlacedAccess) :
    atLocation x.1 (x :: q) = x.2.access :: atLocation x.1 q := by
  simp [atLocation]

@[simp] theorem byThread_cons_self (x : PlacedAccess) (q : List PlacedAccess) :
    byThread x.2.thread (x :: q) = ⟨x.1, x.2.kind⟩ :: byThread x.2.thread q := by
  simp [byThread]

theorem byThread_cons_of_ne (h : t ≠ x.2.thread) : byThread t (x :: q) = byThread t q := by
  simp [byThread, h.symm]

/-- The accesses of a thread to a location are counted alike in both parts. -/
theorem count_atLocation (key : LocationKey) (t : RuntimeId) (k : AccessKind)
    (h : List PlacedAccess) :
    (atLocation key h).count ⟨t, k⟩ = (byThread t h).count ⟨key, k⟩ := by
  simp only [atLocation, byThread, List.count, List.countP_map, List.countP_filter]
  refine List.countP_congr fun x _ => ?_
  simp [RecordedAccess.access, and_comm, and_assoc]

/-- **The first access that is left to make is its thread's next one.** -/
theorem exists_frontier {todo : RuntimeId → List LocatedAccess}
    (hsuffix : ∀ t, todo t <:+ byThread t h) (hleft : ∃ t, todo t ≠ []) :
    ∃ p x q, h = p ++ x :: q ∧ todo x.2.thread = byThread x.2.thread (x :: q) ∧
      ∀ t, todo t <:+ byThread t (x :: q) := by
  induction h with
  | nil =>
    obtain ⟨t, ht⟩ := hleft
    exact absurd (List.suffix_nil.mp (hsuffix t)) ht
  | cons x h ih =>
    by_cases hx : todo x.2.thread = byThread x.2.thread (x :: h)
    · exact ⟨[], x, h, rfl, hx, hsuffix⟩
    · -- the thread of the first access has made it, so all that is left is in the rest
      have hrest : ∀ t, todo t <:+ byThread t h := by
        intro t
        by_cases ht : t = x.2.thread
        · subst ht
          have := hsuffix x.2.thread
          rw [byThread_cons_self] at this hx
          exact (List.suffix_cons_iff.mp this).resolve_left hx
        · exact byThread_cons_of_ne ht ▸ hsuffix t
      obtain ⟨p, y, q, rfl, hy⟩ := ih hrest
      exact ⟨x :: p, y, q, rfl, hy⟩

end Parts

/-! ## The accesses of a ledger -/

/-- A ledger enters a location once. -/
theorem AccessLedger.toList_filter_key (ledger : AccessLedger) (key : LocationKey) :
    ledger.toList.filter (·.1 == key) = ledger[key]?.toList.map (Prod.mk key) := by
  cases hl : ledger[key]? with
  | none =>
    refine List.filter_eq_nil_iff.mpr ?_
    rintro ⟨k, location⟩ hm
    rw [Std.ExtTreeMap.mem_toList_iff_getElem?_eq_some] at hm
    simp only [beq_iff_eq]
    rintro rfl
    rw [hl] at hm
    cases hm
  | some location =>
    have hm : (key, location) ∈ ledger.toList :=
      Std.ExtTreeMap.mem_toList_iff_getElem?_eq_some.mpr hl
    have hdistinct := Std.ExtTreeMap.distinct_keys_toList (t := ledger)
    obtain ⟨p, q, hpq⟩ := List.append_of_mem hm
    rw [hpq, List.pairwise_append, List.pairwise_cons] at hdistinct
    obtain ⟨-, ⟨hafter, -⟩, hbefore⟩ := hdistinct
    have hp : p.filter (·.1 == key) = [] := by
      refine List.filter_eq_nil_iff.mpr fun entry he => ?_
      simpa using hbefore entry he (key, location) List.mem_cons_self
    have hq : q.filter (·.1 == key) = [] := by
      refine List.filter_eq_nil_iff.mpr fun entry he => ?_
      have hne := hafter entry he
      simp only [Std.compare_eq_iff_eq] at hne
      simpa using Ne.symm hne
    simp [hpq, hp, hq]

namespace Plan

/-- The placed accesses of a location are those entered for it. -/
theorem placed_filter_key (ledger : AccessLedger) (key : LocationKey) :
    (placed ledger).filter (·.1 == key) = (ledger.eventsAt key).map (Prod.mk key) := by
  have hentries : (placed ledger).filter (·.1 == key) =
      (ledger.toList.filter (·.1 == key)).flatMap fun entry =>
        entry.2.events.map (Prod.mk entry.1) := by
    unfold placed
    induction ledger.toList with
    | nil => rfl
    | cons entry entries ih =>
      rw [List.flatMap_cons, List.filter_append, ih]
      by_cases hk : entry.1 = key
      · simp [List.filter_map, Function.comp_def, hk]
      · simp [List.filter_map, Function.comp_def, beq_false_of_ne hk]
  rw [hentries, ledger.toList_filter_key]
  cases hl : ledger[key]? <;> simp [AccessLedger.eventsAt, hl]

theorem mem_placed {ledger : AccessLedger} {key : LocationKey} {e : RecordedAccess} :
    (key, e) ∈ placed ledger ↔ e ∈ ledger.eventsAt key := by
  have h : (key, e) ∈ (placed ledger).filter (·.1 == key) ↔ (key, e) ∈ placed ledger := by simp
  rw [← h, placed_filter_key]
  simp

/-! ## The order of a plan -/

/-- Sorting puts accesses in the order of their places. -/
theorem pairwise_mergeSort (l : List PlacedAccess) : (l.mergeSort seqLe).Pairwise (seqLe · ·) := by
  refine List.pairwise_mergeSort (fun x y z hxy hyz => ?_) (fun x y => ?_) l
  · simp only [seqLe, decide_eq_true_eq] at hxy hyz ⊢
    exact UInt64.le_trans hxy hyz
  · simpa [seqLe] using UInt64.le_total ..

/-- Where every access has a place, these decide the order alone. -/
theorem inOrder_eq_mergeSort {l : List PlacedAccess} (h : ∀ x ∈ l, x.2.seq.isSome) :
    inOrder l = l.mergeSort seqLe := by
  have hnone : l.filter (·.2.seq.isNone) = [] :=
    List.filter_eq_nil_iff.mpr fun x hx => by simpa using Option.isSome_iff_ne_none.mp (h x hx)
  rw [inOrder, List.filter_eq_self.mpr h, hnone, List.append_nil]

/-- A plan has each recorded place do what its thread was recorded to do. -/
theorem getD_accesses {r : Recording} {p : Plan} (h : ofRecording r = .ok p)
    (hpositions : (r.threads.map ThreadId.position).Nodup) {t : ThreadId} (ht : t ∈ r.threads) :
    p.accesses.getD t.position [] = accessesOf r.accesses t.raw := by
  unfold ofRecording at h
  split at h
  · cases h
  · split at h
    · cases h
    · cases h
      refine Std.ExtTreeMap.getD_ofList_of_mem (k := t.position) Std.compare_self ?_
        (List.mem_map_of_mem ht)
      simpa [List.pairwise_map, List.Nodup] using hpositions

end Plan

namespace Recording

/-- Every access has a place in the whole recording, no two have the same, and at each
location the accesses are listed by these places. -/
structure Sequenced (r : Recording) : Prop where
  every : ∀ x ∈ placed r.accesses, x.2.seq.isSome
  distinct : ((placed r.accesses).map (·.2.seq)).Nodup
  increasing : ∀ key, (r.accesses.eventsAt key).Pairwise (·.seq < ·.seq)

/-- The accesses of all locations by their places in the whole recording. -/
def history (r : Recording) : List PlacedAccess := (placed r.accesses).mergeSort seqLe

/-- What a plan has the recorded thread with a runtime id do. -/
def planned (r : Recording) (p : Plan) (raw : RuntimeId) : List LocatedAccess :=
  (r.threads.find? (·.raw == raw)).elim [] fun t =>
    (p.accesses.getD t.position []).map SimulatedAccess.located

variable {r : Recording} {p : Plan}

namespace Sequenced

theorem exists_seq (h : r.Sequenced) {x : PlacedAccess} (hx : x ∈ placed r.accesses) :
    ∃ n, x.2.seq = some n :=
  Option.isSome_iff_exists.mp (h.every x hx)

/-- No two accesses come no later than each other. -/
theorem seqLe_antisymm (h : r.Sequenced) {x y : PlacedAccess} (hx : x ∈ placed r.accesses)
    (hy : y ∈ placed r.accesses) (hxy : seqLe x y = true) (hyx : seqLe y x = true) : x = y := by
  refine List.inj_on_of_nodup_map h.distinct hx hy ?_
  obtain ⟨m, hm⟩ := h.exists_seq hx
  obtain ⟨n, hn⟩ := h.exists_seq hy
  simp only [seqLe, hm, hn, Option.getD_some, decide_eq_true_eq] at hxy hyx
  rw [hm, hn, UInt64.le_antisymm hxy hyx]

/-- Some of the accesses, listed by their places, stand in the history in that order. -/
theorem filter_history (h : r.Sequenced) {f : PlacedAccess → Bool} {q : List PlacedAccess}
    (hperm : q.Perm ((placed r.accesses).filter f)) (hsorted : q.Pairwise (seqLe · ·)) :
    r.history.filter f = q := by
  have hhistory := (List.mergeSort_perm (placed r.accesses) seqLe).filter f
  refine List.Perm.eq_of_pairwise (fun x y hx hy => ?_)
    ((Plan.pairwise_mergeSort _).filter f) hsorted (hhistory.trans hperm.symm)
  exact h.seqLe_antisymm (List.mem_of_mem_filter (hhistory.mem_iff.mp hx))
    (List.mem_of_mem_filter (hperm.mem_iff.mp hy))

/-- **At each location the history is the recorded order.** -/
theorem atLocation_history (h : r.Sequenced) (key : LocationKey) :
    atLocation key r.history = r.orderAt key := by
  have hpart : r.history.filter (·.1 == key) = (r.accesses.eventsAt key).map (Prod.mk key) := by
    refine h.filter_history (Plan.placed_filter_key .. ▸ .refl _) (List.pairwise_map.mpr ?_)
    refine (h.increasing key).imp_of_mem fun {x y} hx hy hlt => ?_
    obtain ⟨m, hm⟩ : ∃ m, x.seq = some m := h.exists_seq (Plan.mem_placed.mpr hx)
    obtain ⟨n, hn⟩ : ∃ n, y.seq = some n := h.exists_seq (Plan.mem_placed.mpr hy)
    rw [hm, hn, Option.some_lt_some] at hlt
    simpa [seqLe, hm, hn] using UInt64.le_of_lt hlt
  rw [atLocation, hpart, List.map_map]
  rfl

/-- **Each thread of a plan follows the history.** -/
theorem byThread_history (h : r.Sequenced) (t : RuntimeId) :
    byThread t r.history =
      (Plan.accessesOf r.accesses t).map SimulatedAccess.located := by
  have horder := Plan.inOrder_eq_mergeSort (l := (placed r.accesses).filter (·.2.thread == t))
    fun x hx => h.every x (List.mem_of_mem_filter hx)
  rw [byThread, h.filter_history (List.mergeSort_perm _ seqLe) (Plan.pairwise_mergeSort _),
    Plan.accessesOf, horder, List.map_map]
  rfl

end Sequenced

/-- **What a plan has a thread do is its part of the history.** -/
theorem planned_eq (ha : r.Accepted) (hs : r.Sequenced) (hp : Plan.ofRecording r = .ok p)
    (raw : RuntimeId) : r.planned p raw = byThread raw r.history := by
  unfold planned
  cases hfind : r.threads.find? (·.raw == raw) with
  | none =>
    -- no access was made by a thread that was not recorded
    have hnot : raw ∉ r.threads.map ThreadId.raw := by
      simpa using List.find?_eq_none.mp hfind
    refine Eq.symm (List.map_eq_nil_iff.mpr (List.filter_eq_nil_iff.mpr ?_))
    rintro ⟨key, e⟩ he
    rw [history, (List.mergeSort_perm ..).mem_iff, Plan.mem_placed] at he
    simp only [beq_iff_eq]
    rintro rfl
    exact hnot (ha.made_by key e he)
  | some t =>
    obtain rfl : t.raw = raw := by simpa using List.find?_some hfind
    have ht := List.mem_of_find?_eq_some hfind
    rw [hs.byThread_history, ← Plan.getD_accesses hp ha.positions ht]
    rfl

end Recording
end AccessReplay
