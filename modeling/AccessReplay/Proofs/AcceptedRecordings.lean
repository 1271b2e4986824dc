import AccessReplay.Proofs.RecordedLocations
import Mathlib.Data.List.Basic

/-!
# What an accepted dump guarantees

A dump is accepted as a recording only if its threads have different runtime ids and
different places, and if every access was made by one of them (`accepted_ofDump`).
Both checks go through a list and stop at the first fault, so each guarantee is an
invariant of the part that was gone through.
-/
namespace AccessReplay

section Loops
variable {α β ε : Type}

theorem bind_eq_ok {x : Except ε α} {f : α → Except ε β} {b : β} :
    x >>= f = .ok b ↔ ∃ a, x = .ok a ∧ f a = .ok b := by
  cases x <;> simp [bind, Except.bind]

/-- What a loop that may fail keeps at each step holds of what it returns. -/
theorem foldlM_keeps {f : β → α → Except ε β} {l : List α} {init result : β}
    (P : β → Prop) (keep : ∀ a ∈ l, ∀ b b', P b → f b a = .ok b' → P b') (start : P init)
    (h : l.foldlM f init = .ok result) : P result := by
  induction l generalizing init with
  | nil =>
    obtain rfl : init = result := by simpa [pure, Except.pure] using h
    exact start
  | cons a l ih =>
    rw [List.foldlM_cons] at h
    obtain ⟨next, ha, hrest⟩ := bind_eq_ok.mp h
    exact ih (fun b hb => keep b (List.mem_cons_of_mem _ hb))
      (keep a List.mem_cons_self _ _ start ha) hrest

end Loops

/-- What is entered for a location in a dump. -/
def LocationEntry.recorded (l : LocationEntry) : RecordedLocation := ⟨l.className, l.events⟩

namespace Recording

/-- Threads that are listed by their places join the tree as they are listed. -/
theorem growTree_of_pairwise {entries : List ThreadEntry}
    (h : entries.Pairwise (positionLe · ·)) : growTree entries = entries.foldlM addThread [] := by
  rw [growTree, List.mergeSort_of_pairwise h]

/-- The threads of a recording are told apart by their runtime ids and by their places,
and made all the accesses. -/
structure Accepted (r : Recording) : Prop where
  raws : (r.threads.map ThreadId.raw).Nodup
  positions : (r.threads.map ThreadId.position).Nodup
  made_by : ∀ key, ∀ e ∈ r.accesses.eventsAt key, e.thread ∈ r.threads.map ThreadId.raw

/-! ## Threads -/

/-- A thread that gets its place has the id and the place that were dumped, neither of
which was there before. -/
theorem addThread_eq_ok {known known' : List ThreadId} {t : ThreadEntry}
    (h : addThread known t = .ok known') :
    ∃ new : ThreadId, known' = known ++ [new] ∧ new.raw = t.id ∧ new.position = t.position ∧
      t.id ∉ known.map ThreadId.raw ∧ t.position ∉ known.map ThreadId.position := by
  unfold addThread at h
  split at h
  · cases h
  · next hraw =>
    split at h
    · cases h
    · next hposition =>
      have hfresh : t.id ∉ known.map ThreadId.raw ∧
          t.position ∉ known.map ThreadId.position := by
        constructor
        · simpa using hraw
        · simpa using hposition
      split at h
      · next hroot =>
        cases h
        refine ⟨.root t.id, rfl, rfl, ?_, hfresh⟩
        simpa [ThreadId.position] using (List.getLast?_eq_none_iff.mp hroot).symm
      · next index hlast =>
        split at h
        · next parent hparent =>
          cases h
          -- the parent's place is the child's without its last index
          refine ⟨parent.child t.id index, rfl, rfl, ?_, hfresh⟩
          have hp : parent.position = t.position.dropLast := by
            simpa using List.find?_some hparent
          rw [ThreadId.position_child, hp]
          exact List.dropLast_append_getLast? index hlast
        · cases h

theorem growTree_nodup {entries : List ThreadEntry} {threads : List ThreadId}
    (h : growTree entries = .ok threads) :
    (threads.map ThreadId.raw).Nodup ∧ (threads.map ThreadId.position).Nodup := by
  refine foldlM_keeps
    (fun known => (known.map ThreadId.raw).Nodup ∧ (known.map ThreadId.position).Nodup)
    ?_ (by simp) h
  rintro t - known known' ⟨hraws, hpositions⟩ ht
  obtain ⟨new, rfl, hr, hp, hraw, hposition⟩ := addThread_eq_ok ht
  constructor
  · simpa [hr, hraws, List.nodup_append] using hraw
  · simpa [hp, hpositions, List.nodup_append] using hposition

/-! ## Accesses -/

/-- Enters a location into a ledger. -/
def enter (ledger : AccessLedger) (l : LocationEntry) : AccessLedger :=
  ledger.insert l.key l.recorded

theorem eventsAt_enter (ledger : AccessLedger) (l : LocationEntry) (key : LocationKey) :
    (enter ledger l).eventsAt key = if key = l.key then l.events else ledger.eventsAt key := by
  by_cases hk : key = l.key
  · simp [AccessLedger.eventsAt, enter, LocationEntry.recorded, hk]
  · simp [AccessLedger.eventsAt, enter, Std.ExtTreeMap.getElem?_insert, hk, Ne.symm hk]

/-- A location is entered if it was only accessed by known threads and its key is new. -/
theorem addLocation_eq_ok_iff {threads : List ThreadId} {ledger ledger' : AccessLedger}
    {l : LocationEntry} : addLocation threads ledger l = .ok ledger' ↔
    (∀ e ∈ l.events, e.thread ∈ threads.map ThreadId.raw) ∧ l.key ∉ ledger ∧
      ledger' = enter ledger l := by
  unfold addLocation
  split
  · next e hstranger =>
    have hmem := List.mem_of_find?_eq_some hstranger
    have hnot : e.thread ∉ threads.map ThreadId.raw := by
      simpa using List.find?_some hstranger
    simp only [reduceCtorEq, false_iff]
    intro h
    exact hnot (h.1 e hmem)
  · next hnone =>
    have hknown : ∀ e ∈ l.events, e.thread ∈ threads.map ThreadId.raw := by
      simpa using hnone
    by_cases hkey : l.key ∈ ledger
    · simp [AccessLedger.add?, hkey]
    · simpa [AccessLedger.add?, hkey, enter, LocationEntry.recorded, eq_comm] using
        fun _ => hknown

/-! ## Dumps -/

/-- What a dump has to give for a recording. -/
theorem ofDump_eq_ok_iff {d : Dump} {r : Recording} : ofDump d = .ok r ↔
    growTree d.threads = .ok r.threads ∧ r.root.isRoot = true ∧
    d.locations.foldlM (addLocation r.threads) ∅ = .ok r.accesses ∧
    r.catalogue = d.sharedFields := by
  unfold ofDump
  rw [bind_eq_ok]
  constructor
  · rintro ⟨threads, hgrow, h⟩
    cases threads with
    | nil => cases h
    | cons root others =>
      dsimp only at h
      split at h
      · next hroot =>
        obtain ⟨ledger, hledger, h⟩ := bind_eq_ok.mp h
        cases h
        exact ⟨hgrow, hroot, hledger, rfl⟩
      · cases h
  · rintro ⟨hgrow, hroot, hledger, hcatalogue⟩
    refine ⟨r.threads, hgrow, ?_⟩
    simp only [threads] at hledger ⊢
    rw [if_pos hroot, bind_eq_ok]
    exact ⟨r.accesses, hledger, by rw [← hcatalogue]; rfl⟩

/-- **An accepted dump tells its threads apart and knows them all.** -/
theorem accepted_ofDump {d : Dump} {r : Recording} (h : ofDump d = .ok r) : r.Accepted := by
  obtain ⟨hgrow, -, hledger, -⟩ := ofDump_eq_ok_iff.mp h
  obtain ⟨hraws, hpositions⟩ := growTree_nodup hgrow
  refine ⟨hraws, hpositions, ?_⟩
  refine foldlM_keeps (fun ledger : AccessLedger =>
    ∀ key, ∀ e ∈ ledger.eventsAt key, e.thread ∈ r.threads.map ThreadId.raw)
    ?_ (by simp [AccessLedger.eventsAt]) hledger
  intro l _ ledger ledger' hkeep hl key e he
  obtain ⟨hknown, -, rfl⟩ := addLocation_eq_ok_iff.mp hl
  rw [eventsAt_enter] at he
  split at he
  · exact hknown e he
  · exact hkeep key e he

end Recording
end AccessReplay
