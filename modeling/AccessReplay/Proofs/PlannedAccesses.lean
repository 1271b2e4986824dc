import AccessReplay.Proofs.KeyedLists
import AccessReplay.Proofs.SimulatedObjects

/-!
# What a plan is made of

A recording lists its accesses location by location, a plan thread by thread.  Equal accesses are
told apart by where they were listed: an `Occurrence` is an access with its location and its index
there.  A plan has each recorded thread do each of its occurrences once, in an order (`Precedes`)
that leaves nothing open: the place in the whole recording decides, and the listing between those
that have the same place or none (`plan_complete`).

That equal places keep the order of the listing is what a stable sort gives
(`mergeSort_stable`).
-/
namespace AccessReplay

/-! ## Occurrences -/

/-- An access, with its location and its index among the accesses there. -/
structure Occurrence where
  key : LocationKey
  index : Nat
  access : RecordedAccess
deriving DecidableEq

namespace Occurrence

/-- The access as a plan takes it up. -/
def placed (o : Occurrence) : Plan.PlacedAccess := (o.key, o.access)

/-- The access as a simulated thread makes it. -/
def simulated (o : Occurrence) : SimulatedAccess := ⟨o.key.object, o.key.field, o.access.kind⟩

/-- Locations are listed by key, and the accesses to one of them as they were recorded. -/
def Listed (a b : Occurrence) : Prop :=
  compare a.key b.key = .lt ∨ a.key = b.key ∧ a.index < b.index

/-- Which of two accesses of a thread is made first: the one whose place in the whole recording is
before that of the other one, or that alone has a place, or else the one that is listed first. -/
def Precedes (a b : Occurrence) : Prop :=
  match a.access.seq, b.access.seq with
  | some m, some n => m < n ∨ m = n ∧ a.Listed b
  | some _, none => True
  | none, some _ => False
  | none, none => a.Listed b

/-- Does the first access come no later than the second one in the whole recording? -/
def seqLe (a b : Occurrence) : Bool := Plan.seqLe a.placed b.placed

variable {a b c : Occurrence}

theorem not_listed_self (a : Occurrence) : ¬a.Listed a := by
  rintro (h | ⟨-, h⟩)
  · rw [Std.compare_self] at h
    cases h
  · exact Nat.lt_irrefl _ h

theorem not_precedes_self (a : Occurrence) : ¬a.Precedes a := by
  cases hseq : a.access.seq with
  | none => simpa only [Precedes, hseq] using not_listed_self a
  | some m =>
    simp only [Precedes, hseq]
    rintro (hlt | ⟨-, hlisted⟩)
    · exact UInt64.lt_irrefl m hlt
    · exact not_listed_self a hlisted

theorem seqLe_trans (a b c : Occurrence) (hab : a.seqLe b = true) (hbc : b.seqLe c = true) :
    a.seqLe c := by
  simp only [seqLe, Plan.seqLe, decide_eq_true_eq] at hab hbc ⊢
  exact UInt64.le_trans hab hbc

theorem seqLe_total (a b : Occurrence) : a.seqLe b || b.seqLe a := by
  simpa [seqLe, Plan.seqLe] using UInt64.le_total ..

/-- Among accesses that have a place, stable sorting by it is the order of a plan. -/
theorem precedes_of_seqLe (ha : a.access.seq.isSome) (hb : b.access.seq.isSome)
    (hle : a.seqLe b = true) (hlisted : b.seqLe a = true → a.Listed b) : a.Precedes b := by
  obtain ⟨m, hm⟩ := Option.isSome_iff_exists.mp ha
  obtain ⟨n, hn⟩ := Option.isSome_iff_exists.mp hb
  simp only [seqLe, Plan.seqLe, placed, hm, hn, Option.getD_some, decide_eq_true_eq] at hle hlisted
  simp only [Precedes, hm, hn]
  rcases UInt64.lt_or_eq_of_le hle with hlt | heq
  · exact .inl hlt
  · exact .inr ⟨heq, hlisted (heq ▸ UInt64.le_refl _)⟩

end Occurrence

open Occurrence

/-- The occurrences of a ledger as they are listed. -/
def AccessLedger.occurrences (ledger : AccessLedger) : List Occurrence :=
  ledger.toList.flatMap fun entry => entry.2.events.zipIdx.map fun x => ⟨entry.1, x.2, x.1⟩

namespace AccessLedger

variable {ledger : AccessLedger} {o : Occurrence}

theorem map_placed_occurrences (ledger : AccessLedger) :
    ledger.occurrences.map placed = Plan.placed ledger := by
  simp only [occurrences, Plan.placed, List.map_flatMap, List.map_map]
  refine congrArg (List.flatMap · _) (funext fun entry => ?_)
  have hevents := congrArg (List.map (Prod.mk entry.1)) (List.zipIdx_map_fst 0 entry.2.events)
  rwa [List.map_map] at hevents

theorem mem_occurrences :
    o ∈ ledger.occurrences ↔ (ledger.eventsAt o.key)[o.index]? = some o.access := by
  simp only [occurrences, List.mem_flatMap, List.mem_map, List.mem_zipIdx_iff_getElem?]
  constructor
  · rintro ⟨⟨key, l⟩, hl, ⟨access, index⟩, hx, rfl⟩
    rw [eventsAt_of_getElem? (Std.ExtTreeMap.mem_toList_iff_getElem?_eq_some.mp hl)]
    exact hx
  · intro h
    cases hl : ledger[o.key]? with
    | none => simp [eventsAt, hl] at h
    | some l =>
      rw [eventsAt_of_getElem? hl] at h
      exact ⟨(o.key, l), Std.ExtTreeMap.mem_toList_iff_getElem?_eq_some.mpr hl,
        (o.access, o.index), h, rfl⟩

theorem pairwise_occurrences (ledger : AccessLedger) : ledger.occurrences.Pairwise Listed := by
  refine List.pairwise_flatMap.mpr ⟨fun entry _ => ?_, ?_⟩
  · refine List.pairwise_map.mpr ?_
    have hindex : (entry.2.events.zipIdx.map Prod.snd).Pairwise (· < ·) := by
      rw [List.zipIdx_map_snd]
      exact List.pairwise_lt_range' 1
    exact (List.pairwise_map.mp hindex).imp fun hlt => .inr ⟨rfl, hlt⟩
  · refine ledger.ordered_keys_toList.imp fun hlt a ha b hb => ?_
    obtain ⟨-, -, rfl⟩ := List.mem_map.mp ha
    obtain ⟨-, -, rfl⟩ := List.mem_map.mp hb
    exact .inl hlt

/-- The occurrences of a thread in the order in which a plan has it make them. -/
def madeBy (ledger : AccessLedger) (raw : RuntimeId) : List Occurrence :=
  let mine := ledger.occurrences.filter (·.access.thread == raw)
  (mine.filter (·.access.seq.isSome)).mergeSort Occurrence.seqLe ++
    mine.filter (·.access.seq.isNone)

variable {raw : RuntimeId}

theorem mem_madeBy : o ∈ ledger.madeBy raw ↔
    (ledger.eventsAt o.key)[o.index]? = some o.access ∧ o.access.thread = raw := by
  rw [← mem_occurrences]
  cases hseq : o.access.seq <;> simp [madeBy, hseq]

theorem pairwise_madeBy (ledger : AccessLedger) (raw : RuntimeId) :
    (ledger.madeBy raw).Pairwise Precedes := by
  have hlisted := (pairwise_occurrences ledger).filter (·.access.thread == raw)
  refine List.pairwise_append.mpr ⟨?_, ?_, fun a ha b hb => ?_⟩
  · -- those that have a place
    have hsorted := mergeSort_stable seqLe_trans seqLe_total
      (hlisted.filter (·.access.seq.isSome))
    refine hsorted.imp_of_mem fun {a b} ha hb h => ?_
    have ha' := (List.mem_filter.mp (List.mem_mergeSort.mp ha)).2
    have hb' := (List.mem_filter.mp (List.mem_mergeSort.mp hb)).2
    exact precedes_of_seqLe ha' hb' h.1 h.2
  · -- those that have none
    refine (hlisted.filter (·.access.seq.isNone)).imp_of_mem fun {a b} ha hb h => ?_
    have ha' := Option.isNone_iff_eq_none.mp (List.mem_filter.mp ha).2
    have hb' := Option.isNone_iff_eq_none.mp (List.mem_filter.mp hb).2
    simpa only [Precedes, ha', hb'] using h
  · obtain ⟨m, hm⟩ :=
      Option.isSome_iff_exists.mp (List.mem_filter.mp (List.mem_mergeSort.mp ha)).2
    have hnone := Option.isNone_iff_eq_none.mp (List.mem_filter.mp hb).2
    simp only [Precedes, hm, hnone]

theorem nodup_madeBy (ledger : AccessLedger) (raw : RuntimeId) : (ledger.madeBy raw).Nodup := by
  refine (pairwise_madeBy ledger raw).imp ?_
  rintro a b h rfl
  exact not_precedes_self a h

/-- A plan takes up the occurrences in that order. -/
theorem map_placed_madeBy (r : Recording) (raw : RuntimeId) :
    (r.accesses.madeBy raw).map placed = Plan.recordedBy r raw := by
  have hsort (l : List Occurrence) : (l.mergeSort Occurrence.seqLe).map placed =
      (l.map placed).mergeSort Plan.seqLe :=
    List.map_mergeSort fun _ _ _ _ => rfl
  simp only [madeBy, List.map_append, hsort, Plan.recordedBy, Plan.inOrder,
    ← map_placed_occurrences, List.filter_map]
  rfl

/-- The simulated accesses of a thread are its occurrences in that order. -/
theorem accessesOf_eq (r : Recording) (raw : RuntimeId) :
    Plan.accessesOf r.accesses raw = (r.accesses.madeBy raw).map simulated := by
  have hplaced := map_placed_madeBy r raw
  rw [Plan.recordedBy] at hplaced
  rw [Plan.accessesOf, ← hplaced, List.map_map]
  rfl

end AccessLedger

/-- A location that is listed before another one is of no later object. -/
theorem LocationKey.object_le_of_compare_lt {a b : LocationKey} (h : compare a b = .lt) :
    a.object.number.toNat ≤ b.object.number.toNat := by
  have h : (compare a.object.number b.object.number).then (compare a.field b.field) = .lt := h
  rcases Ordering.then_eq_lt.mp h with hlt | ⟨heq, -⟩
  · have hlt : a.object.number < b.object.number := compareOfLessAndEq_eq_lt.mp hlt
    exact Nat.le_of_lt hlt
  · exact Nat.le_of_eq (congrArg UInt64.toNat (Std.compare_eq_iff_eq.mp heq))

namespace Plan

variable {r : Recording} {p : Plan} {fault : PlanFault}

/-! ## Objects beyond the limit -/

/-- The first location whose object is beyond the limit has the least such object. -/
theorem object_le_of_find?_keys {ledger : AccessLedger} {key : LocationKey}
    (h : ledger.keys.find? (fun key => objectLimit ≤ key.object.number.toNat) = some key) :
    key ∈ ledger ∧ objectLimit ≤ key.object.number.toNat ∧ ∀ key' ∈ ledger,
      objectLimit ≤ key'.object.number.toNat →
        key.object.number.toNat ≤ key'.object.number.toNat := by
  obtain ⟨hbeyond, before, after, hkeys, hbefore⟩ := List.find?_eq_some_iff_append.mp h
  refine ⟨Std.ExtTreeMap.mem_keys.mp (List.mem_of_find?_eq_some h),
    of_decide_eq_true hbeyond, fun key' hkey' hlimit => ?_⟩
  have hordered := ledger.ordered_keys
  rw [hkeys] at hordered
  have hmem := Std.ExtTreeMap.mem_keys.mpr hkey'
  rw [hkeys] at hmem
  rcases List.mem_append.mp hmem with hmem | hmem
  · exact absurd hlimit (by simpa using hbefore key' hmem)
  · rcases List.mem_cons.mp hmem with rfl | hmem
    · exact Nat.le_refl _
    · have hafter := List.rel_of_pairwise_cons (List.pairwise_append.mp hordered).2.1 hmem
      exact LocationKey.object_le_of_compare_lt hafter

/-- Where all places are in reach, only an object can be beyond what is simulated. -/
theorem ofRecording_eq_error_iff (hreach : ∀ t ∈ r.threads, outOfReach t.position = false) :
    ofRecording r = .error fault ↔ ∃ key,
      r.accesses.keys.find? (fun key => objectLimit ≤ key.object.number.toNat) = some key ∧
        fault = .objectBeyondLimit key.object := by
  have hany : (r.threads.any fun t => outOfReach t.position) = false := by
    simpa using hreach
  unfold ofRecording
  rw [hany, if_neg Bool.false_ne_true]
  split
  · next key hkey => simp [hkey, eq_comm]
  · next hnone => simp [hnone]

theorem outOfReach_eq_false {position : Position}
    (h : ∀ index ∈ position, index.toNat < UInt32.size - 1) : outOfReach position = false := by
  rw [outOfReach, beq_eq_false_iff_ne]
  intro hlast
  exact absurd (h _ (List.mem_of_getLast? hlast)) (by decide)

/-- **A plan loses and invents nothing**, if no recorded child index is the last one there is.

* There is none just if a recorded object is beyond the limit, and the least such object is the
  one that is named.
* A recorded thread makes each of its accesses once, those that have a place in the whole
  recording first, by their places, and otherwise as they are listed.
* No other place makes an access.
* There is one object for each id up to the largest one that was recorded. -/
theorem plan_complete {d : Dump} (hd : Recording.ofDump d = .ok r)
    (hreach : ∀ t ∈ r.threads, ∀ index ∈ t.position, index.toNat < UInt32.size - 1) :
    ((∃ fault, ofRecording r = .error fault) ↔
      ∃ key ∈ r.accesses, objectLimit ≤ key.object.number.toNat) ∧
    (∀ fault, ofRecording r = .error fault → ∃ key ∈ r.accesses,
      fault = .objectBeyondLimit key.object ∧ objectLimit ≤ key.object.number.toNat ∧
      ∀ key' ∈ r.accesses, objectLimit ≤ key'.object.number.toNat →
        key.object.number.toNat ≤ key'.object.number.toNat) ∧
    ∀ p, ofRecording r = .ok p →
      (∀ t ∈ r.threads, ∃ made : List Occurrence, made.Nodup ∧
        (∀ o, o ∈ made ↔
          (r.accesses.eventsAt o.key)[o.index]? = some o.access ∧ o.access.thread = t.raw) ∧
        made.Pairwise Precedes ∧
        p.accesses.getD t.position [] = made.map Occurrence.simulated) ∧
      (∀ position, (∀ t ∈ r.threads, t.position ≠ position) →
        p.accesses.getD position [] = []) ∧
      (∀ n, n < p.objects.length ↔ ∃ key ∈ r.accesses, n ≤ key.object.number.toNat) ∧
      p.objects.map AnnouncedObject.handle =
        (List.range p.objects.length).map fun n => handleOf ⟨UInt64.ofNat n⟩ := by
  have hin : ∀ t ∈ r.threads, outOfReach t.position = false := fun t ht =>
    outOfReach_eq_false (hreach t ht)
  have haccepted := Recording.accepted_ofDump hd
  refine ⟨⟨?_, ?_⟩, fun fault hfault => ?_, fun p hp => ?_⟩
  · rintro ⟨fault, hfault⟩
    obtain ⟨key, hkey, -⟩ := (ofRecording_eq_error_iff hin).mp hfault
    obtain ⟨hmem, hbeyond, -⟩ := object_le_of_find?_keys hkey
    exact ⟨key, hmem, hbeyond⟩
  · rintro ⟨key, hkey, hbeyond⟩
    cases hp : ofRecording r with
    | error fault => exact ⟨fault, rfl⟩
    | ok p => exact absurd ((made_of_ofRecording hp).within key hkey) (Nat.not_lt.mpr hbeyond)
  · obtain ⟨key, hkey, rfl⟩ := (ofRecording_eq_error_iff hin).mp hfault
    obtain ⟨hmem, hbeyond, hleast⟩ := object_le_of_find?_keys hkey
    exact ⟨key, hmem, rfl, hbeyond, hleast⟩
  · have hmade := made_of_ofRecording hp
    refine ⟨fun t ht => ?_, fun position hposition => ?_, fun n => ?_, ?_⟩
    · refine ⟨r.accesses.madeBy t.raw, AccessLedger.nodup_madeBy .., fun o =>
        AccessLedger.mem_madeBy, AccessLedger.pairwise_madeBy .., ?_⟩
      rw [getD_accesses hp haccepted.positions ht, AccessLedger.accessesOf_eq]
    · exact getD_accesses_eq_nil hmade hposition
    · rw [objects, List.length_map, List.length_range, hmade.classes, lt_size_classesOf]
    · rw [objects, List.length_map, List.length_range, List.map_map]
      rfl

/-- Two threads and two objects, with a child and an object in between that were not recorded. -/
def gappedDump : Dump where
  threads := [⟨1, []⟩, ⟨2, [1]⟩]
  sharedFields := ∅
  locations :=
    [⟨⟨0⟩, "Box", "value", [⟨1, .write, none⟩, ⟨2, .read, some 4⟩]⟩,
      ⟨⟨2⟩, "Box", "value", [⟨1, .write, some 4⟩, ⟨1, .write, some 4⟩]⟩]

/-- The recording of `gappedDump`. -/
def gapped : Recording where
  root := .root 1
  others := [(ThreadId.root 1).child 2 1]
  catalogue := ∅
  accesses :=
    ((∅ : AccessLedger).insert ⟨⟨0⟩, "value"⟩
      ⟨"Box", [⟨1, .write, none⟩, ⟨2, .read, some 4⟩]⟩).insert
      ⟨⟨2⟩, "value"⟩ ⟨"Box", [⟨1, .write, some 4⟩, ⟨1, .write, some 4⟩]⟩

theorem ofDump_gapped : Recording.ofDump gappedDump = .ok gapped := by
  rw [Recording.ofDump, Recording.growTree_of_pairwise (by decide)]
  rfl

theorem gapped_plan_complete : Recording.ofDump gappedDump = .ok gapped ∧
    (∀ t ∈ gapped.threads, ∀ index ∈ t.position, index.toNat < UInt32.size - 1) ∧
    ∃ p, ofRecording gapped = .ok p ∧ p.objects.length = 3 ∧ p.accesses.getD [0] [] = [] ∧
      ∃ made : List Occurrence, p.accesses.getD [1] [] = made.map Occurrence.simulated ∧
        ⟨⟨⟨0⟩, "value"⟩, 1, ⟨2, .read, some 4⟩⟩ ∈ made := by
  have hall : gapped.threads.all (fun t =>
      t.position.all fun index => index.toNat < UInt32.size - 1) = true := by decide
  have hreach : ∀ t ∈ gapped.threads, ∀ index ∈ t.position, index.toNat < UInt32.size - 1 := by
    simpa only [List.all_eq_true, decide_eq_true_eq] using hall
  have hkeys : gapped.accesses.keys = [⟨⟨0⟩, "value"⟩, ⟨⟨2⟩, "value"⟩] := by decide
  have hmem {key : LocationKey} : key ∈ gapped.accesses ↔
      key = ⟨⟨0⟩, "value"⟩ ∨ key = ⟨⟨2⟩, "value"⟩ := by
    rw [← Std.ExtTreeMap.mem_keys, hkeys]
    simp
  obtain ⟨hfails, -, hplan⟩ := plan_complete ofDump_gapped hreach
  cases hp : ofRecording gapped with
  | error fault =>
    obtain ⟨key, hkey, hbeyond⟩ := hfails.mp ⟨fault, hp⟩
    rcases hmem.mp hkey with rfl | rfl
    · exact absurd hbeyond (by decide)
    · exact absurd hbeyond (by decide)
  | ok p =>
    obtain ⟨hthreads, hother, hobjects, -⟩ := hplan p hp
    have hthree : 2 < p.objects.length := (hobjects 2).mpr ⟨⟨⟨2⟩, "value"⟩, hmem.mpr (.inr rfl),
      by decide⟩
    have hmore : ¬3 < p.objects.length := by
      intro hlt
      obtain ⟨key, hkey, hle⟩ := (hobjects 3).mp hlt
      rcases hmem.mp hkey with rfl | rfl
      · exact absurd hle (by decide)
      · exact absurd hle (by decide)
    obtain ⟨made, -, hmade, -, haccesses⟩ := hthreads ((ThreadId.root 1).child 2 1) (by decide)
    exact ⟨ofDump_gapped, hreach, p, rfl, by omega, hother [0] (by decide), made, haccesses,
      (hmade _).mpr (by decide)⟩

end Plan
end AccessReplay
