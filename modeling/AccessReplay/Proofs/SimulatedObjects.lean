import AccessReplay.Proofs.ChildCounts
import AccessReplay.Proofs.RecordedHistory
import AccessReplay.Proofs.RecordedTree
import AccessReplay.Proofs.SequentialCalls

/-!
# What a simulation stands on

A plan names objects by the ids that they were recorded with, and gives each one a class.  When
its objects are created in order, each of them gets the id that the plan names it by
(`find?_created`).  Its class is that of the last of its locations, so it is the class that an
access was recorded with if all locations of one object have one class (`OneClass`).

A recorded thread's program is the list of its recorded accesses (`program_position`), and the
parent of every recorded place starts enough threads to reach it (`reaches_children`).
-/
namespace AccessReplay

theorem ObjectId.eq_of_toNat_eq {a b : ObjectId} (h : a.number.toNat = b.number.toNat) : a = b := by
  cases a
  cases b
  exact congrArg ObjectId.mk (UInt64.toNat_inj.mp h)

namespace Recording

variable {r : Recording} {key : LocationKey}

/-- All locations of one object were recorded with one class. -/
def OneClass (r : Recording) : Prop :=
  ∀ (key key' : LocationKey) (l l' : RecordedLocation), r.accesses[key]? = some l →
    r.accesses[key']? = some l' → key.object = key'.object → l.className = l'.className

/-- Does the catalogue list the field of a recorded location? -/
def listed (r : Recording) (key : LocationKey) : Bool :=
  r.accesses[key]?.any fun l => r.catalogue.isShared l.className key.field

end Recording

namespace Plan

variable {r : Recording} {p : Plan} {classes : Array String} {o : ObjectId} {c c' : String}
  {n : Nat}

/-! ## Classes -/

theorem getElem?_placeClass_self (classes : Array String) (o : ObjectId) (c : String) :
    (placeClass classes o c)[o.number.toNat]? = some c := by
  rw [placeClass, Array.getElem?_setIfInBounds_self_of_lt]
  rw [Array.size_append, Array.size_replicate]
  omega

/-- An object keeps its class when another one is given its own. -/
theorem getElem?_placeClass_of_ne (hne : o.number.toNat ≠ n) (hn : classes[n]? = some c') :
    (placeClass classes o c)[n]? = some c' := by
  obtain ⟨hlt, -⟩ := Array.getElem?_eq_some_iff.mp hn
  rw [placeClass, Array.getElem?_setIfInBounds_ne hne, Array.getElem?_append_left hlt, hn]

theorem size_placeClass (classes : Array String) (o : ObjectId) (c : String) :
    (placeClass classes o c).size = max classes.size (o.number.toNat + 1) := by
  rw [placeClass, Array.size_setIfInBounds, Array.size_append, Array.size_replicate]
  omega

/-- There is a class for each object up to the last recorded one. -/
theorem lt_size_classesOf {ledger : AccessLedger} :
    n < (classesOf ledger).size ↔ ∃ key ∈ ledger, n ≤ key.object.number.toNat := by
  have hsize : ∀ entries : List (LocationKey × RecordedLocation),
      n < (entries.foldl (fun classes entry => placeClass classes entry.1.object entry.2.className)
        #[]).size ↔ ∃ entry ∈ entries, n ≤ entry.1.object.number.toNat := by
    intro entries
    induction entries using List.reverseRecOn with
    | nil => simp
    | append_singleton entries entry ih =>
      have hlt (size id : Nat) : n < max size (id + 1) ↔ n < size ∨ n ≤ id := by omega
      rw [List.foldl_concat, size_placeClass, hlt, ih]
      simp [or_and_right, exists_or]
  rw [classesOf, hsize]
  constructor
  · rintro ⟨entry, hentry, hn⟩
    have hl := Std.ExtTreeMap.mem_toList_iff_getElem?_eq_some.mp hentry
    exact ⟨entry.1, Std.ExtTreeMap.mem_iff_isSome_getElem?.mpr (by rw [hl]; rfl), hn⟩
  · rintro ⟨key, hkey, hn⟩
    obtain ⟨l, hl⟩ := Option.isSome_iff_exists.mp (Std.ExtTreeMap.mem_iff_isSome_getElem?.mp hkey)
    exact ⟨(key, l), Std.ExtTreeMap.mem_toList_iff_getElem?_eq_some.mpr hl, hn⟩

/-- Each object has the class of its locations, if they have one class. -/
theorem getElem?_classesOf (hone : r.OneClass) {key : LocationKey} {l : RecordedLocation}
    (hl : r.accesses[key]? = some l) :
    (classesOf r.accesses)[key.object.number.toNat]? = some l.className := by
  have hentries : ∀ x ∈ r.accesses.toList, r.accesses[x.1]? = some x.2 := fun x hx =>
    Std.ExtTreeMap.mem_toList_iff_getElem?_eq_some.mp hx
  have hplaced : ∀ entries : List (LocationKey × RecordedLocation),
      (∀ x ∈ entries, r.accesses[x.1]? = some x.2) → ∀ x ∈ entries,
        (entries.foldl (fun classes entry => placeClass classes entry.1.object entry.2.className)
          #[])[x.1.object.number.toNat]? = some x.2.className := by
    intro entries
    -- the last location that was entered decides
    induction entries using List.reverseRecOn with
    | nil => simp
    | append_singleton entries y ih =>
      intro hmem x hx
      rw [List.foldl_concat]
      have hy := hmem y (by simp)
      by_cases hsame : y.1.object.number.toNat = x.1.object.number.toNat
      · have hobject : y.1.object = x.1.object := ObjectId.eq_of_toNat_eq hsame
        rw [← hone y.1 x.1 y.2 x.2 hy (hmem x hx) hobject, ← hsame]
        exact getElem?_placeClass_self ..
      · have hx' : x ∈ entries := by
          rcases List.mem_append.mp hx with hx | hx
          · exact hx
          · rw [List.mem_singleton.mp hx] at hsame
            exact absurd rfl hsame
        exact getElem?_placeClass_of_ne hsame
          (ih (fun z hz => hmem z (List.mem_append_left _ hz)) x hx')
  exact hplaced _ hentries (key, l) (Std.ExtTreeMap.mem_toList_iff_getElem?_eq_some.mpr hl)

/-- What a recording has to be like for a plan to be made of it, and the plan. -/
structure Made (r : Recording) (p : Plan) : Prop where
  classes : p.classes = classesOf r.accesses
  accesses : p.accesses = .ofList (r.threads.map fun t => (t.position, accessesOf r.accesses t.raw))
  children : p.children = r.threads.foldl (fun children t => reach children t.position) ∅
  inReach : ∀ t ∈ r.threads, outOfReach t.position = false
  within : ∀ (key : LocationKey), key ∈ r.accesses → key.object.number.toNat < objectLimit

theorem made_of_ofRecording (hp : ofRecording r = .ok p) : Made r p := by
  unfold ofRecording at hp
  split at hp
  · cases hp
  · next hreach =>
    split at hp
    · cases hp
    · next hlimit =>
      cases hp
      refine ⟨rfl, rfl, rfl, by simpa using hreach, fun key hkey => ?_⟩
      have hnot := List.find?_eq_none.mp hlimit key (Std.ExtTreeMap.mem_keys.mpr hkey)
      simpa using hnot

theorem size_classes_le (hp : Made r p) : p.classes.size ≤ objectLimit := by
  rw [hp.classes]
  by_contra hlt
  obtain ⟨key, hkey, hbeyond⟩ := lt_size_classesOf.mp (Nat.lt_of_not_le hlt)
  exact absurd (hp.within key hkey) (Nat.not_lt.mpr hbeyond)

/-! ## Objects -/

/-- Within the limit, no two objects have one handle. -/
theorem handleOf_inj {i j : Nat} (hi : i < objectLimit) (hj : j < objectLimit)
    (h : handleOf ⟨UInt64.ofNat i⟩ = handleOf ⟨UInt64.ofNat j⟩) : i = j := by
  have hnat := congrArg UInt64.toNat h
  simp only [objectLimit] at hi hj
  simp [handleOf, UInt64.toNat_add, UInt64.toNat_mul] at hnat
  omega

/-- **Objects that are created in order get the ids that the plan names them by.** -/
theorem find?_created (p : Plan) {e : Engine} (hchecking : e.checking = true)
    (hnone : e.objects = {}) (hn : n ≤ objectLimit) :
    ∃ objects journal,
      ((List.range n).map fun id => p.announced ⟨UInt64.ofNat id⟩).foldl Engine.objectCreated e =
        { e with objects, journal } ∧ objects.next = UInt64.ofNat n ∧
      ∀ id < n, objects.find? (handleOf ⟨UInt64.ofNat id⟩) = some ⟨UInt64.ofNat id⟩ := by
  induction n with
  | zero => exact ⟨e.objects, e.journal, rfl, by rw [hnone]; rfl, nofun⟩
  | succ n ih =>
    obtain ⟨objects, journal, hfold, hnext, hfind⟩ := ih (by omega)
    rw [List.range_succ, List.map_append, List.foldl_append, hfold]
    refine ⟨(objects.register (handleOf ⟨UInt64.ofNat n⟩)).1,
      journal.push (objects.registerRemark (p.announced ⟨UInt64.ofNat n⟩)), ?_, ?_,
      fun id hid => ?_⟩
    · simp only [List.map_cons, List.map_nil, List.foldl_cons, List.foldl_nil,
        Engine.objectCreated, hchecking, if_true]
      rfl
    · simp [ObjectIds.register, hnext]
    · simp only [ObjectIds.find?, ObjectIds.register, Std.ExtTreeMap.getElem?_insert, hnext]
      by_cases hlast : id = n
      · rw [hlast, if_pos Std.compare_self]
      · have hne : ¬compare (handleOf ⟨UInt64.ofNat n⟩) (handleOf ⟨UInt64.ofNat id⟩) = .eq := by
          rw [Std.compare_eq_iff_eq]
          exact fun h => hlast (handleOf_inj (by omega) (by omega) h).symm
        rw [if_neg hne]
        exact hfind id (by omega)

/-! ## Programs -/

/-- The recorded accesses of a thread, in the order in which it makes them. -/
def recordedBy (r : Recording) (raw : RuntimeId) : List PlacedAccess :=
  inOrder ((placed r.accesses).filter fun a => a.2.thread == raw)

/-- A recorded access as it is announced. -/
def request (p : Plan) (a : PlacedAccess) : Request :=
  ⟨p.announced a.1.object, a.1.field, a.2.kind⟩

theorem mem_inOrder {l : List PlacedAccess} {a : PlacedAccess} : a ∈ inOrder l ↔ a ∈ l := by
  cases h : a.2.seq <;> simp [inOrder, h]

theorem mem_recordedBy {raw : RuntimeId} {a : PlacedAccess} :
    a ∈ recordedBy r raw ↔ a ∈ placed r.accesses ∧ a.2.thread = raw := by
  simp [recordedBy, mem_inOrder]

/-- **A recorded thread is to make the accesses that were recorded of it.** -/
theorem program_position (hp : ofRecording r = .ok p) (ha : r.Accepted) {t : ThreadId}
    (ht : t ∈ r.threads) : p.program t.position = (recordedBy r t.raw).map p.request := by
  rw [program, getD_accesses hp ha.positions ht, accessesOf, List.map_map]
  rfl

/-- No accesses are made where no thread was recorded. -/
theorem getD_accesses_eq_nil (hp : Made r p) {position : Position}
    (h : ∀ t ∈ r.threads, t.position ≠ position) : p.accesses.getD position [] = [] := by
  rw [hp.accesses]
  refine Std.ExtTreeMap.getD_ofList_of_contains_eq_false ?_
  simpa using h

/-- A thread that was not recorded has nothing to do. -/
theorem program_eq_nil (hp : Made r p) {position : Position}
    (h : ∀ t ∈ r.threads, t.position ≠ position) : p.program position = [] := by
  rw [program, getD_accesses_eq_nil hp h, List.map_nil]

/-! ## The script -/

theorem mem_script_iff {position : Position} : position ∈ p.script ↔ position = [] ∨
    ∃ q count, p.children[q]? = some count ∧ position ∈ childPlaces q count := by
  simp [script, Std.ExtTreeMap.mem_ofList, Std.ExtTreeMap.mem_toList_iff_getElem?_eq_some]

/-- The threads of the script are those of the plan. -/
theorem getElem?_script {position : Position} {m : Member} (hm : p.script[position]? = some m) :
    m = p.member position := by
  rw [script, Std.ExtTreeMap.ofList_eq_insertMany_empty, Std.ExtTreeMap.getElem?_insertMany_list,
    Std.ExtTreeMap.getElem?_empty, Option.or_none, List.findSomeRev?_eq_findSome?_reverse] at hm
  obtain ⟨entry, hentry, he⟩ := List.exists_of_findSome?_eq_some hm
  obtain ⟨place, -, rfl⟩ := List.mem_map.mp (List.mem_reverse.mp hentry)
  simp only [Option.ite_none_right_eq_some, Std.compare_eq_iff_eq, Option.some.injEq] at he
  obtain ⟨rfl, rfl⟩ := he
  rfl

/-- The thread at a place of the script does what the plan has for that place. -/
theorem program_script {position : Position} (h : position ∈ p.script) :
    p.script.program position = p.program position := by
  obtain ⟨m, hm⟩ := Option.isSome_iff_exists.mp (Std.ExtTreeMap.mem_iff_isSome_getElem?.mp h)
  rw [Script.program, hm, getElem?_script hm]
  rfl

/-- The parent of a place starts enough threads to reach it. -/
def Reaches (children : Std.ExtTreeMap Position UInt32) (position : Position) : Prop :=
  ∀ q index, position = q ++ [index] →
    ∃ count, children[q]? = some count ∧ index.toNat < count.toNat

/-- The children of a plan reach every recorded place. -/
theorem reaches_children (hp : Made r p) {t : ThreadId} (ht : t ∈ r.threads) :
    Reaches p.children t.position := by
  intro q index hposition
  obtain ⟨count, -, hcount, -, -, hlt⟩ := (exact_childCounts hp.inReach).reaches ht hposition
  rw [hp.children]
  exact ⟨count, hcount, hlt⟩

/-- The script has a place for each thread that a place is to start. -/
theorem mem_script_concat {q : Position} {index : UInt32} : q ++ [index] ∈ p.script ↔
    ∃ count, p.children[q]? = some count ∧ index.toNat < count.toNat := by
  rw [mem_script_iff]
  constructor
  · rintro (hroot | ⟨q', count, hcount, hmem⟩)
    · cases List.append_ne_nil_of_right_ne_nil q (List.cons_ne_nil index []) hroot
    · obtain ⟨k, hk, hplace⟩ := List.mem_map.mp hmem
      obtain ⟨rfl, hindex⟩ := List.append_inj' hplace rfl
      obtain rfl : UInt32.ofNat k = index := by simpa using hindex
      refine ⟨count, hcount, ?_⟩
      rw [List.mem_range] at hk
      rwa [UInt32.toNat_ofNat_of_lt' (Nat.lt_trans hk count.toNat_lt_size)]
  · rintro ⟨count, hcount, hlt⟩
    refine .inr ⟨q, count, hcount, List.mem_map.mpr ⟨index.toNat, List.mem_range.mpr hlt, ?_⟩⟩
    rw [UInt32.ofNat_toNat]

end Plan
end AccessReplay
