import AccessReplay.Proofs.LiveLocations
import AccessReplay.Proofs.ObjectIdentities
import AccessReplay.Proofs.RecordedLocations
import Mathlib.Data.List.Induction

/-!
# Canonical locations

A live memory keeps the locations that it has handed out.  Yet what it answers for a field does
not depend on what was asked before: it is the location of the id that the object's handle is
bound to, if the recording in force has accesses there (`Serves.found_eq`).  A location that is
handed out for the first time is as the recording puts it in force, and from then on it is
changed by nothing but what is done to it, not even by putting another recording in force
(`find?_performAll`).

Ids are allocated once, so an object whose handle was bound anew does not come by the locations
of the object before it (`locations_canonical`).
-/
namespace AccessReplay

namespace LiveMemory

variable {m : LiveMemory} {ref ref' : LocationRef} {l : Location} {t : RuntimeId} {k : AccessKind}
  {objects : ObjectIds} {object : AnnouncedObject} {field : String}

/-- A look-up adds no location but the one that it finds. -/
theorem mem_locations_lookUp : ref ∈ (m.lookUp objects object field).1.locations ↔
    ref ∈ m.locations ∨ (m.lookUp objects object field).2 = some ref := by
  unfold lookUp
  cases hid : objects.find? object.handle with
  | none => simp
  | some id =>
    by_cases hmem : (⟨m.edition, ⟨id, field⟩⟩ : LocationRef) ∈ m.locations
    · have hsame : (⟨m.edition, ⟨id, field⟩⟩ : LocationRef) = ref → ref ∈ m.locations :=
        fun h => h ▸ hmem
      simpa [hmem] using hsame
    · cases hs : m.schedules[(⟨id, field⟩ : LocationKey)]? with
      | none => simp [hmem, hs]
      | some schedule => simp [hmem, hs, or_comm]

theorem mem_locations_poll : ref' ∈ (m.poll ref t k).1.locations ↔ ref' ∈ m.locations := by
  unfold poll
  split
  · exact Iff.rfl
  · exact Std.ExtTreeMap.mem_modify

theorem mem_schedulesOf {ledger : AccessLedger} {key : LocationKey} :
    key ∈ schedulesOf ledger ↔ key ∈ ledger := by
  simp [schedulesOf, Std.ExtTreeMap.mem_map]

end LiveMemory

/-- A live memory and the ids of the objects it is asked about. -/
structure ObjectMemory where
  objects : ObjectIds := {}
  memory : LiveMemory := {}

namespace ObjectMemory

/-- A call to the memory, to one of its locations, or to the ids. -/
inductive Call where
  | enforce (recording : Recording)
  | identify (call : ObjectIds.Call)
  | lookUp (object : AnnouncedObject) (field : String)
  | poll (ref : LocationRef) (thread : RuntimeId) (kind : AccessKind)
  | commit (access : OpenAccess)
  | diverge (ref : LocationRef)

/-- What a call does.  To a location that was not handed out it does nothing. -/
def perform (s : ObjectMemory) : Call → ObjectMemory
  | .enforce recording => { s with memory := s.memory.enforce recording }
  | .identify call => { s with objects := (s.objects.answer call).1 }
  | .lookUp object field => { s with memory := (s.memory.lookUp s.objects object field).1 }
  | .poll ref thread kind => { s with memory := (s.memory.poll ref thread kind).1 }
  | .commit access => { s with memory := s.memory.commit access }
  | .diverge ref => { s with memory := s.memory.diverge ref }

/-- What several calls do, one after the other. -/
def performAll (s : ObjectMemory) (calls : List Call) : ObjectMemory := calls.foldl perform s

/-- The location that is handed out for a field. -/
def found (s : ObjectMemory) (object : AnnouncedObject) (field : String) : Option LocationRef :=
  (s.memory.lookUp s.objects object field).2

/-- The recorded accesses that are in force once a call is over. -/
def inForceBy (ledger : AccessLedger) : Call → AccessLedger
  | .enforce recording => recording.accesses
  | _ => ledger

/-- The accesses of the recording that calls put in force last. -/
def inForce (calls : List Call) : AccessLedger := calls.foldl inForceBy ∅

/-- The locations that are handed out, since a recording was put in force, once a call is over. -/
def handedOutBy (s : ObjectMemory) (out : List LocationRef) : Call → List LocationRef
  | .enforce _ => []
  | .lookUp object field => out ++ (s.found object field).toList
  | _ => out

/-- The locations that calls hand out since a recording was put in force last. -/
def handedOut (s : ObjectMemory) (out : List LocationRef) : List Call → List LocationRef
  | [] => out
  | call :: calls => (s.perform call).handedOut (s.handedOutBy out call) calls

/-- What a call does to one location. -/
def advance (ref : LocationRef) (l : Location) : Call → Location
  | .poll ref' thread kind => if ref' = ref then l.reserve thread kind else l
  | .commit a => if a.location = ref then l.commit a.thread a.kind a.outcome else l
  | .diverge ref' => if ref' = ref then l.diverge else l
  | _ => l

/-- The calls that are made to the ids. -/
def idCalls (calls : List Call) : List ObjectIds.Call :=
  calls.filterMap fun
    | .identify call => some call
    | _ => none

/-- How often a recording is put in force. -/
def editions (calls : List Call) : Nat :=
  calls.countP fun
    | .enforce _ => true
    | _ => false

variable {s : ObjectMemory} {calls calls' : List Call} {call : Call} {ref : LocationRef}
  {l : Location} {ledger : AccessLedger} {out : List LocationRef} {object : AnnouncedObject}
  {field : String}

theorem performAll_append :
    s.performAll (calls ++ calls') = (s.performAll calls).performAll calls' := by
  simp [performAll]

theorem performAll_concat : s.performAll (calls ++ [call]) = (s.performAll calls).perform call := by
  simp [performAll]

theorem handedOut_concat : s.handedOut out (calls ++ [call]) =
    (s.performAll calls).handedOutBy (s.handedOut out calls) call := by
  induction calls generalizing s out with
  | nil => rfl
  | cons c calls ih => simp [handedOut, performAll, ih]

theorem objects_performAll :
    (s.performAll calls).objects = s.objects.answerAll (idCalls calls) := by
  induction calls generalizing s with
  | nil => rfl
  | cons call calls ih =>
    rw [performAll, List.foldl_cons, ← performAll, ih]
    cases call <;> rfl

theorem edition_performAll :
    (s.performAll calls).memory.edition = s.memory.edition + editions calls := by
  induction calls using List.reverseRecOn with
  | nil => rfl
  | append_singleton calls call ih =>
    rw [performAll_concat, editions, List.countP_append, ← editions]
    cases call <;> simp [perform, LiveMemory.enforce, ih, Nat.add_assoc]

theorem editions_eq_zero_iff : editions calls = 0 ↔ ∀ r, .enforce r ∉ calls := by
  rw [editions, List.countP_eq_zero]
  constructor
  · intro h r hr
    exact absurd rfl (h _ hr)
  · intro h call hcall
    cases call with
    | enforce r => exact absurd hcall (h r)
    | _ => exact Bool.false_ne_true

/-! ## One location -/

theorem find?_perform (hl : s.memory.find? ref = some l) (call : Call) :
    (s.perform call).memory.find? ref = some (advance ref l call) := by
  cases call with
  | enforce | identify => exact hl
  | lookUp => exact LiveMemory.find?_lookUp_of_some hl
  | poll => exact LiveMemory.find?_poll_of_some hl
  | commit | diverge => exact LiveMemory.find?_update_of_some hl _

/-- **A location that was handed out is changed by nothing but what is done to it.** -/
theorem find?_performAll (hl : s.memory.find? ref = some l) (calls : List Call) :
    (s.performAll calls).memory.find? ref = some (calls.foldl (advance ref) l) := by
  induction calls generalizing s l with
  | nil => exact hl
  | cons call calls ih => exact ih (find?_perform hl call)

/-! ## All locations -/

/-- Where a field is found, for all that was found before. -/
def resolve (s : ObjectMemory) (ledger : AccessLedger) (object : AnnouncedObject)
    (field : String) : Option LocationRef :=
  (s.objects.find? object.handle).bind fun id =>
    if ⟨id, field⟩ ∈ ledger then some ⟨s.memory.edition, ⟨id, field⟩⟩ else none

theorem resolve_eq_some_iff : s.resolve ledger object field = some ref ↔
    ∃ id, s.objects.find? object.handle = some id ∧ ⟨id, field⟩ ∈ ledger ∧
      ref = ⟨s.memory.edition, ⟨id, field⟩⟩ := by
  simp only [resolve, Option.bind_eq_some_iff, Option.ite_none_right_eq_some, Option.some.injEq]
  exact exists_congr fun id => and_congr_right fun _ => and_congr_right fun _ => eq_comm

/-- The memory serves the recorded locations of a ledger, of which those in `out` were handed
out. -/
structure Serves (ledger : AccessLedger) (out : List LocationRef) (m : LiveMemory) : Prop where
  bounded : m.Bounded
  schedules : m.schedules = LiveMemory.schedulesOf ledger
  mem_iff : ∀ ref, ref ∈ out ↔ ref ∈ m.locations ∧ ref.edition = m.edition
  recorded : ∀ ref ∈ out, ref.key ∈ ledger

namespace Serves

theorem empty : Serves ∅ [] {} where
  bounded ref l hl := by simp [LiveMemory.find?] at hl
  schedules := by
    refine Std.ExtTreeMap.ext_getElem? fun key => ?_
    simp [LiveMemory.schedulesOf]
  mem_iff := by simp
  recorded := by simp

theorem enforce {m : LiveMemory} (h : Serves ledger out m) (r : Recording) :
    Serves r.accesses [] (m.enforce r) where
  bounded ref l hl := Nat.le_succ_of_le (h.bounded ref l hl)
  schedules := rfl
  mem_iff ref := by
    -- the edition that begins has no location
    simp only [List.not_mem_nil, false_iff, not_and]
    intro hmem hedition
    obtain ⟨l, hl⟩ := Option.isSome_iff_exists.mp (Std.ExtTreeMap.mem_iff_isSome_getElem?.mp hmem)
    have hbound := h.bounded ref l hl
    have hnext : ref.edition = m.edition + 1 := hedition
    omega
  recorded := by simp

/-- Neither the locations nor what they are made from change. -/
theorem same {m m' : LiveMemory} (h : Serves ledger out m) (hbounded : m'.Bounded)
    (hschedules : m'.schedules = m.schedules) (hedition : m'.edition = m.edition)
    (hmem : ∀ ref, ref ∈ m'.locations ↔ ref ∈ m.locations) : Serves ledger out m' where
  bounded := hbounded
  schedules := hschedules.trans h.schedules
  mem_iff ref := by rw [h.mem_iff, hmem, hedition]
  recorded := h.recorded

/-- **What is found does not depend on what was found before.** -/
theorem found_eq (h : Serves ledger out s.memory) (object : AnnouncedObject) (field : String) :
    s.found object field = s.resolve ledger object field := by
  unfold found resolve LiveMemory.lookUp
  cases hid : s.objects.find? object.handle with
  | none => rfl
  | some id =>
    simp only [Option.bind_some]
    by_cases hmem : (⟨s.memory.edition, ⟨id, field⟩⟩ : LocationRef) ∈ s.memory.locations
    · -- what is kept is recorded
      have hkey : ⟨id, field⟩ ∈ ledger := h.recorded _ ((h.mem_iff _).mpr ⟨hmem, rfl⟩)
      rw [if_pos hmem, if_pos hkey]
    · rw [if_neg hmem, h.schedules]
      by_cases hkey : (⟨id, field⟩ : LocationKey) ∈ ledger
      · obtain ⟨schedule, hs⟩ := Option.isSome_iff_exists.mp
          (Std.ExtTreeMap.mem_iff_isSome_getElem?.mp (LiveMemory.mem_schedulesOf.mpr hkey))
        rw [if_pos hkey]
        simp [hs]
      · have hs : (LiveMemory.schedulesOf ledger)[(⟨id, field⟩ : LocationKey)]? = none :=
          Std.ExtTreeMap.getElem?_eq_none (mt LiveMemory.mem_schedulesOf.mp hkey)
        rw [if_neg hkey]
        simp [hs]

theorem found_eq_some_iff (h : Serves ledger out s.memory) : s.found object field = some ref ↔
    ∃ id, s.objects.find? object.handle = some id ∧ ⟨id, field⟩ ∈ ledger ∧
      ref = ⟨s.memory.edition, ⟨id, field⟩⟩ := by
  rw [h.found_eq, resolve_eq_some_iff]

theorem lookUp (h : Serves ledger out s.memory) (object : AnnouncedObject) (field : String) :
    Serves ledger (out ++ (s.found object field).toList)
      (s.memory.lookUp s.objects object field).1 where
  bounded := h.bounded.lookUp
  schedules := LiveMemory.schedules_lookUp.trans h.schedules
  mem_iff ref := by
    have hedition : s.found object field = some ref → ref.edition = s.memory.edition := by
      intro href
      obtain ⟨id, -, -, rfl⟩ := h.found_eq_some_iff.mp href
      rfl
    rw [List.mem_append, Option.mem_toList, h.mem_iff, LiveMemory.mem_locations_lookUp,
      LiveMemory.edition_lookUp, or_and_right]
    exact or_congr Iff.rfl (and_iff_left_of_imp hedition).symm
  recorded ref href := by
    rcases List.mem_append.mp href with href | href
    · exact h.recorded ref href
    · obtain ⟨id, -, hkey, rfl⟩ := h.found_eq_some_iff.mp (Option.mem_toList.mp href)
      exact hkey

/-- **Every call keeps what is served.** -/
theorem perform (h : Serves ledger out s.memory) (call : Call) :
    Serves (inForceBy ledger call) (s.handedOutBy out call) (s.perform call).memory := by
  cases call with
  | enforce r => exact h.enforce r
  | identify call => exact h
  | lookUp object field => exact h.lookUp object field
  | poll ref thread kind =>
    exact h.same h.bounded.poll LiveMemory.schedules_poll LiveMemory.edition_poll
      fun _ => LiveMemory.mem_locations_poll
  | commit a => exact h.same (h.bounded.commit a) rfl rfl fun _ => Std.ExtTreeMap.mem_modify
  | diverge ref => exact h.same h.bounded.diverge rfl rfl fun _ => Std.ExtTreeMap.mem_modify

/-- What the memory is like after calls. -/
theorem performAll (calls : List Call) :
    Serves (inForce calls) (handedOut {} [] calls) (ObjectMemory.performAll {} calls).memory := by
  induction calls using List.reverseRecOn with
  | nil => exact .empty
  | append_singleton calls call ih =>
    rw [performAll_concat, handedOut_concat, inForce, List.foldl_concat, ← inForce]
    exact ih.perform call

theorem isSome_found_iff (h : Serves ledger out s.memory) : (s.found object field).isSome ↔
    ∃ id, s.objects.find? object.handle = some id ∧ ⟨id, field⟩ ∈ ledger := by
  simp only [Option.isSome_iff_exists, h.found_eq_some_iff]
  constructor
  · rintro ⟨ref, id, hid, hkey, -⟩
    exact ⟨id, hid, hkey⟩
  · rintro ⟨id, hid, hkey⟩
    exact ⟨_, id, hid, hkey, rfl⟩

theorem mem_current_iff (h : Serves ledger out s.memory) :
    (ref, l) ∈ s.memory.current ↔ ref ∈ out ∧ s.memory.find? ref = some l := by
  rw [LiveMemory.current, List.mem_filter, Std.ExtTreeMap.mem_toList_iff_getElem?_eq_some,
    beq_iff_eq, h.mem_iff]
  constructor
  · rintro ⟨hl, hedition⟩
    exact ⟨⟨Std.ExtTreeMap.mem_iff_isSome_getElem?.mpr (by rw [hl]; rfl), hedition⟩, hl⟩
  · rintro ⟨⟨-, hedition⟩, hl⟩
    exact ⟨hl, hedition⟩

/-- Each location that was handed out is listed. -/
theorem mem_map_current_iff (h : Serves ledger out s.memory) :
    ref ∈ s.memory.current.map Prod.fst ↔ ref ∈ out := by
  rw [List.mem_map]
  constructor
  · rintro ⟨entry, hentry, rfl⟩
    exact (h.mem_current_iff.mp hentry).1
  · intro href
    obtain ⟨l, hl⟩ := Option.isSome_iff_exists.mp
      (Std.ExtTreeMap.mem_iff_isSome_getElem?.mp ((h.mem_iff ref).mp href).1)
    exact ⟨(ref, l), h.mem_current_iff.mpr ⟨href, hl⟩, rfl⟩

end Serves

/-! ## Look-ups at different times -/

variable {before after : List Call} {object' : AnnouncedObject} {field' : String}
  {ref' : LocationRef} {handle : Handle} {old : ObjectId}

/-- **Two look-ups find one location** just if they are of one edition, one object and one
field. -/
theorem eq_iff_of_found (h : (performAll {} before).found object field = some ref)
    (h' : (performAll {} (before ++ after)).found object' field' = some ref') :
    ref = ref' ↔ (∀ r, .enforce r ∉ after) ∧
      (performAll {} before).objects.find? object.handle =
        (performAll {} (before ++ after)).objects.find? object'.handle ∧ field = field' := by
  obtain ⟨id, hid, -, rfl⟩ := (Serves.performAll before).found_eq_some_iff.mp h
  obtain ⟨id', hid', -, rfl⟩ := (Serves.performAll (before ++ after)).found_eq_some_iff.mp h'
  have hedition : (performAll {} (before ++ after)).memory.edition =
      (performAll {} before).memory.edition + editions after := by
    rw [← edition_performAll, ← performAll_append]
  rw [hid, hid', ← editions_eq_zero_iff, hedition]
  simp only [LocationRef.mk.injEq, LocationKey.mk.injEq, Option.some.injEq]
  exact and_congr_left fun _ => by omega

/-- An object whose handle was announced anew has no location found for it any more. -/
theorem object_ne_of_register {calls : List Call}
    (hcalls : calls = before ++ .identify (.register handle) :: after)
    (hold : (performAll {} before).objects.find? handle = some old)
    (hfew : (ObjectIds.allocated {} (idCalls calls)).length ≤ UInt64.size)
    (href : (performAll {} calls).found object field = some ref) : ref.key.object ≠ old := by
  rintro rfl
  obtain ⟨id, hid, -, rfl⟩ := (Serves.performAll calls).found_eq_some_iff.mp href
  have hids : idCalls calls = idCalls before ++ .register handle :: idCalls after := by
    rw [hcalls, idCalls, List.filterMap_append]
    rfl
  rw [objects_performAll, hids] at hid
  rw [hids] at hfew
  rw [objects_performAll] at hold
  exact ObjectIds.find?_ne_of_register hfew hold _ hid

/-- A location that is handed out for the first time is pristine. -/
theorem find?_of_first (h : (performAll {} before).found object field = some ref)
    (hnew : ref ∉ handedOut {} [] before) :
    ((performAll {} before).perform (.lookUp object field)).memory.find? ref =
      some (.ofEvents ((inForce before).eventsAt ref.key)) := by
  have hbefore := Serves.performAll before
  have hmiss : ref ∉ (performAll {} before).memory.locations := by
    obtain ⟨id, -, -, rfl⟩ := hbefore.found_eq_some_iff.mp h
    exact fun hmem => hnew ((hbefore.mem_iff _).mpr ⟨hmem, rfl⟩)
  exact LiveMemory.find?_lookUp_of_new hbefore.schedules h hmiss

/-- **Locations are canonical**, after any calls.

* A location is found for a field just if its object's handle is bound to an id for which the
  recording in force has accesses to that field, whatever was looked up before.
* Two look-ups find one location just if no recording was put in force between them, their
  handles are bound to one id, and their fields are one.
* So an object whose handle was announced anew does not come by the locations of the object
  before it, until the ids are used up.
* A location that is handed out for the first time is as the recording puts it in force, and
  from then on it is changed only by what is done to it, whatever recordings follow.
* The locations that were handed out since a recording was put in force last are listed in the
  order of their keys, each with its state. -/
theorem locations_canonical (calls : List Call) :
    let s := performAll {} calls
    (∀ object field, (s.found object field).isSome ↔
      ∃ id, s.objects.find? object.handle = some id ∧ ⟨id, field⟩ ∈ inForce calls) ∧
    (∀ before after, calls = before ++ after → ∀ object field ref object' field' ref',
      (performAll {} before).found object field = some ref →
      s.found object' field' = some ref' →
      (ref = ref' ↔ (∀ r, .enforce r ∉ after) ∧
        (performAll {} before).objects.find? object.handle = s.objects.find? object'.handle ∧
        field = field')) ∧
    (∀ before handle after old, calls = before ++ .identify (.register handle) :: after →
      (performAll {} before).objects.find? handle = some old →
      (ObjectIds.allocated {} (idCalls calls)).length ≤ UInt64.size →
      ∀ object field ref, s.found object field = some ref → ref.key.object ≠ old) ∧
    (∀ before object field after ref, calls = before ++ .lookUp object field :: after →
      (performAll {} before).found object field = some ref → ref ∉ handedOut {} [] before →
      s.memory.find? ref =
        some (after.foldl (advance ref) (.ofEvents ((inForce before).eventsAt ref.key)))) ∧
    (s.memory.current.map Prod.fst).Pairwise (fun a b => compare a.key b.key = .lt) ∧
    (∀ ref, ref ∈ s.memory.current.map Prod.fst ↔ ref ∈ handedOut {} [] calls) ∧
    ∀ entry ∈ s.memory.current, s.memory.find? entry.1 = some entry.2 := by
  intro s
  have hs : Serves (inForce calls) (handedOut {} [] calls) s.memory := .performAll calls
  refine ⟨fun object field => hs.isSome_found_iff, ?_, ?_, ?_,
    List.pairwise_map.mpr s.memory.pairwise_current, fun ref => hs.mem_map_current_iff,
    fun entry hentry => (hs.mem_current_iff.mp hentry).2⟩
  · rintro before after rfl object field ref object' field' ref' href href'
    exact eq_iff_of_found href href'
  · intro before handle after old hcalls hold hfew object field ref href
    exact object_ne_of_register hcalls hold hfew href
  · rintro before object field after ref rfl href hnew
    have hsplit : s = ((performAll {} before).perform (.lookUp object field)).performAll after :=
      performAll_append
    rw [hsplit]
    exact find?_performAll (find?_of_first href hnew) after

/-- Two boxes that are written once each. -/
def twoBoxes : Recording where
  root := .root 1
  others := []
  catalogue := (∅ : Catalogue).insert "Box" ((∅ : Std.ExtTreeSet String).insert "value")
  accesses :=
    ((∅ : AccessLedger).insert ⟨⟨0⟩, "value"⟩ ⟨"Box", [⟨1, .write, some 0⟩]⟩).insert
      ⟨⟨1⟩, "value"⟩ ⟨"Box", [⟨1, .write, some 1⟩]⟩

/-- The first box is looked up and polled, and the second one takes its handle. -/
def replacedBox : List Call :=
  [.enforce twoBoxes, .identify (.create 100), .lookUp ⟨100, "Box"⟩ "value",
    .poll ⟨1, ⟨⟨0⟩, "value"⟩⟩ 1 .write, .identify (.register 100), .lookUp ⟨100, "Box"⟩ "value"]

theorem replaced_box_found_elsewhere :
    (ObjectIds.allocated {} (idCalls replacedBox)).length ≤ UInt64.size ∧
    let s := performAll {} replacedBox
    (performAll {} (replacedBox.take 2)).found ⟨100, "Box"⟩ "value" =
      some ⟨1, ⟨⟨0⟩, "value"⟩⟩ ∧
    (∃ ref, s.found ⟨100, "Box"⟩ "value" = some ref ∧ ref ≠ ⟨1, ⟨⟨0⟩, "value"⟩⟩ ∧
      ref.key.object ≠ ⟨0⟩) ∧
    s.memory.find? ⟨1, ⟨⟨0⟩, "value"⟩⟩ =
      some ((Location.ofEvents [⟨1, .write, some 0⟩]).reserve 1 .write) := by
  have hfew : (ObjectIds.allocated {} (idCalls replacedBox)).length ≤ UInt64.size := by
    decide +kernel
  have hfirst : (performAll {} (replacedBox.take 2)).found ⟨100, "Box"⟩ "value" =
      some ⟨1, ⟨⟨0⟩, "value"⟩⟩ := by decide +kernel
  obtain ⟨hfound, hsame, hrebound, hstate, -⟩ := locations_canonical replacedBox
  obtain ⟨ref, href⟩ := Option.isSome_iff_exists.mp
    ((hfound ⟨100, "Box"⟩ "value").mpr ⟨⟨1⟩, by decide +kernel, by decide⟩)
  have hids : (performAll {} (replacedBox.take 2)).objects.find? 100 ≠
      (performAll {} replacedBox).objects.find? 100 := by decide +kernel
  refine ⟨hfew, hfirst, ⟨ref, href, fun he => ?_, ?_⟩, ?_⟩
  · exact hids ((hsame (replacedBox.take 2) (replacedBox.drop 2) rfl _ _ _ _ _ _ hfirst href).mp
      he.symm).2.1
  · exact hrebound (replacedBox.take 4) 100 (replacedBox.drop 5) ⟨0⟩ rfl (by decide +kernel) hfew
      _ _ _ href
  · rw [hstate (replacedBox.take 2) ⟨100, "Box"⟩ "value" (replacedBox.drop 3) _ rfl hfirst
      (by decide +kernel)]
    rfl

end ObjectMemory
end AccessReplay
