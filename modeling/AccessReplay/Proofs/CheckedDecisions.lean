import AccessReplay.Proofs.AgentCalls
import AccessReplay.Proofs.OpenAccesses
import AccessReplay.Proofs.SimulatedObjects
import AccessReplay.Proofs.Traffic

/-!
# Which accesses are checked, and where

A hook that announces an access decides on it once: the access is checked at the location that
the look-up finds, or it is not checked (`Engine.decision`).  In a replay that knows the objects of
a recording by their recorded ids (`Hosts`), an access that a plan has a thread make is checked
at the location that it was recorded at, if the catalogue lists that, and not at all otherwise
(`Hosts.decision_eq`).
-/
namespace AccessReplay

open Plan (PlacedAccess placed)

theorem Archive.Bounded.notes {a : Archive} (h : a.Bounded) (ns : List Notice) :
    (a.notes ns).Bounded := ⟨h.book, h.memory⟩

/-! ## Decisions -/

/-- The access that a hook announced and that is not decided yet. -/
def Stage.undecided : Stage → List Request
  | .announced r | .counted r | .choosing r | .locating r => [r]
  | .committing _ next | .filing _ next | .releasing next => next.toList
  | _ => []

/-- What a step from one stage to another decides on the access that a thread announced: the
location that it is checked at, or that it is not checked. -/
def Stage.decision : Stage → Stage → List (Request × Option LocationRef)
  | .choosing r, .leaving | .locating r, .leaving => [(r, none)]
  | .locating r, .asking q => [(r, some q.location)]
  | _, _ => []

namespace Engine

variable {e e' : Engine} {c : Caller} {r : Recording} {p : Plan} {n : Nat}

/-- What the next step of a thread decides on the access that it announced. -/
def decision (e : Engine) (c : Caller) : List (Request × Option LocationRef) :=
  c.stage.decision (e.step c).2.stage

/-- **An announced access is decided once.** -/
theorem undecided_step (e : Engine) (c : Caller) :
    c.stage.undecided = (e.decision c).map Prod.fst ++ (e.step c).2.stage.undecided := by
  obtain ⟨q, stage⟩ := c
  cases stage with
  | choosing r =>
    simp only [decision, step]
    split <;> rfl
  | locating r =>
    simp only [decision, step]
    split <;> rfl
  | counted r | concluding kind | waiting r | resting r | asking r =>
    simp only [decision, step]
    split <;> rfl
  | releasing next => cases next <;> rfl
  | _ => rfl

/-- An access is not checked if its thread finds that it is not shared; otherwise it is checked
where the look-up finds its location, if it finds one. -/
theorem mem_decision {x : Request × Option LocationRef} (hx : x ∈ e.decision c) :
    (c.stage = .choosing x.1 ∧ x.2 = none ∧
      (e.checking && e.memory.isShared x.1.object x.1.field) = false) ∨
    (c.stage = .locating x.1 ∧ x.2 = (e.memory.lookUp e.objects x.1.object x.1.field).2) := by
  obtain ⟨who, stage⟩ := c
  cases stage with
  | choosing q =>
    simp only [decision, step] at hx
    split at hx
    · cases hx
    · next hshared =>
      obtain rfl := List.mem_singleton.mp hx
      exact .inl ⟨rfl, rfl, Bool.eq_false_iff.mpr hshared⟩
  | locating q =>
    simp only [decision, step, locate] at hx
    split at hx
    · next hfound =>
      obtain rfl := List.mem_singleton.mp hx
      exact .inr ⟨rfl, hfound.symm⟩
    · next ref hfound =>
      obtain rfl := List.mem_singleton.mp hx
      exact .inr ⟨rfl, hfound.symm⟩
  | releasing next => cases next <;> cases hx
  | outside | committing | filing | flagging | announced | marking | counting | reporting
  | leaving => cases hx
  | counted | concluding | waiting | resting | asking =>
    simp only [decision, step] at hx
    split at hx <;> cases hx

/-! ## Replays of a recording whose objects are created -/

/-- The replay checks accesses by a recording, whose objects it knows by their recorded ids, and
its locations have the recorded schedules. -/
structure Hosts (e : Engine) (r : Recording) (n : Nat) : Prop where
  checking : e.checking = true
  edition : e.memory.edition = n
  inForce : e.memory.recording = some r
  schedules : e.memory.schedules = LiveMemory.schedulesOf r.accesses
  known : ∀ key : LocationKey, key ∈ r.accesses →
    e.objects.find? (Plan.handleOf key.object) = some key.object
  recorded : ∀ (ref : LocationRef) (l : Location), ref.edition = n →
    e.memory.find? ref = some l → l.schedule = Schedule.ofEvents (r.accesses.eventsAt ref.key)

theorem Hosts.of_same (h : e.Hosts r n) (hc : e'.checking = e.checking)
    (hm : e'.memory = e.memory) (ho : e'.objects = e.objects) : e'.Hosts r n where
  checking := hc.trans h.checking
  edition := by rw [hm, h.edition]
  inForce := by rw [hm, h.inForce]
  schedules := by rw [hm, h.schedules]
  known := by rw [ho]; exact h.known
  recorded := by rw [hm]; exact h.recorded

theorem recording_memoryNext (e : Engine) (stage : Stage) :
    (e.memoryNext stage).recording = e.memory.recording := by
  cases stage with
  | asking q =>
    simp only [memoryNext, LiveMemory.poll]
    split <;> rfl
  | locating r =>
    simp only [memoryNext]
    rcases LiveMemory.lookUp_fst e.memory e.objects r.object r.field with hm |
      ⟨new, schedule, -, -, -, hm⟩ <;> rw [hm]
  | _ => rfl

theorem schedule_locationNext (ref : LocationRef) (l : Location) (stage : Stage) :
    (locationNext ref l stage).schedule = l.schedule := by
  cases stage with
  | asking q =>
    simp only [locationNext, Location.reserve]
    split
    · split <;> rfl
    · rfl
  | committing a next =>
    simp only [locationNext, Location.commit]
    grind
  | marking q reason =>
    simp only [locationNext, Location.diverge]
    split <;> rfl
  | _ => rfl

/-- No step makes a location go away. -/
theorem exists_find?_step {ref : LocationRef} (c : Caller)
    (h : ∃ l, e.memory.find? ref = some l) : ∃ l, (e.step c).1.memory.find? ref = some l := by
  obtain ⟨l, hl⟩ := h
  rw [(effect_step e c).memory]
  exact ⟨_, find?_memoryNext hl c.stage⟩

theorem Hosts.step (h : e.Hosts r n) (c : Caller) : (e.step c).1.Hosts r n := by
  have heffect := effect_step e c
  refine ⟨(congrArg Setting.checking heffect.setting).trans h.checking, ?_, ?_, ?_, ?_, ?_⟩
  · rw [heffect.memory, Traffic.edition_memoryNext, h.edition]
  · rw [heffect.memory, recording_memoryNext, h.inForce]
  · rw [heffect.memory, schedules_memoryNext, h.schedules]
  · rw [show (e.step c).1.objects = e.objects from congrArg Setting.objects heffect.setting]
    exact h.known
  · intro ref l' hedition hl'
    rw [heffect.memory] at hl'
    cases hl : e.memory.find? ref with
    | some l =>
      rw [find?_memoryNext hl] at hl'
      obtain rfl := Option.some.inj hl'
      rw [schedule_locationNext]
      exact h.recorded ref l hedition hl
    | none =>
      -- the location was made by this step, from the schedules of the recording
      obtain ⟨-, schedule, hschedule, rfl⟩ := locating_of_new hl hl'
      rw [h.schedules] at hschedule
      exact congrArg Location.schedule (Recording.schedulesOf_eq_some hschedule)

/-- Once a thread looks a location up, the field is listed. -/
def Chosen (r : Recording) (stage : Stage) : Prop :=
  ∀ q, stage = .locating q → r.catalogue.isShared q.object.className q.field = true

theorem Hosts.isShared (h : e.Hosts r n) (object : AnnouncedObject) (field : String) :
    e.memory.isShared object field = r.catalogue.isShared object.className field := by
  rw [LiveMemory.isShared, h.inForce]

theorem Hosts.chosen_step (h : e.Hosts r n) (c : Caller) : Chosen r (e.step c).2.stage := by
  obtain ⟨who, stage⟩ := c
  intro q hq
  cases stage with
  | choosing r' =>
    simp only [Engine.step, h.isShared] at hq
    split at hq
    · next hshared =>
      obtain rfl := Stage.locating.inj hq
      exact (Bool.and_eq_true_iff.mp hshared).2
    · cases hq
  | outside | committing | filing | flagging | announced | marking | counting | reporting
  | leaving => cases hq
  | releasing next => cases next <;> cases hq
  | counted | concluding | waiting | resting | asking | locating =>
    simp only [Engine.step] at hq
    split at hq <;> cases hq

/-- What an access that was recorded finds: its object, its class and its location. -/
theorem Hosts.lookUp (h : e.Hosts r n) {key : LocationKey} (hkey : key ∈ r.accesses)
    (className : String) :
    (e.memory.lookUp e.objects ⟨Plan.handleOf key.object, className⟩ key.field).2 =
      some ⟨n, key⟩ := by
  have hschedule : key ∈ e.memory.schedules := by
    rw [h.schedules, LiveMemory.schedulesOf]
    simpa using hkey
  obtain ⟨schedule, hs⟩ := Option.isSome_iff_exists.mp
    (Std.ExtTreeMap.mem_iff_isSome_getElem?.mp hschedule)
  simp only [LiveMemory.lookUp, h.known key hkey, h.edition, hs]
  split <;> rfl

end Engine

namespace Plan

variable {r : Recording} {p : Plan} {a : PlacedAccess}

theorem exists_location (ha : a ∈ placed r.accesses) : ∃ l, r.accesses[a.1]? = some l := by
  cases hl : r.accesses[a.1]? with
  | some l => exact ⟨l, rfl⟩
  | none =>
    have hmem := Plan.mem_placed.mp ha
    simp [AccessLedger.eventsAt, hl] at hmem

/-- An access is announced with the class that it was recorded with. -/
theorem isShared_request (hp : Made r p) (hone : r.OneClass) (ha : a ∈ placed r.accesses) :
    r.catalogue.isShared (p.request a).object.className (p.request a).field = r.listed a.1 := by
  obtain ⟨l, hl⟩ := exists_location ha
  have hclass : (p.request a).object.className = l.className := by
    simp [request, announced, hp.classes, Array.getD_eq_getD_getElem?, getElem?_classesOf hone hl]
  rw [hclass]
  simp [Recording.listed, hl, request]

end Plan

namespace Engine

variable {e : Engine} {c : Caller} {r : Recording} {p : Plan} {n : Nat} {a : PlacedAccess}

/-- **An access to a listed field is checked at its own location, and no other one is.** -/
theorem Hosts.decision_eq (h : e.Hosts r n) (hp : Plan.Made r p) (hone : r.OneClass)
    (ha : a ∈ placed r.accesses) (hchosen : Chosen r c.stage)
    {x : Request × Option LocationRef} (hx : x ∈ e.decision c) (hrequest : x.1 = p.request a) :
    x.2 = if r.listed a.1 then some ⟨n, a.1⟩ else none := by
  have hlisted := Plan.isShared_request hp hone ha
  rcases mem_decision hx with ⟨-, hnone, hshared⟩ | ⟨hstage, hfound⟩
  · rw [h.isShared, h.checking, Bool.true_and, hrequest, hlisted] at hshared
    rw [hnone, hshared]
    rfl
  · have hshared := hchosen x.1 hstage
    rw [hrequest, hlisted] at hshared
    obtain ⟨l, hl⟩ := Plan.exists_location ha
    rw [if_pos hshared, hfound, hrequest]
    exact h.lookUp (Std.ExtTreeMap.mem_iff_isSome_getElem?.mpr (by rw [hl]; rfl)) _

/-- The location that an access is checked at is one of the replay. -/
theorem Hosts.find?_of_decision (h : e.Hosts r n) {x : Request × Option LocationRef}
    (hx : x ∈ e.decision c) {ref : LocationRef} (href : x.2 = some ref) :
    ref.edition = n ∧ ∃ l, (e.step c).1.memory.find? ref = some l := by
  rcases mem_decision hx with ⟨-, hnone, -⟩ | ⟨hstage, hfound⟩
  · rw [hnone] at href
    cases href
  · obtain ⟨id, -, hplace, hl⟩ := LiveMemory.lookUp_snd (hfound.symm.trans href)
    refine ⟨by rw [hplace, ← h.edition], ?_⟩
    rw [(effect_step ..).memory, hstage]
    exact hl

/-- **A replay whose objects are created by a plan** knows them by their recorded ids. -/
theorem hosts_created (hp : Plan.Made r p) (hone : r.OneClass) {past : Archive}
    (hpast : past.Bounded) (checksum : UInt32) (root : AnnouncedThread) (budget : Budget)
    (observer : Option Observer) (remark : Notice) :
    (p.objects.foldl Engine.objectCreated
      ((start past r checksum root budget observer).note remark)).Hosts r
        (past.memory.edition + 1) := by
  obtain ⟨counterparts, journal, recorded, hstart⟩ :=
    start_eq past r checksum root budget observer
  obtain ⟨objects, journal', hfold, -, hfind⟩ := Plan.find?_created p
    (e := (start past r checksum root budget observer).note remark)
    (by rw [checking_note, checking_start]) (by rw [hstart]; rfl) (Plan.size_classes_le hp)
  rw [Plan.objects, hfold, hstart]
  refine ⟨rfl, rfl, rfl, rfl, fun key hkey => ?_, fun ref l hedition hl => ?_⟩
  · obtain ⟨l, hl⟩ := Option.isSome_iff_exists.mp (Std.ExtTreeMap.mem_iff_isSome_getElem?.mp hkey)
    have hclass := Plan.getElem?_classesOf hone hl
    rw [← hp.classes] at hclass
    obtain ⟨hlt, -⟩ := Array.getElem?_eq_some_iff.mp hclass
    have hknown := hfind key.object.number.toNat hlt
    rwa [UInt64.ofNat_toNat] at hknown
  · have hbound := hpast.memory ref l hl
    omega

end Engine
end AccessReplay
