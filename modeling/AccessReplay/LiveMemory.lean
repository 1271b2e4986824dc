import AccessReplay.Location.Live
import AccessReplay.Recording

/-!
# Live memory

The live locations of a replay.  A field is shared if the recording's catalogue
says so, and a shared field of an object becomes a live location when it is first
looked up, provided its object is known and accesses were recorded for it.
Everything else is unshared and runs freely.

Putting a recording in force starts a new edition: its locations start afresh,
and those of earlier editions keep their state for whoever still names them.
-/

namespace AccessReplay

/-- The live locations of every edition, and the recording now in force. -/
structure LiveMemory where
  edition : Nat := 0
  recording : Option Recording := none
  /-- The schedules of the recorded locations. -/
  schedules : Std.ExtTreeMap LocationKey Schedule := ∅
  locations : Std.ExtTreeMap LocationRef Location := ∅
deriving Inhabited

namespace LiveMemory

/-- The schedules of a ledger. -/
def schedulesOf (ledger : AccessLedger) : Std.ExtTreeMap LocationKey Schedule :=
  ledger.map fun _ location => Schedule.ofEvents location.events

/-- Puts a recording in force. -/
def enforce (m : LiveMemory) (r : Recording) : LiveMemory :=
  { m with
    edition := m.edition + 1
    recording := some r
    schedules := schedulesOf r.accesses }

/-- Does the recording in force say that the field is shared? -/
def isShared (m : LiveMemory) (object : AnnouncedObject) (field : String) : Bool :=
  match m.recording with
  | some r => r.catalogue.isShared object.className field
  | none => false

/-- A live location. -/
def find? (m : LiveMemory) (ref : LocationRef) : Option Location := m.locations[ref]?

/-- Changes a live location. -/
def update (m : LiveMemory) (ref : LocationRef) (f : Location → Location) : LiveMemory :=
  { m with locations := m.locations.modify ref f }

/-- The location of a field, if its object is known and accesses were recorded for
it; the memory afterwards holds the location. -/
def lookUp (m : LiveMemory) (objects : ObjectIds) (object : AnnouncedObject) (field : String) :
    LiveMemory × Option LocationRef :=
  match objects.find? object.handle with
  | none => (m, none)
  | some id =>
    let ref : LocationRef := ⟨m.edition, ⟨id, field⟩⟩
    if ref ∈ m.locations then (m, some ref)
    else match m.schedules[ref.key]? with
      | none => (m, none)
      | some schedule =>
        ({ m with locations := m.locations.insert ref { schedule } }, some ref)

/-- The notices given while a field is looked up. -/
def remarks (m : LiveMemory) (objects : ObjectIds) (object : AnnouncedObject) (field : String) :
    List Notice :=
  match objects.find? object.handle with
  | none => [.handleUnknown object.className object.handle field]
  | some id =>
    let ref : LocationRef := ⟨m.edition, ⟨id, field⟩⟩
    if ref ∈ m.locations ∨ ref.key ∈ m.schedules then [] else [.nothingRecorded ref.key]

/-- The locations of the edition in force that were looked up, in key order. -/
def current (m : LiveMemory) : List (LocationRef × Location) :=
  m.locations.toList.filter fun entry => entry.1.edition == m.edition

/-- Asks a live location for an access. -/
def poll (m : LiveMemory) (ref : LocationRef) (thread : RuntimeId) (kind : AccessKind) :
    LiveMemory × Verdict :=
  match m.find? ref with
  | none => (m, .grant)
  | some l => (m.update ref fun l => l.reserve thread kind, l.verdict thread kind)

/-- Commits an access to the location it was opened on. -/
def commit (m : LiveMemory) (a : OpenAccess) : LiveMemory :=
  m.update a.location fun l => l.commit a.thread a.kind a.outcome

/-- Marks a live location diverged. -/
def diverge (m : LiveMemory) (ref : LocationRef) : LiveMemory :=
  m.update ref Location.diverge

end LiveMemory

/-! ## Remarks on objects -/

namespace ObjectIds

/-- What is said when an object is announced as new. -/
def registerRemark (ids : ObjectIds) (object : AnnouncedObject) : Notice :=
  match ids.find? object.handle with
  | some old => .handleReused object.handle ⟨ids.next⟩ old
  | none => .objectNamed ⟨ids.next⟩ object.className object.handle

/-- What is said when an object that may be known is announced. -/
def createRemarks (ids : ObjectIds) (object : AnnouncedObject) : List Notice :=
  match ids.find? object.handle with
  | some _ => []
  | none => [.objectNamed ⟨ids.next⟩ object.className object.handle]

end ObjectIds
end AccessReplay
