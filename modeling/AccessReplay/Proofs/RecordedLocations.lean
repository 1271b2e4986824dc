import AccessReplay.LiveMemory
import AccessReplay.Proofs.LocationProgress

/-!
# The locations of a recording

Threads make their accesses at many locations.  `Recording.locationAt` is a location as
the recording puts it in force, before its first access; it is what the live memory
hands out when a shared field is first looked up.
-/
namespace AccessReplay

/-- An access to make: where, and of which kind. -/
structure LocatedAccess where
  key : LocationKey
  kind : AccessKind
deriving DecidableEq, Repr, Inhabited

/-- The accesses recorded at a location, none at one that is not entered. -/
def AccessLedger.eventsAt (ledger : AccessLedger) (key : LocationKey) : List RecordedAccess :=
  ledger[key]?.elim [] RecordedLocation.events

theorem AccessLedger.eventsAt_of_getElem? {ledger : AccessLedger} {key : LocationKey}
    {location : RecordedLocation} (h : ledger[key]? = some location) :
    ledger.eventsAt key = location.events := by
  simp [eventsAt, h]

namespace LiveMemory

variable {m : LiveMemory} {ledger : AccessLedger} {objects : ObjectIds} {object : AnnouncedObject}
  {field : String} {ref : LocationRef}

/-- The schedule that a location is made from is that of the accesses recorded there. -/
theorem schedulesOf_eq_some {key : LocationKey} {schedule : Schedule}
    (h : (schedulesOf ledger)[key]? = some schedule) :
    ({ schedule } : Location) = .ofEvents (ledger.eventsAt key) := by
  simp only [schedulesOf, Std.ExtTreeMap.getElem?_map, Option.map_eq_some_iff] at h
  obtain ⟨location, hl, rfl⟩ := h
  rw [AccessLedger.eventsAt_of_getElem? hl, Location.ofEvents]

/-- **What a look-up hands out first** is the recorded location before its first access. -/
theorem find?_lookUp_of_new (hm : m.schedules = schedulesOf ledger)
    (hfound : (m.lookUp objects object field).2 = some ref) (hnew : ref ∉ m.locations) :
    (m.lookUp objects object field).1.find? ref = some (.ofEvents (ledger.eventsAt ref.key)) := by
  unfold lookUp at hfound ⊢
  cases hid : objects.find? object.handle with
  | none => simp [hid] at hfound
  | some id =>
    simp only [hid] at hfound ⊢
    split at hfound
    · next hmem =>
      obtain rfl := Option.some.inj hfound
      exact absurd hmem hnew
    · next hmiss =>
      rw [if_neg hmiss]
      split at hfound
      · cases hfound
      · next schedule hs =>
        obtain rfl := Option.some.inj hfound
        rw [hm] at hs
        simp [find?, schedulesOf_eq_some hs]

end LiveMemory

namespace Recording

variable (r : Recording) (key : LocationKey)

/-- The order of accesses recorded at a location. -/
def orderAt : List Access := accessOrder (r.accesses.eventsAt key)

/-- A location of the recording before its first access. -/
def locationAt : Location := .ofEvents (r.accesses.eventsAt key)

theorem tracks_locationAt : (r.locationAt key).Tracks (r.orderAt key) (fun _ => none) :=
  Location.tracks_ofEvents _

variable {r key}

/-- The live memory makes its locations from the same schedules. -/
theorem schedulesOf_eq_some {schedule : Schedule}
    (h : (LiveMemory.schedulesOf r.accesses)[key]? = some schedule) :
    ({ schedule } : Location) = r.locationAt key :=
  LiveMemory.schedulesOf_eq_some h

end Recording
end AccessReplay
