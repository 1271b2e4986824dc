import AccessReplay.Dump.Basic
import AccessReplay.Json.Printer
import AccessReplay.Json.Reader

/-!
# Dumps as JSON

A record is written as an object with its members in a fixed order and read from
such an object with its members in any order, or from an array of its members in
that order.  Members with unknown names are ignored; a known one may occur once.
Numbers are plain digits within their range.  A dump may leave out its catalogue
and its locations, an event its sequence number; an event's sequence number may
also be null.  Of fields that the catalogue gives to one class twice, the later
set counts.
-/

namespace AccessReplay.Dump

/-! ## Reading -/

/-- The characters of a string value. -/
def readText : Json → Option String
  | .string points => (Json.text? points).map String.ofList
  | _ => none

/-- A plain number below a bound. -/
def readNatural (bound : Nat) : Json → Option Nat
  | .number lexeme =>
    match Text.readDigits bound 0 lexeme with
    | .ok n => some n
    | .error _ => none
  | _ => none

/-- A number of 64 bits. -/
def readWord64 (j : Json) : Option UInt64 := (readNatural Text.bound64 j).map UInt64.ofNat

/-- A number of 32 bits. -/
def readWord32 (j : Json) : Option UInt32 := (readNatural Text.bound32 j).map UInt32.ofNat

/-- The items of an array, each read. -/
def readList {α : Type} (read : Json → Option α) : Json → Option (List α)
  | .array items => items.mapM read
  | _ => none

/-- The members of an object with the characters of their names. -/
def readMembers (members : List (List Nat × Json)) : Option (List (String × Json)) :=
  members.mapM fun m => (Json.text? m.1).map fun name => (String.ofList name, m.2)

/-- The member with a name, if there is one; there must not be two. -/
def member? (members : List (String × Json)) (name : String) : Option (Option Json) :=
  match members.filter (·.1 == name) with
  | [] => some none
  | [m] => some (some m.2)
  | _ => none

/-- The one member with a name. -/
def member (members : List (String × Json)) (name : String) : Option Json :=
  (member? members name).join

/-- What a missing member stands for, or what a present one holds. -/
def readOr {α : Type} (default : α) (read : Json → Option α) : Option Json → Option α
  | none => some default
  | some j => read j

/-- The kind of an access: its word, or an object of the word and null. -/
def readKind : Json → Option AccessKind
  | .string points => readText (.string points) >>= AccessKind.ofWord?
  | .object [(name, .null)] => readText (.string name) >>= AccessKind.ofWord?
  | _ => none

/-- A sequence number, or null. -/
def readSeq : Json → Option (Option UInt64)
  | .null => some none
  | j => (readWord64 j).map some

/-- An access from its members. -/
def accessOf (thread op : Json) (seq : Option Json) : Option RecordedAccess := do
  return ⟨← readWord64 thread, ← readKind op, ← readOr none readSeq seq⟩

/-- An access. -/
def readAccess : Json → Option RecordedAccess
  | .object members => do
    let ms ← readMembers members
    accessOf (← member ms "thread") (← member ms "op") (← member? ms "seq")
  | .array [thread, op] => accessOf thread op none
  | .array [thread, op, seq] => accessOf thread op (some seq)
  | _ => none

/-- A thread from its members. -/
def threadOf (id position : Json) : Option ThreadEntry := do
  return ⟨← readWord64 id, ← readList readWord32 position⟩

/-- A thread. -/
def readThread : Json → Option ThreadEntry
  | .object members => do
    let ms ← readMembers members
    threadOf (← member ms "id") (← member ms "position")
  | .array [id, position] => threadOf id position
  | _ => none

/-- A location from its members. -/
def locationOf (object className field events : Json) : Option LocationEntry := do
  return ⟨⟨← readWord64 object⟩, ← readText className, ← readText field,
    ← readList readAccess events⟩

/-- A location. -/
def readLocation : Json → Option LocationEntry
  | .object members => do
    let ms ← readMembers members
    locationOf (← member ms "object") (← member ms "class") (← member ms "field")
      (← member ms "events")
  | .array [object, className, field, events] => locationOf object className field events
  | _ => none

/-- One class of the catalogue with its fields. -/
def readClass (m : String × Json) : Option (String × Std.ExtTreeSet String) := do
  return (m.1, .ofList (← readList readText m.2))

/-- The catalogue; of two sets for one class the later counts. -/
def readCatalogue : Json → Option Catalogue
  | .object members => do
    let ms ← readMembers members
    let classes ← ms.mapM readClass
    return classes.foldl (fun c entry => c.insert entry.1 entry.2) ∅
  | _ => none

/-- A dump from its members. -/
def dumpOf (threads : Json) (sharedFields locations : Option Json) : Option Dump := do
  return ⟨← readList readThread threads, ← readOr ∅ readCatalogue sharedFields,
    ← readOr [] (readList readLocation) locations⟩

/-- A dump. -/
def ofJson? : Json → Option Dump
  | .object members => do
    let ms ← readMembers members
    dumpOf (← member ms "threads") (← member? ms "shared_fields") (← member? ms "locations")
  | .array [threads] => dumpOf threads none none
  | .array [threads, sharedFields] => dumpOf threads (some sharedFields) none
  | .array [threads, sharedFields, locations] => dumpOf threads (some sharedFields) (some locations)
  | _ => none

/-- The dump that a text spells. -/
def parse? (text : List Char) : Option Dump :=
  Json.parse? text >>= ofJson?

/-! ## Writing -/

/-- An access as an object; without a sequence number the member is left out. -/
def writeAccess (a : RecordedAccess) : Json :=
  .ofMembers <|
    [("thread", .ofNat a.thread.toNat), ("op", .ofText a.kind.word)] ++
      match a.seq with
      | some seq => [("seq", .ofNat seq.toNat)]
      | none => []

/-- A thread as an object. -/
def writeThread (t : ThreadEntry) : Json :=
  .ofMembers [("id", .ofNat t.id.toNat),
    ("position", .array (t.position.map fun i => .ofNat i.toNat))]

/-- A location as an object. -/
def writeLocation (l : LocationEntry) : Json :=
  .ofMembers [("object", .ofNat l.object.number.toNat), ("class", .ofText l.className),
    ("field", .ofText l.field), ("events", .array (l.events.map writeAccess))]

/-- A catalogue as an object of sorted lists. -/
def writeCatalogue (c : Catalogue) : Json :=
  .ofMembers (c.listing.map fun entry => (entry.1, .array (entry.2.map .ofText)))

/-- A dump as an object. -/
def toJson (d : Dump) : Json :=
  .ofMembers [("threads", .array (d.threads.map writeThread)),
    ("shared_fields", writeCatalogue d.sharedFields),
    ("locations", .array (d.locations.map writeLocation))]

/-- The text of a dump, without blanks. -/
def compact (d : Dump) : List Char := d.toJson.compact

end AccessReplay.Dump
