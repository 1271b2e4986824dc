import AccessReplay.Access
import AccessReplay.Location.Key
import Std.Data.ExtTreeSet

/-!
# Dumps

A dump is what a recorder leaves behind: the threads of the recorded run with
their places in the spawn tree, the fields of each class that more than one
thread touched, and for every location the accesses made to it in the order they
happened.  Nothing here is checked; `Recording` is the checked form.
-/

namespace AccessReplay

/-- A recorded thread. -/
structure ThreadEntry where
  id : RuntimeId
  position : Position
deriving DecidableEq, Repr, Inhabited

/-- The accesses recorded at one location. -/
structure LocationEntry where
  object : ObjectId
  className : String
  field : String
  events : List RecordedAccess
deriving DecidableEq, Repr, Inhabited

/-- The location's key. -/
def LocationEntry.key (l : LocationEntry) : LocationKey := ⟨l.object, l.field⟩

/-- The shared fields of each class. -/
abbrev Catalogue := Std.ExtTreeMap String (Std.ExtTreeSet String)

instance : DecidableEq Catalogue := inferInstance

/-- Is a field of a class shared? -/
def Catalogue.isShared (catalogue : Catalogue) (className field : String) : Bool :=
  match catalogue[className]? with
  | some fields => fields.contains field
  | none => false

/-- The catalogue as sorted lists. -/
def Catalogue.listing (c : Catalogue) : List (String × List String) :=
  c.toList.map fun entry => (entry.1, entry.2.toList)

/-- What a recorder leaves behind. -/
structure Dump where
  threads : List ThreadEntry
  sharedFields : Catalogue := ∅
  locations : List LocationEntry := []
deriving DecidableEq, Inhabited

end AccessReplay
