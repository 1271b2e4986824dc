import AccessReplay.Text.Decimal
import Std.Data.ExtTreeMap

/-!
# Object identity

A program's objects are announced by handles, which mean nothing outside the run
and may be used again once their object is gone.  What a recording and a replay
share is the order of creation, so every object gets the index of its creation
as its `ObjectId`.

`register` is for an object that is announced as new: it always takes a fresh id,
even if its handle is known.  `create` is for an object that may have been seen:
it takes a fresh id only if its handle is unknown.
-/

namespace AccessReplay

/-- An object's place in the order of creation. -/
structure ObjectId where
  number : UInt64
deriving DecidableEq, Repr, Inhabited

/-- How an object is named to the user. -/
def ObjectId.text (o : ObjectId) : String := s!"obj#{o.number}"

/-- What the program calls an object while it lives. -/
abbrev Handle := UInt64

/-- An object as the instrumented program announces it. -/
structure AnnouncedObject where
  handle : Handle
  className : String
deriving DecidableEq, Repr, Inhabited

/-- The ids given out and which handle each current one belongs to. -/
structure ObjectIds where
  /-- The next id to give out. -/
  next : UInt64 := 0
  bound : Std.ExtTreeMap Handle ObjectId := ∅
deriving Inhabited

namespace ObjectIds

/-- The id bound to a handle. -/
def find? (ids : ObjectIds) (handle : Handle) : Option ObjectId :=
  ids.bound[handle]?

/-- Gives a handle the next id, whatever it was bound to. -/
def register (ids : ObjectIds) (handle : Handle) : ObjectIds × ObjectId :=
  let id : ObjectId := ⟨ids.next⟩
  (⟨ids.next + 1, ids.bound.insert handle id⟩, id)

/-- The id of a handle, which is the next one if the handle is unknown. -/
def create (ids : ObjectIds) (handle : Handle) : ObjectIds × ObjectId :=
  match ids.find? handle with
  | some id => (ids, id)
  | none => ids.register handle

/-- How many ids were given out. -/
def size (ids : ObjectIds) : Nat := ids.next.toNat

/-- Was no id given out? -/
def isEmpty (ids : ObjectIds) : Bool := ids.size == 0

end ObjectIds
end AccessReplay
