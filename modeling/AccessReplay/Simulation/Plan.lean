import AccessReplay.Crew

/-!
# Simulation plans

A recording says enough to be acted out without the program it was made of: each
recorded thread is started from its recorded parent and makes the accesses that
the recording attributes to it.  A `Plan` is read off a recording and says which
objects to create, how many threads each place of the spawn tree starts, and what
each place does.

Objects get their ids in the order of creation, so the ones that no location
mentions are created as well, up to a limit.  Child indices that were not
recorded become threads that do nothing.
-/

namespace AccessReplay

/-- An access of a simulated thread. -/
structure SimulatedAccess where
  object : ObjectId
  field : String
  kind : AccessKind
deriving DecidableEq, Repr, Inhabited

/-- What it takes to act a recording out. -/
structure Plan where
  /-- The class of each object, by id. -/
  classes : Array String
  /-- What each recorded place does. -/
  accesses : Std.ExtTreeMap Position (List SimulatedAccess)
  /-- How many threads a place starts. -/
  children : Std.ExtTreeMap Position UInt32
deriving DecidableEq, Inhabited

/-- Object ids from here on are not simulated. -/
def Plan.objectLimit : Nat := 1048576

/-- Why a recording cannot be acted out. -/
inductive PlanFault where
  /-- A recorded child index is the last one there is, so that the number of threads
  to start is one too many to be counted. -/
  | placeOutOfReach
  /-- An object is beyond the limit. -/
  | objectBeyondLimit (object : ObjectId)
deriving DecidableEq, Repr, Inhabited

/-- The wording of a plan's fault. -/
def PlanFault.message : PlanFault → String
  | .placeOutOfReach => "attempt to add with overflow"
  | .objectBeyondLimit object =>
    s!"recorded object id {object.number} is beyond the " ++
      s!"{Plan.objectLimit} objects a simulation creates"

namespace Plan

/-- The class of an object that no location mentions. -/
def unmentionedClass : String := "<unrecorded>"

/-- Gives an object its class; objects before it are there as well afterwards. -/
def placeClass (classes : Array String) (object : ObjectId) (className : String) : Array String :=
  let id := object.number.toNat
  (classes ++ Array.replicate (id + 1 - classes.size) unmentionedClass).setIfInBounds id className

/-- The class of each object up to the last recorded one; of two locations of one
object the later one decides. -/
def classesOf (ledger : AccessLedger) : Array String :=
  ledger.toList.foldl (fun classes entry => placeClass classes entry.1.object entry.2.className) #[]

/-- A recorded access with the location it was made to. -/
abbrev PlacedAccess := LocationKey × RecordedAccess

/-- All recorded accesses, location by location. -/
def placed (ledger : AccessLedger) : List PlacedAccess :=
  ledger.toList.flatMap fun entry => entry.2.events.map fun e => (entry.1, e)

/-- Does the first access come no later than the second one in the whole recording? -/
def seqLe (a b : PlacedAccess) : Bool := a.2.seq.getD 0 ≤ b.2.seq.getD 0

/-- Puts accesses in the order in which they are made: by their place in the whole
recording, and those without one last, as they are listed. -/
def inOrder (accesses : List PlacedAccess) : List PlacedAccess :=
  (accesses.filter fun a => a.2.seq.isSome).mergeSort seqLe ++
    accesses.filter fun a => a.2.seq.isNone

/-- What a recorded thread does. -/
def accessesOf (ledger : AccessLedger) (thread : RuntimeId) : List SimulatedAccess :=
  (inOrder ((placed ledger).filter fun a => a.2.thread == thread)).map fun a =>
    ⟨a.1.object, a.1.field, a.2.kind⟩

/-- Lets the parent of a place start enough threads to reach it. -/
def reach (children : Std.ExtTreeMap Position UInt32) (position : Position) :
    Std.ExtTreeMap Position UInt32 :=
  match position.getLast? with
  | none => children
  | some index =>
    let parent := position.dropLast
    children.insert parent (max (children.getD parent 0) (index + 1))

/-- Does no number of threads to start reach a place? -/
def outOfReach (position : Position) : Bool := position.getLast? == some 0xFFFFFFFF

/-- The plan of a recording. -/
def ofRecording (r : Recording) : Except PlanFault Plan :=
  if r.threads.any fun t => outOfReach t.position then .error .placeOutOfReach
  else match r.accesses.keys.find? fun key => objectLimit ≤ key.object.number.toNat with
  | some key => .error (.objectBeyondLimit key.object)
  | none =>
    .ok
      { classes := classesOf r.accesses
        accesses := .ofList (r.threads.map fun t => (t.position, accessesOf r.accesses t.raw))
        children := r.threads.foldl (fun children t => reach children t.position) ∅ }

/-- The handle of an object. -/
def handleOf (object : ObjectId) : Handle := 0x1000 + 0x10 * object.number

/-- An object as it is announced. -/
def announced (p : Plan) (object : ObjectId) : AnnouncedObject :=
  ⟨handleOf object, p.classes.getD object.number.toNat unmentionedClass⟩

/-- The objects in the order of creation. -/
def objects (p : Plan) : List AnnouncedObject :=
  (List.range p.classes.size).map fun id => p.announced ⟨UInt64.ofNat id⟩

/-- The name of the thread at a place. -/
def threadName (position : Position) : String := "sim-" ++ position.text

/-- What the thread at a place has to do. -/
def program (p : Plan) (position : Position) : List Request :=
  (p.accesses.getD position []).map fun a => ⟨p.announced a.object, a.field, a.kind⟩

/-- The thread at a place. -/
def member (p : Plan) (position : Position) : Member :=
  { name := threadName position, program := p.program position }

/-- The places that a place starts threads at. -/
def childPlaces (parent : Position) (count : UInt32) : List Position :=
  (List.range count.toNat).map fun i => parent ++ [UInt32.ofNat i]

/-- Who does what when the plan is carried out. -/
def script (p : Plan) : Script :=
  .ofList <| ([] :: p.children.toList.flatMap fun entry => childPlaces entry.1 entry.2).map
    fun position => (position, p.member position)

end Plan
end AccessReplay
