import AccessReplay.Notice
import AccessReplay.Recording

/-!
# Spawn trees

The threads of the run at hand, by runtime id.  A thread gets its place when it
is started: the next child of its parent.  A parent never seen counts as the
root, and a thread that is started again keeps its place and uses up no index.
The recorded thread at the same place is a live thread's counterpart.
-/

namespace AccessReplay

/-- A live thread and how many children it has started. -/
structure SpawnNode where
  id : ThreadId
  nextChild : UInt32 := 0
deriving DecidableEq, Repr, Inhabited

/-- The live threads and their recorded counterparts. -/
structure SpawnTree where
  /-- Runtime id of the thread everything starts from. -/
  root : RuntimeId
  nodes : Std.ExtTreeMap RuntimeId SpawnNode
  /-- Recorded runtime ids of the live threads matched so far. -/
  counterparts : Std.ExtTreeMap RuntimeId RuntimeId := ∅
deriving Inhabited

namespace SpawnTree

/-- The tree of a single thread. -/
def ofRoot (raw : RuntimeId) : SpawnTree where
  root := raw
  nodes := (∅ : Std.ExtTreeMap RuntimeId SpawnNode).insert raw ⟨.root raw, 0⟩

/-- The node of the root. -/
def rootNode (t : SpawnTree) : SpawnNode := t.nodes.getD t.root ⟨.root t.root, 0⟩

/-- The root's identity. -/
def rootId (t : SpawnTree) : ThreadId := t.rootNode.id

/-- The identity of a live thread. -/
def find? (t : SpawnTree) (raw : RuntimeId) : Option ThreadId :=
  t.nodes[raw]?.map SpawnNode.id

/-- The node a thread started by `parent` becomes a child of. -/
def parentNode (t : SpawnTree) (parent : RuntimeId) : SpawnNode :=
  t.nodes.getD parent t.rootNode

/-- Notes that `parent` starts `child`. -/
def start (t : SpawnTree) (parent child : RuntimeId) : SpawnTree × ThreadId :=
  match t.nodes[child]? with
  | some node => (t, node.id)
  | none =>
    let node := t.parentNode parent
    let id := node.id.child child node.nextChild
    let nodes := t.nodes.insert node.id.raw { node with nextChild := node.nextChild + 1 }
    ({ t with nodes := nodes.insert child ⟨id, 0⟩ }, id)

/-- The notices given when a thread is started. -/
def startRemarks (t : SpawnTree) (parent child : RuntimeId) : List Notice :=
  if child ∈ t.nodes ∨ parent ∈ t.nodes then [] else [.parentUnknown parent child]

/-- All live threads by position. -/
def threads (t : SpawnTree) : List ThreadId :=
  (t.nodes.values.map SpawnNode.id).mergeSort fun a b => (compare a.position b.position).isLE

/-- The recorded thread at the place of a live one. -/
def counterpart? (r : Recording) (live : ThreadId) : Option RuntimeId :=
  (r.threadAt? live.position).map ThreadId.raw

/-- Matches a live thread with the recorded one at its place, if there is one. -/
def matchRecorded (t : SpawnTree) (r : Recording) (live : ThreadId) :
    SpawnTree × Option RuntimeId :=
  match counterpart? r live with
  | none => (t, none)
  | some recorded =>
    ({ t with counterparts := t.counterparts.insert live.raw recorded }, some recorded)

/-- The notices given when a live thread is matched. -/
def matchRemarks (r : Recording) (live : ThreadId) : List Notice :=
  match counterpart? r live with
  | none => []
  | some recorded => [.replays live recorded]

/-- The recorded counterpart noted for a live thread. -/
def recordedOf? (t : SpawnTree) (raw : RuntimeId) : Option RuntimeId := t.counterparts[raw]?

end SpawnTree
end AccessReplay
