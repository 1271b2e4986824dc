import AccessReplay.Engine.Step

/-!
# Crews

A crew is a set of threads that perform a script under replay.  The script says
what the thread at each place of a spawn tree does: it starts the threads below
it, one after the other, and then makes its accesses in order.  Each access is
made between its two hooks and touches the crew's own store: a write leaves a
stamp that tells who wrote and how often before, a read sees the last stamp.

`Crew.move` is one move of any thread, so every way to schedule the threads is a
sequence of moves.  `Crew.run` is one such way: a thread goes on until it has to
back off, and then the next one does.
-/

namespace AccessReplay

/-- The thread at one place of a script. -/
structure Member where
  /-- Its runtime id; without one it gets the next that is free. -/
  raw : Option RuntimeId := none
  name : String
  program : List Request
deriving DecidableEq, Repr, Inhabited

/-- Who does what, by place in the spawn tree. -/
abbrev Script := Std.ExtTreeMap Position Member

/-- What the thread at a place does. -/
def Script.program (s : Script) (position : Position) : List Request :=
  (s[position]?.map Member.program).getD []

/-- At most how many moves a crew needs for a script, passing over finished threads
included. -/
def Script.effort (s : Script) (b : Budget) : Nat :=
  let threads := s.size + 1
  let accesses := s.values.foldr (fun m count => m.program.length + count) 0
  (threads + accesses * (3 * b.maxRetries + 20) + 1) * (threads + 2)

/-- What a write leaves behind. -/
structure Stamp where
  writer : RuntimeId
  /-- How many writes the writer made before. -/
  number : Nat
deriving DecidableEq, Repr, Inhabited

/-- The stamps left in every field of every object, oldest first. -/
abbrev StampStore := Std.ExtTreeMap Handle (Std.ExtTreeMap String (Array Stamp))

namespace StampStore

/-- The stamps in a field. -/
def get (s : StampStore) (object : Handle) (field : String) : Array Stamp :=
  (s.getD object ∅).getD field #[]

/-- Leaves a stamp in a field. -/
def put (s : StampStore) (object : Handle) (field : String) (stamp : Stamp) : StampStore :=
  s.insert object ((s.getD object ∅).insert field ((s.get object field).push stamp))

end StampStore

/-- What the threads of a crew share. -/
structure Site where
  engine : Engine
  store : StampStore := ∅
  /-- The next free runtime id. -/
  nextRaw : RuntimeId := 2
deriving Inhabited

/-- A thread of a crew. -/
structure Worker where
  position : Position
  caller : Caller
  /-- How many threads it has started. -/
  started : Nat := 0
  /-- The accesses it has not begun. -/
  todo : List Request
  /-- The access whose before-hook it is in, or has just left. -/
  making : Option Request := none
  /-- How many writes it has made. -/
  writes : Nat := 0
  /-- What its reads saw. -/
  seen : Array (Option Stamp) := #[]
deriving DecidableEq, Repr, Inhabited

namespace Worker

/-- A thread that is about to begin. -/
def atStart (s : Script) (position : Position) (p : Participant) : Worker where
  position := position
  caller := { who := p }
  todo := s.program position

/-- The place of the thread that is to be started next. -/
def nextChild (w : Worker) : Position := w.position ++ [UInt32.ofNat w.started]

/-- Has the thread done everything? -/
def isDone (s : Script) (w : Worker) : Bool :=
  w.caller.stage = .outside && w.making.isNone && w.todo.isEmpty && w.nextChild ∉ s

/-- Is the thread about to back off? -/
def isResting (w : Worker) : Bool :=
  match w.caller.stage with
  | .resting _ => true
  | _ => false

/-- Touches the store. -/
def touch (site : Site) (w : Worker) (r : Request) : Site × Worker :=
  match r.kind with
  | .write =>
    let stamp : Stamp := ⟨w.caller.who.live.raw, w.writes⟩
    ({ site with store := site.store.put r.object.handle r.field stamp },
      { w with writes := w.writes + 1 })
  | .read =>
    (site, { w with seen := w.seen.push (site.store.get r.object.handle r.field).back? })

/-- Starts a thread. -/
def startChild (s : Script) (site : Site) (w : Worker) (child : Member) :
    Site × Worker × Worker :=
  let raw := child.raw.getD site.nextRaw
  let nextRaw := if child.raw.isSome then site.nextRaw else site.nextRaw + 1
  let (engine, p) := site.engine.threadStarted w.caller.who.live.raw ⟨raw, child.name⟩
  ({ site with engine, nextRaw }, { w with started := w.started + 1 },
    .atStart s w.nextChild p)

/-- One move: a step in a hook, the access itself, a thread started, or the next
access begun. -/
def move (s : Script) (site : Site) (w : Worker) : Site × Worker × Option Worker :=
  if w.caller.stage ≠ .outside then
    let (engine, caller) := site.engine.step w.caller
    ({ site with engine }, { w with caller }, none)
  else match w.making with
    | some r =>
      let (site, w) := touch site w r
      (site,
        { w with making := none, caller := { w.caller with stage := Stage.entry (.after r.kind) } },
        none)
    | none =>
      match s[w.nextChild]? with
      | some child =>
        let (site, w, new) := startChild s site w child
        (site, w, some new)
      | none =>
        match w.todo with
        | [] => (site, w, none)
        | r :: todo =>
          (site,
            { w with
              todo
              making := some r
              caller := { w.caller with stage := Stage.entry (.before r) } },
            none)

end Worker

/-- Threads at work. -/
structure Crew where
  site : Site
  workers : Array Worker
deriving Inhabited

namespace Crew

/-- The crew before its first move: the thread at the root. -/
def atStart (s : Script) (e : Engine) : Crew :=
  ⟨{ engine := e }, #[.atStart s [] e.rootParticipant]⟩

/-- One move of one thread. -/
def move (s : Script) (c : Crew) (i : Nat) : Crew :=
  match c.workers[i]? with
  | none => c
  | some w =>
    let (site, w, new) := w.move s c.site
    let workers := c.workers.setIfInBounds i w
    ⟨site, new.elim workers workers.push⟩

/-- Has every thread done everything? -/
def isDone (s : Script) (c : Crew) : Bool := c.workers.all (Worker.isDone s)

/-- Moves threads in turn, beginning with the given one. -/
def run (s : Script) : Nat → Nat → Crew → Crew
  | 0, _, c => c
  | fuel + 1, i, c =>
    match c.workers[i]? with
    | none => if c.isDone s then c else run s fuel 0 c
    | some w =>
      if w.isDone s then run s fuel (i + 1) c
      else run s fuel (if w.isResting then i + 1 else i) (c.move s i)

/-- Performs a script from beginning to end. -/
def perform (s : Script) (e : Engine) : Crew :=
  run s (s.effort e.budget) 0 (atStart s e)

end Crew
end AccessReplay
