import AccessReplay.Engine.Step
import AccessReplay.Harvest

/-!
# Agents

An agent is what an instrumented program talks to.  It loads a dump once, replays
it, and hands over the harvest when it is shut down.  Outside that time the
program's hooks do nothing, except that an access let through while it was active
can still be finished.

The state moves `uninitialized → active → terminated`, by way of `loading` and
`shuttingDown`, or to `terminated` at once if the dump cannot be loaded.
-/

namespace AccessReplay

/-- The part of its life that an agent is in. -/
inductive AgentPhase where
  | uninitialized
  | loading
  | active
  | shuttingDown
  | terminated
deriving DecidableEq, Repr, Inhabited

/-- The name of a part of life. -/
def AgentPhase.text : AgentPhase → String
  | .uninitialized => "UNINITIALIZED"
  | .loading => "LOADING_TRACE"
  | .active => "ACTIVE"
  | .shuttingDown => "SHUTTING_DOWN"
  | .terminated => "TERMINATED"

/-- Why an agent did not do what it was asked. -/
inductive AgentFault where
  /-- It is not in the state that this starts from. -/
  | wrongState (expected actual : AgentPhase)
  /-- There is no recording to replay. -/
  | load (fault : LoadFault)
  /-- The harvest could not be kept. -/
  | store (fault : FileFault)
deriving DecidableEq, Repr, Inhabited

/-- The wording of an agent's fault. -/
def AgentFault.message : AgentFault → String
  | .wrongState expected actual =>
    s!"replay agent is {actual.text} but needs to be {expected.text}"
  | .load fault => s!"could not load the recorded dump: {fault.message}"
  | .store fault => s!"could not store the harvested traces: {fault.message}"

/-- What an agent replays, and how patiently. -/
structure AgentConfig where
  dumpPath : String
  budget : Budget := {}
  /-- How long a shutdown waits for open accesses. -/
  settleTimeout : Duration := .ofSeconds 5
deriving DecidableEq, Repr, Inhabited

/-- An agent. -/
structure Agent where
  config : AgentConfig
  observer : Option Observer := none
  state : AgentPhase := .uninitialized
  /-- The replay, from the time the dump is loaded. -/
  engine : Option Engine := none
  /-- What was left before this agent's replay. -/
  past : Archive := {}
deriving Inhabited

namespace Agent

/-- What would outlive the agent now. -/
def archive (a : Agent) : Archive :=
  match a.engine with
  | some e => e.toArchive
  | none => a.past

/-- Says several things. -/
def notes (a : Agent) (ns : List Notice) : Agent :=
  match a.engine with
  | some e => { a with engine := some (e.notes ns) }
  | none => { a with past := a.past.notes ns }

/-- Another agent of the same configuration, after this one. -/
def renew (a : Agent) : Agent :=
  { config := a.config, observer := a.observer, past := a.archive }

/-- The replay, while the agent is active. -/
def active? (a : Agent) : Option Engine :=
  if a.state = .active then a.engine else none

/-! ## Life -/

/-- Loads the dump, given what is at its path, and starts to replay it.  The
calling thread is the one that everything starts from. -/
def startup (a : Agent) (dump : Except FileFault (List UInt8)) (root : AnnouncedThread) :
    Agent × Except AgentFault Participant :=
  if a.state ≠ .uninitialized then (a, .error (.wrongState .uninitialized a.state))
  else
    let path := a.config.dumpPath
    let a := { a with state := .loading }.notes (.loading path :: Trace.remarks path dump)
    match Trace.load path dump with
    | .error fault => ({ a with state := .terminated }, .error (.load fault))
    | .ok t =>
      let e := Engine.start a.archive t.recording t.checksum root a.config.budget a.observer
      let e := e.note (.replaying t.recording.accesses.size t.recording.threads.length)
      ({ a with state := .active, engine := some e }, .ok e.rootParticipant)

/-- Starts to replay, or says why that is impossible. -/
def startupOrFail (a : Agent) (dump : Except FileFault (List UInt8)) (root : AnnouncedThread) :
    Agent × Option Participant :=
  match a.startup dump root with
  | (a, .ok p) => (a, some p)
  | (a, .error fault) => (a.notes [.startFailed fault.message], none)

/-- Stops checking accesses, waits for the open ones, and takes the harvest. -/
def close (a : Agent) : Agent × Except AgentFault Harvest :=
  if a.state ≠ .active then (a, .error (.wrongState .active a.state))
  else match a.engine with
    | none => ({ a with state := .terminated }, .error (.wrongState .active .uninitialized))
    | some e =>
      let (e, settled) := e.stopChecking.settle a.config.settleTimeout
      let e := if settled then e else e.note .harvestingEarly
      ({ a with state := .shuttingDown, engine := some e }, .ok e.harvest)

/-- Ends a shutdown once it is known whether the harvest was kept. -/
def conclude (a : Agent) (h : Harvest) (store : Harvest.Store) (kept : Except FileFault Unit) :
    Agent × Except AgentFault Harvest :=
  let divergences := a.engine.elim 0 Engine.divergences
  let finished : Notice := .finished h.threads.length divergences
  let a := { a with state := .terminated }
  match kept with
  | .ok () => (a.notes (h.keptRemarks store ++ [finished]), .ok h)
  | .error fault => (a.notes [finished], .error (.store fault))

/-- A whole shutdown: the harvest, which is also kept in a file of the session if the
store says so. -/
def shutdown (a : Agent) (store : Harvest.Store) (s : Session) :
    Agent × Session × Except AgentFault Harvest :=
  match a.close with
  | (a, .error fault) => (a, s, .error fault)
  | (a, .ok h) =>
    match h.keep store s with
    | .ok s =>
      let (a, result) := a.conclude h store (.ok ())
      (a, s, result)
    | .error fault =>
      let (a, result) := a.conclude h store (.error fault)
      (a, s, result)

/-! ## Hooks -/

/-- What a thread carries that says it is the one everything started from.  Any
other thread is detached. -/
def rootParticipant (a : Agent) (thread : AnnouncedThread) : Participant :=
  match a.active? with
  | some e =>
    if e.threads.rootId.raw = thread.raw then e.rootParticipant else .detached thread
  | none => .detached thread

/-- An object was created. -/
def objectCreated (a : Agent) (object : AnnouncedObject) : Agent :=
  match a.active? with
  | some e => { a with engine := some (e.objectCreated object) }
  | none => a

/-- A thread started another one. -/
def threadStarted (a : Agent) (parent : Participant) (child : AnnouncedThread) :
    Agent × Participant :=
  match a.active? with
  | some e =>
    let (e, p) := e.threadStarted parent.live.raw child
    ({ a with engine := some e }, p)
  | none => (a, .detached child)

/-- A thread is about to make an access. -/
def before (a : Agent) (p : Participant) (r : Request) : Agent × Participant :=
  match a.active? with
  | some e =>
    let (e, p) := e.before p r
    ({ a with engine := some e }, p)
  | none => (a, p)

/-- A thread has made an access. -/
def after (a : Agent) (p : Participant) (kind : AccessKind) : Agent × Participant :=
  if p.hasOpenAccess then
    match a.engine with
    | some e =>
      let (e, p) := e.after p kind
      ({ a with engine := some e }, p)
    | none => (a, { p with pending := none })
  else (a, p)

end Agent
end AccessReplay
