import AccessReplay.Agent
import AccessReplay.Proofs.LiveThreads

/-!
# Calls on an agent

A program calls its agent: to start and to shut down, to get the contexts of its threads, and
around each access.  Each call is over before the next begins; apart from that, any call may
follow any other, on any context, in every part of the agent's life (`Deployment`).

What each call does is told by the state that it finds.  An after-hook is the one hook that
does not ask for it: it finishes the access that its context has open (`Engine.finish`), and
does nothing else.
-/
namespace AccessReplay

namespace Engine

theorem checking_note (e : Engine) (n : Notice) : (e.note n).checking = e.checking := rfl

/-- A replay that has just begun checks accesses. -/
theorem checking_start (past : Archive) (recording : Recording) (checksum : UInt32)
    (root : AnnouncedThread) (budget : Budget) (observer : Option Observer) :
    (start past recording checksum root budget observer).checking = true := by
  obtain ⟨_, _, _, h⟩ := start_eq past recording checksum root budget observer
  rw [h]

/-! ## Finishing an open access -/

variable {e : Engine} {p : Participant} {a : OpenAccess}

/-- The engine and the thread once the thread's open access is committed, added to the thread's
history and no longer in flight. -/
def finish (e : Engine) (p : Participant) (a : OpenAccess) : Engine × Participant :=
  let files := p.history.change (·.add a) e.book
  ({ e with memory := e.memory.commit a, book := files.1, inFlight := e.inFlight - 1 },
    { p with pending := none, history := files.2 })

theorem complete_committing_eq (hp : p.pending = none) :
    complete e ⟨p, .committing a none⟩ = ((e.finish p a).1, ⟨(e.finish p a).2, .outside⟩) := by
  have hfile := complete_step (e := { e with memory := e.memory.commit a })
    (c := ⟨p, .filing a none⟩) (by simp)
  simp only [step, file_eq] at hfile
  have hend := (complete_step (c := ⟨p, .committing a none⟩) (by simp)).trans
    (hfile.trans ((complete_step (c := ⟨_, .releasing none⟩) (by simp)).trans complete_outside))
  rw [hend]
  simp only [finish, hp]
  rfl

/-- An after-hook finishes the open access.  That it is of another kind is said. -/
theorem after_eq_finish (hp : p.pending = some a) (kind : AccessKind) :
    e.after p kind =
      (if a.kind = kind then e else e.note (.kindMismatch kind a)).finish p a := by
  have hstep := complete_step (e := e) (c := ⟨p, .concluding kind⟩) (by simp)
  simp only [step, hp] at hstep
  rw [after, call_eq, Stage.entry, hstep, complete_committing_eq rfl]
  rfl

end Engine

/-- What an answer says went wrong. -/
def AgentFault.ofAnswer? {α : Type} : Except AgentFault α → Option AgentFault
  | .ok _ => none
  | .error fault => some fault

namespace Agent

/-! ## Starting and shutting down -/

/-- A whole shutdown, given whether the harvest is kept. -/
def shutdownGiven (a : Agent) (store : Harvest.Store) (kept : Except FileFault Unit) :
    Agent × Except AgentFault Harvest :=
  match a.close with
  | (a, .error fault) => (a, .error fault)
  | (a, .ok h) => a.conclude h store kept

/-- In a session, the store says whether the harvest is kept. -/
theorem shutdown_eq_shutdownGiven (a : Agent) (store : Harvest.Store) (s : Session) :
    ∃ kept, ((a.shutdown store s).1, (a.shutdown store s).2.2) = a.shutdownGiven store kept := by
  unfold shutdown shutdownGiven
  rcases a.close with ⟨a, fault | h⟩
  · exact ⟨.ok (), rfl⟩
  · dsimp only
    split
    · exact ⟨.ok (), rfl⟩
    · next fault _ => exact ⟨.error fault, rfl⟩

variable {a : Agent} {e : Engine}

@[simp] theorem state_notes (ns : List Notice) : (a.notes ns).state = a.state := by
  unfold notes
  split <;> rfl

@[simp] theorem config_notes (ns : List Notice) : (a.notes ns).config = a.config := by
  unfold notes
  split <;> rfl

theorem active?_of_ne (h : a.state ≠ .active) : a.active? = none := if_neg h

/-- An agent can be started once. -/
theorem startup_of_ne (h : a.state ≠ .uninitialized) (dump : Except FileFault (List UInt8))
    (root : AnnouncedThread) :
    a.startup dump root = (a, .error (.wrongState .uninitialized a.state)) := if_pos h

/-- An agent whose dump cannot be loaded is at its end. -/
theorem startup_of_error (h : a.state = .uninitialized) {dump : Except FileFault (List UInt8)}
    {fault : LoadFault} (hload : Trace.load a.config.dumpPath dump = .error fault)
    (root : AnnouncedThread) :
    (a.startup dump root).1.state = .terminated ∧
      (a.startup dump root).2 = .error (.load fault) := by
  simp [startup, h, hload]

/-- The agent once it has read the dump. -/
def loading (a : Agent) (dump : Except FileFault (List UInt8)) : Agent :=
  { a with state := .loading }.notes
    (.loading a.config.dumpPath :: Trace.remarks a.config.dumpPath dump)

/-- The replay that an agent begins with the trace that it loaded. -/
def begun (a : Agent) (dump : Except FileFault (List UInt8)) (root : AnnouncedThread)
    (t : Trace) : Engine :=
  (Engine.start (a.loading dump).archive t.recording t.checksum root a.config.budget
    a.observer).note (.replaying t.recording.accesses.size t.recording.threads.length)

theorem checking_begun (dump : Except FileFault (List UInt8)) (root : AnnouncedThread)
    (t : Trace) : (a.begun dump root t).checking = true := by
  rw [begun, Engine.checking_note, Engine.checking_start]

@[simp] theorem observer_notes (ns : List Notice) : (a.notes ns).observer = a.observer := by
  unfold notes
  split <;> rfl

/-- An agent whose dump is loaded replays it. -/
theorem startup_of_ok (h : a.state = .uninitialized) {dump : Except FileFault (List UInt8)}
    {t : Trace} (hload : Trace.load a.config.dumpPath dump = .ok t) (root : AnnouncedThread) :
    a.startup dump root =
      ({ a.loading dump with state := .active, engine := some (a.begun dump root t) },
        .ok (a.begun dump root t).rootParticipant) := by
  simp [startup, h, hload, begun, loading]

theorem config_startup (dump : Except FileFault (List UInt8)) (root : AnnouncedThread) :
    (a.startup dump root).1.config = a.config := by
  unfold startup
  split
  · rfl
  · dsimp only
    split <;> simp

/-- Only an active agent can be shut down. -/
theorem shutdownGiven_of_ne (h : a.state ≠ .active) (store : Harvest.Store)
    (kept : Except FileFault Unit) :
    a.shutdownGiven store kept = (a, .error (.wrongState .active a.state)) := by
  simp [shutdownGiven, close, h]

theorem config_close : a.close.1.config = a.config := by
  unfold close
  split
  · rfl
  · split <;> rfl

theorem config_conclude (h : Harvest) (store : Harvest.Store) (kept : Except FileFault Unit) :
    (a.conclude h store kept).1.config = a.config := by
  cases kept <;> simp [conclude]

theorem config_shutdownGiven (store : Harvest.Store) (kept : Except FileFault Unit) :
    (a.shutdownGiven store kept).1.config = a.config := by
  have hclose := a.config_close
  unfold shutdownGiven
  revert hclose
  rcases a.close with ⟨a', fault | h⟩
  · exact id
  · exact (a'.config_conclude h store kept).trans

/-- An active agent that has a replay is shut down, and only the store can find fault. -/
theorem shutdownGiven_of_active (h : a.state = .active) (he : a.engine = some e)
    (store : Harvest.Store) (kept : Except FileFault Unit) :
    (a.shutdownGiven store kept).1.state = .terminated ∧
      AgentFault.ofAnswer? (a.shutdownGiven store kept).2 =
        match kept with
        | .ok () => none
        | .error fault => some (.store fault) := by
  simp only [shutdownGiven, close, h, he, ne_eq, not_true_eq_false, if_false, conclude]
  cases kept <;> simp [AgentFault.ofAnswer?]

/-! ## Hooks -/

variable {p : Participant}

/-- The agent is as far in its life as before, and so is its replay, if it has one. -/
structure SameLife (a a' : Agent) : Prop where
  state : a'.state = a.state
  config : a'.config = a.config
  engine : ∀ e, a.engine = some e → ∃ e', a'.engine = some e' ∧ e'.checking = e.checking

theorem SameLife.refl (a : Agent) : a.SameLife a := ⟨rfl, rfl, fun e he => ⟨e, he, rfl⟩⟩

/-- A replay that goes on as it was leaves its agent as it was. -/
theorem SameLife.of_engine {e' : Engine} (he : a.engine = some e)
    (hc : e'.checking = e.checking) : a.SameLife { a with engine := some e' } where
  state := rfl
  config := rfl
  engine e₁ he₁ := by
    obtain rfl := Option.some.inj (he.symm.trans he₁)
    exact ⟨e', rfl, hc⟩

theorem engine_of_active? (h : a.active? = some e) : a.engine = some e := by
  unfold active? at h
  split at h
  · exact h
  · cases h

theorem sameLife_objectCreated (object : AnnouncedObject) :
    a.SameLife (a.objectCreated object) := by
  unfold objectCreated
  split
  · next e he =>
    obtain ⟨objects, journal, h⟩ := e.objectCreated_eq object
    exact .of_engine (engine_of_active? he) (by rw [h])
  · exact .refl a

theorem sameLife_threadStarted (child : AnnouncedThread) :
    a.SameLife (a.threadStarted p child).1 := by
  unfold threadStarted
  split
  · next e he =>
    obtain ⟨counterparts, journal, recorded, h⟩ := e.threadStarted_eq p.live.raw child
    exact .of_engine (engine_of_active? he) (by rw [h])
  · exact .refl a

/-- Hooks do not ask whether accesses are to be checked from now on. -/
theorem checking_call (hook : Hook) : (e.call p hook).1.checking = e.checking :=
  congrArg Engine.Setting.checking (e.keeps_call p hook).1

theorem sameLife_before (r : Request) : a.SameLife (a.before p r).1 := by
  unfold before
  split
  · next e he => exact .of_engine (engine_of_active? he) (checking_call (.before r))
  · exact .refl a

theorem sameLife_after (kind : AccessKind) : a.SameLife (a.after p kind).1 := by
  unfold after
  split
  · split
    · next e he => exact .of_engine he (checking_call (.after kind))
    · exact .refl a
  · exact .refl a

theorem before_of_ne (h : a.state ≠ .active) (r : Request) : a.before p r = (a, p) := by
  simp only [before, active?_of_ne h]

theorem after_of_idle (h : p.pending = none) (kind : AccessKind) : a.after p kind = (a, p) := by
  simp [after, Participant.hasOpenAccess, h]

theorem after_of_open {b : OpenAccess} (h : p.pending = some b) (he : a.engine = some e)
    (kind : AccessKind) :
    a.after p kind = ({ a with engine := some (e.after p kind).1 }, (e.after p kind).2) := by
  simp [after, Participant.hasOpenAccess, h, he]

theorem after_of_none {b : OpenAccess} (h : p.pending = some b) (he : a.engine = none)
    (kind : AccessKind) : a.after p kind = (a, { p with pending := none }) := by
  simp [after, Participant.hasOpenAccess, h, he]

end Agent

/-! ## Deployments -/

/-- An agent, and the contexts that the threads of its program carry. -/
structure Deployment where
  agent : Agent
  contexts : List Participant := []

/-- A call on an agent.  Contexts are named by the order in which the program got them. -/
inductive AgentCall where
  | startup (dump : Except FileFault (List UInt8)) (root : AnnouncedThread)
  /-- A shutdown, with what becomes of keeping the harvest. -/
  | shutdown (store : Harvest.Store) (kept : Except FileFault Unit)
  | rootContext (thread : AnnouncedThread)
  /-- A context that comes from elsewhere. -/
  | adopt (p : Participant)
  | objectCreated (object : AnnouncedObject)
  | threadStarted (parent : Nat) (child : AnnouncedThread)
  | before (context : Nat) (r : Request)
  | after (context : Nat) (kind : AccessKind)

namespace Deployment

/-- An agent that was not called yet. -/
def fresh (config : AgentConfig) (observer : Option Observer) (past : Archive) : Deployment :=
  ⟨{ config, observer, past }, []⟩

/-- What a call does.  A call on a context that the program has not got does nothing. -/
def perform (s : Deployment) : AgentCall → Deployment
  | .startup dump root =>
    let (agent, answer) := s.agent.startup dump root
    ⟨agent, s.contexts ++ answer.toOption.toList⟩
  | .shutdown store kept => { s with agent := (s.agent.shutdownGiven store kept).1 }
  | .rootContext thread => { s with contexts := s.contexts ++ [s.agent.rootParticipant thread] }
  | .adopt p => { s with contexts := s.contexts ++ [p] }
  | .objectCreated object => { s with agent := s.agent.objectCreated object }
  | .threadStarted i child =>
    match s.contexts[i]? with
    | none => s
    | some parent =>
      let (agent, p) := s.agent.threadStarted parent child
      ⟨agent, s.contexts ++ [p]⟩
  | .before i r =>
    match s.contexts[i]? with
    | none => s
    | some p =>
      let (agent, p) := s.agent.before p r
      ⟨agent, s.contexts.set i p⟩
  | .after i kind =>
    match s.contexts[i]? with
    | none => s
    | some p =>
      let (agent, p) := s.agent.after p kind
      ⟨agent, s.contexts.set i p⟩

/-- What several calls do, one after the other. -/
def performAll (s : Deployment) (calls : List AgentCall) : Deployment := calls.foldl perform s

/-- What a call is answered to have gone wrong. -/
def faultOf (s : Deployment) : AgentCall → Option AgentFault
  | .startup dump root => AgentFault.ofAnswer? (s.agent.startup dump root).2
  | .shutdown store kept => AgentFault.ofAnswer? (s.agent.shutdownGiven store kept).2
  | _ => none

/-- Calls with what they are answered, in order. -/
def answers (s : Deployment) : List AgentCall → List (AgentCall × Option AgentFault)
  | [] => []
  | call :: calls => (call, s.faultOf call) :: (s.perform call).answers calls

variable {s : Deployment} {calls : List AgentCall} {call : AgentCall}

theorem performAll_concat :
    s.performAll (calls ++ [call]) = (s.performAll calls).perform call := by
  simp [performAll]

theorem answers_concat : s.answers (calls ++ [call]) =
    s.answers calls ++ [(call, (s.performAll calls).faultOf call)] := by
  induction calls generalizing s with
  | nil => simp [answers, performAll]
  | cons c calls ih => simp [answers, performAll, ih]

end Deployment
end AccessReplay
