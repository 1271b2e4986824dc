import AccessReplay.Proofs.AgentCalls

/-!
# The life of an agent

Between two calls an agent is uninitialized, active or terminated, and while it is active it has
a replay that checks accesses (`Lives`).  Every call keeps to this, and moves the agent along its
life or leaves it where it is (`Moves`), so an agent is started once and shut down once.

Outside its active time an agent does nothing for the threads of its program, apart from
finishing what was let through before (`one_life`).
-/
namespace AccessReplay

/-- The fault finds the agent in the wrong state. -/
def AgentFault.isRefusal : AgentFault → Bool
  | .wrongState _ _ => true
  | .load _ | .store _ => false

namespace AgentCall

/-- Is it a startup that was not refused? -/
def startsUp : AgentCall × Option AgentFault → Bool
  | (.startup _ _, fault) => !fault.any AgentFault.isRefusal
  | _ => false

/-- Is it a shutdown that was not refused? -/
def shutsDown : AgentCall × Option AgentFault → Bool
  | (.shutdown _ _, fault) => !fault.any AgentFault.isRefusal
  | _ => false

/-- How a call moves an agent along its life. -/
inductive Moves (path : String) : AgentCall → AgentPhase → AgentPhase → Prop
  | stays {call : AgentCall} {state : AgentPhase} : Moves path call state state
  | starts {dump : Except FileFault (List UInt8)} {root : AnnouncedThread} {t : Trace} :
      Trace.load path dump = .ok t → Moves path (.startup dump root) .uninitialized .active
  | fails {dump : Except FileFault (List UInt8)} {root : AnnouncedThread} {fault : LoadFault} :
      Trace.load path dump = .error fault →
      Moves path (.startup dump root) .uninitialized .terminated
  | ends {store : Harvest.Store} {kept : Except FileFault Unit} :
      Moves path (.shutdown store kept) .active .terminated

end AgentCall

namespace Deployment

variable {s : Deployment} {call : AgentCall} {calls : List AgentCall}
  {log : List (AgentCall × Option AgentFault)}

/-- What is true of an agent between two calls. -/
structure Lives (s : Deployment) : Prop where
  observed : s.agent.state ∈ [AgentPhase.uninitialized, .active, .terminated]
  installed : s.agent.state = .active → ∃ e, s.agent.engine = some e ∧ e.checking = true

/-- The call is refused because the agent is not in the state it starts from, and nothing
changes. -/
def Refuses (s : Deployment) (call : AgentCall) (expected : AgentPhase) : Prop :=
  s.perform call = s ∧ s.faultOf call = some (.wrongState expected s.agent.state)

/-! ## Calls along the life of an agent -/

theorem refuses_startup (h : s.agent.state ≠ .uninitialized)
    (dump : Except FileFault (List UInt8)) (root : AnnouncedThread) :
    s.Refuses (.startup dump root) .uninitialized := by
  simp [Refuses, perform, faultOf, Agent.startup_of_ne h, AgentFault.ofAnswer?, Except.toOption]

theorem refuses_shutdown (h : s.agent.state ≠ .active) (store : Harvest.Store)
    (kept : Except FileFault Unit) : s.Refuses (.shutdown store kept) .active := by
  simp [Refuses, perform, faultOf, Agent.shutdownGiven_of_ne h, AgentFault.ofAnswer?]

/-- A call starts the agent, shuts it down, or leaves it as far in its life as it is. -/
theorem perform_cases (s : Deployment) (call : AgentCall) :
    (∃ dump root, call = .startup dump root) ∨ (∃ store kept, call = .shutdown store kept) ∨
      ((∀ fault, AgentCall.startsUp (call, fault) = false ∧
        AgentCall.shutsDown (call, fault) = false) ∧ s.agent.SameLife (s.perform call).agent) := by
  cases call with
  | startup dump root => exact .inl ⟨dump, root, rfl⟩
  | shutdown store kept => exact .inr (.inl ⟨store, kept, rfl⟩)
  | rootContext | adopt => exact .inr (.inr ⟨fun _ => ⟨rfl, rfl⟩, .refl _⟩)
  | objectCreated object =>
    exact .inr (.inr ⟨fun _ => ⟨rfl, rfl⟩, Agent.sameLife_objectCreated object⟩)
  | threadStarted i child =>
    refine .inr (.inr ⟨fun _ => ⟨rfl, rfl⟩, ?_⟩)
    simp only [perform]
    split
    · exact .refl _
    · exact Agent.sameLife_threadStarted child
  | before i r =>
    refine .inr (.inr ⟨fun _ => ⟨rfl, rfl⟩, ?_⟩)
    simp only [perform]
    split
    · exact .refl _
    · exact Agent.sameLife_before r
  | after i kind =>
    refine .inr (.inr ⟨fun _ => ⟨rfl, rfl⟩, ?_⟩)
    simp only [perform]
    split
    · exact .refl _
    · exact Agent.sameLife_after kind

theorem config_perform (call : AgentCall) : (s.perform call).agent.config = s.agent.config := by
  rcases s.perform_cases call with ⟨dump, root, rfl⟩ | ⟨store, kept, rfl⟩ | ⟨-, hsame⟩
  · exact Agent.config_startup dump root
  · exact Agent.config_shutdownGiven store kept
  · exact hsame.config

theorem Lives.moves (h : s.Lives) (call : AgentCall) :
    call.Moves s.agent.config.dumpPath s.agent.state (s.perform call).agent.state := by
  rcases s.perform_cases call with ⟨dump, root, rfl⟩ | ⟨store, kept, rfl⟩ | ⟨-, hsame⟩
  · by_cases hstate : s.agent.state = .uninitialized
    · simp only [perform]
      cases hload : Trace.load s.agent.config.dumpPath dump with
      | error fault =>
        rw [(Agent.startup_of_error hstate hload root).1, hstate]
        exact .fails hload
      | ok t =>
        rw [Agent.startup_of_ok hstate hload root, hstate]
        exact .starts hload
    · rw [(refuses_startup hstate dump root).1]
      exact .stays
  · by_cases hstate : s.agent.state = .active
    · obtain ⟨e, he, -⟩ := h.installed hstate
      simp only [perform]
      rw [(Agent.shutdownGiven_of_active hstate he store kept).1, hstate]
      exact .ends
    · rw [(refuses_shutdown hstate store kept).1]
      exact .stays
  · rw [hsame.state]
    exact .stays

theorem Lives.perform (h : s.Lives) (call : AgentCall) : (s.perform call).Lives where
  observed := by
    have hmoves := h.moves call
    have hbefore := h.observed
    generalize s.agent.state = state, (s.perform call).agent.state = state' at hmoves hbefore ⊢
    cases hmoves with
    | stays => exact hbefore
    | starts | fails | ends => simp
  installed hactive := by
    rcases s.perform_cases call with ⟨dump, root, rfl⟩ | ⟨store, kept, rfl⟩ | ⟨-, hsame⟩
    · by_cases hstate : s.agent.state = .uninitialized
      · cases hload : Trace.load s.agent.config.dumpPath dump with
        | error fault =>
          have hend := (Agent.startup_of_error hstate hload root).1
          exact absurd (hend.symm.trans hactive) (by simp)
        | ok t =>
          simp only [Deployment.perform, Agent.startup_of_ok hstate hload root]
          exact ⟨_, rfl, Agent.checking_begun ..⟩
      · rw [(refuses_startup hstate dump root).1] at hactive ⊢
        exact h.installed hactive
    · by_cases hstate : s.agent.state = .active
      · obtain ⟨e, he, -⟩ := h.installed hstate
        have hend := (Agent.shutdownGiven_of_active hstate he store kept).1
        exact absurd (hend.symm.trans hactive) (by simp)
      · rw [(refuses_shutdown hstate store kept).1] at hactive ⊢
        exact h.installed hactive
    · obtain ⟨e, he, hc⟩ := h.installed (hsame.state.symm.trans hactive)
      obtain ⟨e', he', hc'⟩ := hsame.engine e he
      exact ⟨e', he', hc'.trans hc⟩

variable {config : AgentConfig} {observer : Option Observer} {past : Archive}

theorem lives_fresh : (fresh config observer past).Lives where
  observed := by simp [fresh]
  installed h := by simp [fresh] at h

theorem Lives.performAll (h : s.Lives) (calls : List AgentCall) : (s.performAll calls).Lives := by
  induction calls generalizing s with
  | nil => exact h
  | cons call calls ih => exact ih (h.perform call)

/-! ## Once in a life -/

theorem not_startsUp_of_refuses {expected : AgentPhase} (h : s.Refuses call expected) :
    AgentCall.startsUp (call, s.faultOf call) = false := by
  rw [h.2]
  cases call <;> rfl

theorem not_shutsDown_of_refuses {expected : AgentPhase} (h : s.Refuses call expected) :
    AgentCall.shutsDown (call, s.faultOf call) = false := by
  rw [h.2]
  cases call <;> rfl

/-- What an agent's state says of the calls that were made so far. -/
structure Counted (s : Deployment) (log : List (AgentCall × Option AgentFault)) : Prop where
  notStarted : s.agent.state = .uninitialized → log.countP AgentCall.startsUp = 0
  started : log.countP AgentCall.startsUp ≤ 1
  notEnded : s.agent.state ≠ .terminated → log.countP AgentCall.shutsDown = 0
  ended : log.countP AgentCall.shutsDown ≤ 1

theorem countP_concat_of_not {P : AgentCall × Option AgentFault → Bool}
    {entry : AgentCall × Option AgentFault} (h : P entry = false) :
    (log ++ [entry]).countP P = log.countP P := by
  simp [List.countP_append, h]

theorem countP_concat_le {P : AgentCall × Option AgentFault → Bool} (h : log.countP P = 0)
    (entry : AgentCall × Option AgentFault) : (log ++ [entry]).countP P ≤ 1 := by
  rw [List.countP_append, h, Nat.zero_add]
  exact List.countP_le_length

/-- A call that does not count, and leaves the state, changes no count. -/
theorem Counted.concat (h : Counted s log) (hstate : (s.perform call).agent.state = s.agent.state)
    {entry : AgentCall × Option AgentFault} (hstart : AgentCall.startsUp entry = false)
    (hend : AgentCall.shutsDown entry = false) : Counted (s.perform call) (log ++ [entry]) := by
  constructor
  · rw [hstate, countP_concat_of_not hstart]
    exact h.notStarted
  · rw [countP_concat_of_not hstart]
    exact h.started
  · rw [hstate, countP_concat_of_not hend]
    exact h.notEnded
  · rw [countP_concat_of_not hend]
    exact h.ended

theorem Counted.perform (h : Counted s log) (hs : s.Lives) (call : AgentCall) :
    Counted (s.perform call) (log ++ [(call, s.faultOf call)]) := by
  rcases s.perform_cases call with ⟨dump, root, rfl⟩ | ⟨store, kept, rfl⟩ | ⟨hother, hsame⟩
  · by_cases hstate : s.agent.state = .uninitialized
    · have hlater : (s.perform (.startup dump root)).agent.state ≠ .uninitialized := by
        cases hload : Trace.load s.agent.config.dumpPath dump with
        | error fault => simp [Deployment.perform, (Agent.startup_of_error hstate hload root).1]
        | ok t => simp [Deployment.perform, Agent.startup_of_ok hstate hload root]
      have hend : (log ++ [(AgentCall.startup dump root, s.faultOf (.startup dump root))]).countP
          AgentCall.shutsDown = 0 :=
        (countP_concat_of_not rfl).trans (h.notEnded (by simp [hstate]))
      exact ⟨fun hagain => absurd hagain hlater, countP_concat_le (h.notStarted hstate) _,
        fun _ => hend, by omega⟩
    · have hrefused := refuses_startup hstate dump root
      exact h.concat (by rw [hrefused.1]) (not_startsUp_of_refuses hrefused) rfl
  · by_cases hstate : s.agent.state = .active
    · obtain ⟨e, he, -⟩ := hs.installed hstate
      have hlater : (s.perform (.shutdown store kept)).agent.state = .terminated :=
        (Agent.shutdownGiven_of_active hstate he store kept).1
      refine ⟨fun hfirst => ?_, ?_, fun hnot => absurd hlater hnot,
        countP_concat_le (h.notEnded (by simp [hstate])) _⟩
      · exact absurd (hlater.symm.trans hfirst) (by simp)
      · rw [countP_concat_of_not rfl]
        exact h.started
    · have hrefused := refuses_shutdown hstate store kept
      exact h.concat (by rw [hrefused.1]) rfl (not_shutsDown_of_refuses hrefused)
  · exact h.concat hsame.state (hother _).1 (hother _).2

theorem Counted.performAll (hs : s.Lives) (h : Counted s []) (calls : List AgentCall) :
    Counted (s.performAll calls) (s.answers calls) := by
  induction calls using List.reverseRecOn with
  | nil => exact h
  | append_singleton calls call ih =>
    rw [performAll_concat, answers_concat]
    exact ih.perform (hs.performAll calls) call

theorem config_performAll (calls : List AgentCall) :
    (s.performAll calls).agent.config = s.agent.config := by
  induction calls generalizing s with
  | nil => rfl
  | cons call calls ih => exact ih.trans (config_perform call)

/-! ## Outside the active time -/

theorem perform_after {i : Nat} {p : Participant} (hi : s.contexts[i]? = some p)
    (kind : AccessKind) : s.perform (.after i kind) =
      ⟨(s.agent.after p kind).1, s.contexts.set i (s.agent.after p kind).2⟩ := by
  simp only [perform, hi]

/-- A hook on a context that it leaves alone. -/
theorem set_contexts {i : Nat} {p : Participant} (hi : s.contexts[i]? = some p) :
    s.contexts.set i p = s.contexts := by
  obtain ⟨hlt, rfl⟩ := List.getElem?_eq_some_iff.mp hi
  exact List.set_getElem_self hlt

/-- A hook before an access does nothing unless the agent is active. -/
theorem perform_before_of_ne (h : s.agent.state ≠ .active) (i : Nat) (r : Request) :
    s.perform (.before i r) = s := by
  cases hi : s.contexts[i]? with
  | none => simp only [perform, hi]
  | some p => simp only [perform, hi, Agent.before_of_ne h, set_contexts hi]

theorem perform_threadStarted_of_ne (h : s.agent.state ≠ .active) {i : Nat} {p : Participant}
    (hi : s.contexts[i]? = some p) (child : AnnouncedThread) :
    s.perform (.threadStarted i child) =
      { s with contexts := s.contexts ++ [.detached child] } := by
  simp only [perform, hi, Agent.threadStarted, Agent.active?_of_ne h]

/-- What a hook after an access does in any part of an agent's life: nothing, unless an access
is open on its context.  That access is finished if there is a replay to finish it in, and
forgotten otherwise. -/
structure FinishesOnly (s : Deployment) (i : Nat) (p : Participant) (kind : AccessKind) : Prop where
  idle : p.pending = none → s.perform (.after i kind) = s
  without : p.pending.isSome → s.agent.engine = none → s.perform (.after i kind) =
    { s with contexts := s.contexts.set i { p with pending := none } }
  finishes : ∀ a e, p.pending = some a → s.agent.engine = some e →
    let done := (if a.kind = kind then e else e.note (.kindMismatch kind a)).finish p a
    s.perform (.after i kind) =
      ⟨{ s.agent with engine := some done.1 }, s.contexts.set i done.2⟩

theorem finishesOnly {i : Nat} {p : Participant} (hi : s.contexts[i]? = some p)
    (kind : AccessKind) : s.FinishesOnly i p kind where
  idle hidle := by rw [perform_after hi, Agent.after_of_idle hidle, set_contexts hi]
  without hopen he := by
    obtain ⟨a, ha⟩ := Option.isSome_iff_exists.mp hopen
    rw [perform_after hi, Agent.after_of_none ha he]
  finishes a e ha he := by
    rw [perform_after hi, Agent.after_of_open ha he, Engine.after_eq_finish ha]

/-- **An agent lives once.**  Whatever calls are made, with whatever dumps, stores and contexts:
between calls an agent is uninitialized, active or terminated; a call moves it from one to the
next or leaves it; it is started once and shut down once, and any other attempt is refused for
the state it is in and changes nothing.  While it is active it has a replay, so that a shutdown
fails for the store's sake only.  And outside that time no hook does anything, except that a
thread that is started is given a detached context, and an access that was let through before is
finished. -/
theorem one_life (config : AgentConfig) (observer : Option Observer) (past : Archive)
    (calls : List AgentCall) :
    let s := (fresh config observer past).performAll calls
    let answers := (fresh config observer past).answers calls
    (s.agent.state ∈ [AgentPhase.uninitialized, .active, .terminated] ∧
      ∀ call : AgentCall,
        call.Moves config.dumpPath s.agent.state (s.perform call).agent.state) ∧
    answers.countP AgentCall.startsUp ≤ 1 ∧ answers.countP AgentCall.shutsDown ≤ 1 ∧
    (∀ dump root,
      (s.agent.state ≠ .uninitialized → s.Refuses (.startup dump root) .uninitialized) ∧
      (s.agent.state = .uninitialized →
        match Trace.load config.dumpPath dump with
        | .ok _ => s.faultOf (.startup dump root) = none ∧
          (s.perform (.startup dump root)).agent.state = .active
        | .error fault => s.faultOf (.startup dump root) = some (.load fault) ∧
          (s.perform (.startup dump root)).agent.state = .terminated)) ∧
    (∀ store kept,
      (s.agent.state ≠ .active → s.Refuses (.shutdown store kept) .active) ∧
      (s.agent.state = .active →
        (s.perform (.shutdown store kept)).agent.state = .terminated ∧
        s.faultOf (.shutdown store kept) =
          match kept with
          | .ok () => none
          | .error fault => some (.store fault))) ∧
    (s.agent.state = .active → s.agent.engine.isSome) ∧
    (s.agent.state ≠ .active →
      (∀ object, s.perform (.objectCreated object) = s) ∧
      (∀ i r, s.perform (.before i r) = s) ∧
      (∀ i p child, s.contexts[i]? = some p → s.perform (.threadStarted i child) =
        { s with contexts := s.contexts ++ [.detached child] }) ∧
      ∀ i p kind, s.contexts[i]? = some p → s.FinishesOnly i p kind) := by
  intro s answers
  have hlives : s.Lives := lives_fresh.performAll calls
  have hconfig : s.agent.config = config := config_performAll calls
  have hcounted : Counted s answers :=
    .performAll lives_fresh ⟨fun _ => rfl, by simp, fun _ => rfl, by simp⟩ calls
  refine ⟨⟨hlives.observed, fun call => ?_⟩, hcounted.started, hcounted.ended,
    fun dump root => ⟨fun h => refuses_startup h dump root, fun hstate => ?_⟩,
    fun store kept => ⟨fun h => refuses_shutdown h store kept, fun hstate => ?_⟩,
    fun hstate => ?_, fun hstate => ⟨fun object => ?_, perform_before_of_ne hstate,
      fun i p child hi => perform_threadStarted_of_ne hstate hi child,
      fun i p kind hi => finishesOnly hi kind⟩⟩
  · rw [← hconfig]
    exact hlives.moves call
  · rw [← hconfig]
    cases hload : Trace.load s.agent.config.dumpPath dump with
    | error fault =>
      obtain ⟨hend, hfault⟩ := Agent.startup_of_error hstate hload root
      exact ⟨by rw [faultOf, hfault]; rfl, hend⟩
    | ok t =>
      have hstart := Agent.startup_of_ok hstate hload root
      exact ⟨by rw [faultOf, hstart]; rfl, by rw [perform, hstart]⟩
  · obtain ⟨e, he, -⟩ := hlives.installed hstate
    exact Agent.shutdownGiven_of_active hstate he store kept
  · obtain ⟨e, he, -⟩ := hlives.installed hstate
    simp [he]
  · simp only [perform, Agent.objectCreated, Agent.active?_of_ne hstate]

end Deployment
end AccessReplay
