import AccessReplay.Proofs.AgentLife
import AccessReplay.Proofs.DumpText
import AccessReplay.Proofs.Traffic

/-!
# Detached contexts

A thread that no replay knows carries a detached context: it has no recorded counterpart, and a
history of its own.  That history is never harvested, whatever the agent does later
(`histories_call_own`).

Its accesses are another matter.  An active agent asks only whether a field is shared and
something was recorded for it (`Agent.target?`), not who makes the access, and takes a thread
without a counterpart for the recorded root.  So a detached context stays outside the replay as
long as no hook announces an access to such a field on it (`Spared`); the first one that does is
checked like any other, and uses up what was recorded for the root (`early_context_is_checked`).
-/
namespace AccessReplay

/-! ## Hooks that check nothing -/

namespace Engine

variable {e : Engine} {p : Participant} {r : Request} {ref : LocationRef}

/-- The location at which an announced access is checked, if it is. -/
def target? (e : Engine) (r : Request) : Option LocationRef :=
  if e.checking && e.memory.isShared r.object r.field then
    (e.memory.lookUp e.objects r.object r.field).2
  else none

/-- An access that is not checked leaves everything as it was, but for what is said. -/
theorem before_of_unchecked (hp : p.pending = none) (h : e.target? r = none) :
    ∃ ns, e.before p r = (e.notes ns, p) := by
  have huncount : e.inFlight + 1 - 1 = e.inFlight := by simp
  rw [before_eq_choosing hp]
  unfold target? at h
  split at h
  · next hshared =>
    have hrun := (complete_choosing_of_shared (e := { e with inFlight := e.inFlight + 1 })
      (p := p) hshared).trans (complete_locating_of_none h)
    refine ⟨e.memory.remarks e.objects r.object r.field, ?_⟩
    rw [hrun]
    simp only [notes, huncount]
  · next hshared =>
    have hrun := complete_choosing_of_unshared (e := { e with inFlight := e.inFlight + 1 })
      (p := p) hshared
    refine ⟨[], ?_⟩
    rw [hrun]
    simp only [huncount]
    rfl

/-- An access that is checked goes ahead as an access of the thread that it is made as. -/
theorem before_of_checked (hp : p.pending = none) (h : e.target? r = some ref) :
    ∃ a, (e.before p r).2.pending = some a ∧ a.location = ref ∧ a.thread = e.actsAs p ∧
      a.kind = r.kind := by
  obtain ⟨hshared, hfound⟩ := Option.ite_none_right_eq_some.mp h
  have hask := (complete_choosing_of_shared (e := { e with inFlight := e.inFlight + 1 })
    (p := p) hshared).trans (complete_locating_of_some hfound)
  rw [before_eq_choosing hp, hask]
  obtain ⟨-, hrun⟩ | ⟨-, retries, reason, hrun⟩ := complete_asking (p := p)
    (q := ⟨ref, e.actsAs p, r.kind, 0⟩)
    (e := { e with
      memory := (e.memory.lookUp e.objects r.object r.field).1
      inFlight := e.inFlight + 1 }.notes (e.memory.remarks e.objects r.object r.field))
    (Bool.and_eq_true_iff.mp hshared).1
  · exact ⟨_, congrArg (·.2.who.pending) hrun, rfl, rfl, rfl⟩
  · obtain ⟨e₁, -, -, -, -, -, hend⟩ := complete_marking (p := p)
      (e := { e with
        memory := (e.memory.lookUp e.objects r.object r.field).1
        inFlight := e.inFlight + 1 }.notes (e.memory.remarks e.objects r.object r.field))
      ⟨ref, e.actsAs p, r.kind, retries⟩ reason
    exact ⟨_, congrArg (·.2.who.pending) (hrun.trans hend), rfl, rfl, rfl⟩

/-- No step of a thread that keeps its history itself touches the histories that are filed. -/
theorem filesNext_own {h : History} (hp : p.history = .own h) (stage : Stage) :
    ∃ h', e.filesNext p stage = (e.book, .own h') := by
  cases stage <;> simp [filesNext, hp, HistoryPlace.change]

/-- No hook of a thread that keeps its history itself changes one that is harvested. -/
theorem histories_call_own {h : History} (hp : p.history = .own h) (hook : Hook) :
    (e.call p hook).1.histories = e.histories := by
  obtain ⟨-, hbook, hedition⟩ := complete_keeps (e := e) (c := ⟨p, .entry hook⟩)
    (P := fun e' c' => (∃ h', c'.who.history = .own h') ∧ e'.book = e.book ∧
      e'.memory.edition = e.memory.edition)
    (fun e₁ c₁ _ ⟨⟨h₁, hown⟩, hbook, hedition⟩ => by
      have heffect := effect_step e₁ c₁
      obtain ⟨h', hfiles⟩ := filesNext_own (e := e₁) hown c₁.stage
      rw [← heffect.files] at hfiles
      exact ⟨⟨h', congrArg Prod.snd hfiles⟩, (congrArg Prod.fst hfiles).trans hbook,
        by rw [heffect.memory, Traffic.edition_memoryNext, hedition]⟩)
    ⟨⟨h, hp⟩, rfl, rfl⟩
  simp only [histories, call_eq, hbook, hedition]

end Engine

/-- A thread without a counterpart, which keeps its history itself. -/
structure Participant.Apart (p : Participant) : Prop where
  recorded : p.recorded = none
  history : ∃ h, p.history = .own h

theorem Participant.apart_detached (thread : AnnouncedThread) : (detached thread).Apart :=
  ⟨rfl, _, rfl⟩

theorem Engine.apart_call {e : Engine} {p : Participant} (hp : p.Apart) (hook : Hook) :
    (e.call p hook).2.Apart := by
  obtain ⟨-, -, hrecorded, hfiled⟩ := e.keeps_call p hook
  refine ⟨hrecorded.trans hp.recorded, ?_⟩
  obtain ⟨h, hown⟩ := hp.history
  cases hplace : (e.call p hook).2.history with
  | own h' => exact ⟨h', rfl⟩
  | filed ref =>
    have hbefore := (hfiled ref).mp hplace
    rw [hown] at hbefore
    cases hbefore

namespace Agent

variable {a : Agent} {e : Engine} {p : Participant} {r : Request} {ref : LocationRef}

/-- The location at which the agent checks an announced access, if it does. -/
def target? (a : Agent) (r : Request) : Option LocationRef := a.active?.bind (·.target? r)

/-- The histories that would be harvested now. -/
def histories (a : Agent) : List History := a.engine.elim [] Engine.histories

theorem notes_nil : a.notes [] = a := by
  obtain ⟨config, observer, state, engine, past⟩ := a
  cases engine <;> rfl

theorem before_of_unchecked (hp : p.pending = none) (h : a.target? r = none) :
    ∃ ns, a.before p r = (a.notes ns, p) := by
  cases hactive : a.active? with
  | none =>
    exact ⟨[], by simp only [before, hactive, notes_nil]⟩
  | some e =>
    simp only [target?, hactive, Option.bind_some] at h
    obtain ⟨ns, hbefore⟩ := Engine.before_of_unchecked hp h
    exact ⟨ns, by simp only [before, hactive, hbefore, notes, engine_of_active? hactive]⟩

theorem before_of_checked (hp : p.pending = none) (h : a.target? r = some ref) :
    ∃ e b, a.engine = some e ∧ (a.before p r).2.pending = some b ∧ b.location = ref ∧
      b.thread = e.actsAs p ∧ b.kind = r.kind := by
  obtain ⟨e, hactive, htarget⟩ := Option.bind_eq_some_iff.mp h
  obtain ⟨b, hb⟩ := Engine.before_of_checked hp htarget
  exact ⟨e, b, engine_of_active? hactive, by simpa only [before, hactive] using hb⟩

theorem apart_before (hp : p.Apart) (r : Request) : (a.before p r).2.Apart := by
  unfold before
  split
  · exact Engine.apart_call hp (.before r)
  · exact hp

theorem apart_after (hp : p.Apart) (kind : AccessKind) : (a.after p kind).2.Apart := by
  unfold after
  split
  · split
    · exact Engine.apart_call hp (.after kind)
    · exact ⟨hp.recorded, hp.history⟩
  · exact hp

theorem histories_before (hp : p.Apart) (r : Request) :
    (a.before p r).1.histories = a.histories := by
  obtain ⟨h, hown⟩ := hp.history
  unfold before
  split
  · next e he =>
    simp only [histories, engine_of_active? he, Option.elim_some]
    exact Engine.histories_call_own hown (.before r)
  · rfl

theorem histories_after (hp : p.Apart) (kind : AccessKind) :
    (a.after p kind).1.histories = a.histories := by
  obtain ⟨h, hown⟩ := hp.history
  unfold after
  split
  · split
    · next e he =>
      simp only [histories, he, Option.elim_some]
      exact Engine.histories_call_own hown (.after kind)
    · rfl
  · rfl

end Agent

/-! ## Runs with a detached context -/

/-- The call is a hook on the context. -/
def AgentCall.On (i : Nat) : AgentCall → Prop
  | .before j _ | .after j _ => j = i
  | _ => False

namespace Deployment

variable {s : Deployment} {i : Nat} {p : Participant} {call : AgentCall}

/-- No hook on the context announces an access that the agent checks. -/
def Spared (i : Nat) (s : Deployment) : List AgentCall → Prop
  | [] => True
  | call :: calls =>
    (∀ r, call = .before i r → s.agent.target? r = none) ∧ Spared i (s.perform call) calls

theorem perform_before (hi : s.contexts[i]? = some p) (r : Request) : s.perform (.before i r) =
    ⟨(s.agent.before p r).1, s.contexts.set i (s.agent.before p r).2⟩ := by
  simp only [perform, hi]

theorem getElem?_append_of_some (hi : s.contexts[i]? = some p) (ps : List Participant) :
    (s.contexts ++ ps)[i]? = some p := by
  rw [List.getElem?_append_left (List.getElem?_eq_some_iff.mp hi).1, hi]

theorem getElem?_set_of_some (hi : s.contexts[i]? = some p) (q : Participant) :
    (s.contexts.set i q)[i]? = some q := by
  rw [List.getElem?_set_self (List.getElem?_eq_some_iff.mp hi).1]

/-- A context changes by hooks on it only. -/
theorem contexts_perform_of_not_on (hi : s.contexts[i]? = some p) (hon : ¬call.On i) :
    (s.perform call).contexts[i]? = some p := by
  cases call with
  | startup | rootContext | adopt => exact getElem?_append_of_some hi _
  | shutdown | objectCreated => exact hi
  | threadStarted j child =>
    simp only [perform]
    split
    · exact hi
    · exact getElem?_append_of_some hi _
  | before j r | after j kind =>
    simp only [perform]
    split
    · exact hi
    · simpa only [List.getElem?_set_ne hon] using hi

theorem apart_perform (hi : s.contexts[i]? = some p) (hp : p.Apart) (call : AgentCall) :
    ∃ p', (s.perform call).contexts[i]? = some p' ∧ p'.Apart := by
  by_cases hon : call.On i
  · cases call with
    | before j r =>
      obtain rfl : j = i := hon
      rw [perform_before hi, getElem?_set_of_some hi]
      exact ⟨_, rfl, Agent.apart_before hp r⟩
    | after j kind =>
      obtain rfl : j = i := hon
      rw [perform_after hi, getElem?_set_of_some hi]
      exact ⟨_, rfl, Agent.apart_after hp kind⟩
    | _ => exact absurd hon id
  · exact ⟨p, contexts_perform_of_not_on hi hon, hp⟩

theorem apart_performAll (hi : s.contexts[i]? = some p) (hp : p.Apart) (calls : List AgentCall) :
    ∃ p', (s.performAll calls).contexts[i]? = some p' ∧ p'.Apart := by
  induction calls generalizing s p with
  | nil => exact ⟨p, hi, hp⟩
  | cons call calls ih =>
    obtain ⟨p', hi', hp'⟩ := apart_perform hi hp call
    exact ih hi' hp'

/-- A hook on a context that is apart changes no history that is harvested. -/
theorem histories_perform (hi : s.contexts[i]? = some p) (hp : p.Apart) (hon : call.On i) :
    (s.perform call).agent.histories = s.agent.histories := by
  cases call with
  | before j r =>
    obtain rfl : j = i := hon
    rw [perform_before hi]
    exact Agent.histories_before hp r
  | after j kind =>
    obtain rfl : j = i := hon
    rw [perform_after hi]
    exact Agent.histories_after hp kind
  | _ => exact absurd hon id

theorem perform_before_of_unchecked (hi : s.contexts[i]? = some p) (hp : p.pending = none)
    {r : Request} (h : s.agent.target? r = none) :
    ∃ ns, s.perform (.before i r) = { s with agent := s.agent.notes ns } := by
  obtain ⟨ns, hbefore⟩ := Agent.before_of_unchecked hp h
  exact ⟨ns, by rw [perform_before hi, hbefore, set_contexts hi]⟩

/-- A context on which no checked access is announced stays as it was made. -/
theorem spared_performAll (hi : s.contexts[i]? = some p) (hp : p.pending = none)
    {calls : List AgentCall} (hspared : s.Spared i calls) :
    (s.performAll calls).contexts[i]? = some p := by
  induction calls generalizing s with
  | nil => exact hi
  | cons call calls ih =>
    obtain ⟨hcall, hrest⟩ := hspared
    refine ih ?_ hrest
    by_cases hon : call.On i
    · cases call with
      | before j r =>
        obtain rfl : j = i := hon
        obtain ⟨ns, hsame⟩ := perform_before_of_unchecked hi hp (hcall r rfl)
        rw [hsame, hi]
      | after j kind =>
        obtain rfl : j = i := hon
        rw [(finishesOnly hi kind).idle hp, hi]
      | _ => exact absurd hon id
    · exact contexts_perform_of_not_on hi hon

/-- **Only its history stays outside the replay.**  A context that was handed out detached never
gets a counterpart, and no hook on it changes a history that is harvested.  As long as no access
that the agent checks is announced on it, no access is opened on it, and nothing comes of its
hooks but what is said.  But an access that the agent checks is opened, at its location, as one
of the recorded root. -/
theorem detached_until_checked (config : AgentConfig) (observer : Option Observer)
    (past : Archive) (calls calls' : List AgentCall) {i : Nat} {thread : AnnouncedThread}
    (hi : ((fresh config observer past).performAll calls).contexts[i]? =
      some (.detached thread)) :
    let s := (fresh config observer past).performAll calls
    let t := s.performAll calls'
    (∃ p, t.contexts[i]? = some p ∧ p.Apart ∧ ∀ call : AgentCall, call.On i →
      (t.perform call).agent.histories = t.agent.histories) ∧
    (s.Spared i calls' →
      t.contexts[i]? = some (.detached thread) ∧
      (∀ kind, t.perform (.after i kind) = t) ∧
      (∀ r, t.agent.target? r = none →
        ∃ ns, t.perform (.before i r) = { t with agent := t.agent.notes ns }) ∧
      ∀ r ref, t.agent.target? r = some ref →
        ∃ e p a, t.agent.engine = some e ∧ (t.perform (.before i r)).contexts[i]? = some p ∧
          p.pending = some a ∧ a.location = ref ∧ a.thread = e.recording.root.raw ∧
          a.kind = r.kind) := by
  intro s t
  obtain ⟨p, hp, hapart⟩ := apart_performAll hi (Participant.apart_detached thread) calls'
  refine ⟨⟨p, hp, hapart, fun call hon => histories_perform hp hapart hon⟩, fun hspared => ?_⟩
  have ht : t.contexts[i]? = some (.detached thread) := spared_performAll hi rfl hspared
  refine ⟨ht, fun kind => (finishesOnly ht kind).idle rfl,
    fun r hnone => perform_before_of_unchecked ht rfl hnone, fun r ref href => ?_⟩
  obtain ⟨e, a, he, ha, hlocation, hthread, hkind⟩ :=
    Agent.before_of_checked (p := .detached thread) rfl href
  refine ⟨e, _, a, he, ?_, ha, hlocation, hthread, hkind⟩
  rw [perform_before ht, getElem?_set_of_some ht]

/-! ## A context that comes too early -/

/-- One thread, which wrote to the value of a box. -/
def boxDump : Dump where
  threads := [⟨1, []⟩]
  sharedFields := (∅ : Catalogue).insert "Box" ((∅ : Std.ExtTreeSet String).insert "value")
  locations := [⟨⟨0⟩, "Box", "value", [⟨1, .write, none⟩]⟩]

/-- The file that the dump is in. -/
def boxFile : List UInt8 := boxDump.compact.map fun c => UInt8.ofNat c.toNat

theorem load_boxFile (path : String) : Trace.load path (.ok boxFile) =
    .ok ⟨path, Checksum.crc32 boxFile, Replay.oneWrite⟩ := by
  have hdecode : Text.Utf8.decode boxFile = .ok boxDump.compact := by decide +kernel
  have hdump : Recording.ofDump boxDump = .ok Replay.oneWrite := by
    rw [Recording.ofDump, Recording.growTree_of_pairwise (by decide)]
    rfl
  simp only [Trace.load, Trace.ofBytes, hdecode, Dump.recording?, Dump.parse?_compact, hdump]

/-- A context is handed out before the agent is started. -/
def early : Deployment :=
  (fresh { dumpPath := "dump.json", budget := { maxRetries := 0 } } none {}).performAll
    [.rootContext ⟨50, "early"⟩]

/-- Then the agent is started. -/
def startedLater : Deployment :=
  let e := early.agent.begun (.ok boxFile) ⟨7, "main"⟩
    ⟨"dump.json", Checksum.crc32 boxFile, Replay.oneWrite⟩
  ⟨{ early.agent.loading (.ok boxFile) with state := .active, engine := some e },
    [.detached ⟨50, "early"⟩, e.rootParticipant]⟩

theorem startup_early : early.perform (.startup (.ok boxFile) ⟨7, "main"⟩) = startedLater := by
  have hstart := Agent.startup_of_ok (a := early.agent) rfl (load_boxFile "dump.json") ⟨7, "main"⟩
  simp only [perform, hstart]
  rfl

/-- The write that was recorded. -/
def boxWrite : Request := ⟨⟨100, "Box"⟩, "value", .write⟩

/-- How many writes are committed to the value of the box. -/
def boxWrites (s : Deployment) : Option Nat :=
  (s.agent.engine.bind fun e => e.memory.find? ⟨1, ⟨⟨0⟩, "value"⟩⟩).map Location.committed

/-- The agent is started, and a field of the box that is not shared is read. -/
def readOfSize : List AgentCall :=
  [.startup (.ok boxFile) ⟨7, "main"⟩, .objectCreated ⟨100, "Box"⟩,
    .before 0 ⟨⟨100, "Box"⟩, "size", .read⟩]

theorem spared_readOfSize : early.Spared 0 readOfSize := by
  simp only [readOfSize, Spared, startup_early]
  refine ⟨nofun, nofun, fun r hr => ?_, trivial⟩
  cases hr
  decide +kernel

theorem read_of_size_stays_outside :
    early.contexts[0]? = some (.detached ⟨50, "early"⟩) ∧ early.Spared 0 readOfSize ∧
      (early.performAll readOfSize).contexts[0]? = some (.detached ⟨50, "early"⟩) := by
  have hearly : early.contexts[0]? = some (.detached ⟨50, "early"⟩) := rfl
  obtain ⟨-, houtside⟩ :=
    detached_until_checked _ none {} [.rootContext ⟨50, "early"⟩] readOfSize hearly
  exact ⟨hearly, spared_readOfSize, (houtside spared_readOfSize).1⟩

/-- A write on the context that was handed out early is checked, and is granted in the place of
the recorded root's; the root's own one then has none left. -/
theorem early_context_is_checked :
    early.contexts[0]? = some (.detached ⟨50, "early"⟩) ∧
    let opened := early.performAll
      [.startup (.ok boxFile) ⟨7, "main"⟩, .objectCreated ⟨100, "Box"⟩, .before 0 boxWrite]
    let closed := opened.perform (.after 0 .write)
    let diverged := closed.perform (.before 1 boxWrite)
    opened.contexts[0]?.bind Participant.pending =
        some ⟨⟨1, ⟨⟨0⟩, "value"⟩⟩, 1, .write, .granted, 0⟩ ∧
      boxWrites opened = some 0 ∧ boxWrites closed = some 1 ∧
      closed.agent.engine.map Engine.divergences = some 0 ∧
      diverged.agent.engine.map Engine.divergences = some 1 := by
  refine ⟨rfl, ?_⟩
  simp only [performAll, List.foldl_cons, List.foldl_nil, startup_early]
  decide +kernel

end Deployment
end AccessReplay
