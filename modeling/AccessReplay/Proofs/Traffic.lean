import AccessReplay.Proofs.FiledHistories
import AccessReplay.Harvest

/-!
# Traffic

Threads are in hooks at the same time.  Each move is one step of one of them, or the
announcement of an object or a thread, and moves follow each other in any order.  One more
thread ends the replay: it stops the checks, looks until no access is in flight, and takes
the harvest.

At any time, what was let through on a context is what was filed of it and what its thread
still holds, each history lists what was filed in it, and the number in flight is the weight
of all threads (`Sound`).
-/
namespace AccessReplay

/-- How far the thread has come that ends the replay. -/
inductive Closing where
  | notBegun
  /-- Accesses are no longer checked. -/
  | stopped
  /-- When it looked, no access was in flight. -/
  | settled
  | harvested (harvest : Harvest)
deriving DecidableEq, Repr

/-- Has no access been in flight when the ending thread looked? -/
def Closing.HasSettled : Closing → Prop
  | .notBegun | .stopped => False
  | .settled | .harvested _ => True

/-- A replay with all the contexts handed out, and where each of their threads stands. -/
structure Traffic where
  engine : Engine
  callers : List Caller := []
  closing : Closing := .notBegun

/-- A move in the traffic.  Contexts are named by the order in which they were handed out. -/
inductive Move where
  | objectCreated (object : AnnouncedObject)
  | threadStarted (parent : Nat) (child : AnnouncedThread)
  | rootContext
  | detached (thread : AnnouncedThread)
  /-- A thread that is in no hook calls one. -/
  | enter (context : Nat) (hook : Hook)
  /-- A thread takes the next step of its hook. -/
  | step (context : Nat)
  /-- The ending thread takes its next step. -/
  | close (timeout : Duration)

namespace Traffic

open Replay (Log accessesOf)

/-- What a move does. -/
def perform (t : Traffic) : Move → Traffic
  | .objectCreated object => { t with engine := t.engine.objectCreated object }
  | .threadStarted i child =>
    match t.callers[i]? with
    | none => t
    | some parent =>
      let (engine, p) := t.engine.threadStarted parent.who.live.raw child
      { t with engine, callers := t.callers ++ [⟨p, .outside⟩] }
  | .rootContext => { t with callers := t.callers ++ [⟨t.engine.rootParticipant, .outside⟩] }
  | .detached thread => { t with callers := t.callers ++ [⟨.detached thread, .outside⟩] }
  | .enter i hook =>
    match t.callers[i]? with
    | none => t
    | some c =>
      if c.stage = .outside then
        { t with callers := t.callers.set i ⟨c.who, .entry hook⟩ }
      else t
  | .step i =>
    match t.callers[i]? with
    | none => t
    | some c =>
      if c.stage = .outside then t
      else
        let (engine, c) := t.engine.step c
        { t with engine, callers := t.callers.set i c }
  | .close timeout =>
    match t.closing with
    | .notBegun => { t with engine := t.engine.stopChecking, closing := .stopped }
    | .stopped =>
      let (engine, settled) := t.engine.settle timeout
      { t with engine, closing := if settled then .settled else .stopped }
    | .settled => { t with closing := .harvested t.engine.harvest }
    | .harvested _ => t

/-- What several moves do. -/
def run (t : Traffic) (moves : List Move) : Traffic := moves.foldl perform t

/-- The access that a thread holds. -/
def heldBy (t : Traffic) (i : Nat) : List OpenAccess := (t.callers[i]?).elim [] Caller.held

/-- What a move files. -/
def filedBy (t : Traffic) : Move → Log
  | .step i =>
    match t.callers[i]? with
    | none => []
    | some c => if c.stage = .outside then [] else c.filed.map (i, ·)
  | _ => []

/-- What a move lets through: a thread leaves its hook with an access open. -/
def admittedBy (t : Traffic) : Move → Log
  | .step i =>
    match t.callers[i]? with
    | none => []
    | some c => if c.stage = .outside then [] else (t.engine.step c).2.admitted.map (i, ·)
  | _ => []

/-- What moves file, in order. -/
def filed (t : Traffic) : List Move → Log
  | [] => []
  | move :: moves => t.filedBy move ++ (t.perform move).filed moves

/-- What moves let through, in order. -/
def admitted (t : Traffic) : List Move → Log
  | [] => []
  | move :: moves => t.admittedBy move ++ (t.perform move).admitted moves

/-- The engine and the contexts alone. -/
def toReplay (t : Traffic) : Replay := ⟨t.engine, t.callers.map Caller.who⟩

/-- How much all threads together weigh on the number of accesses in flight. -/
def weight (t : Traffic) : Nat := t.callers.foldr (fun c total => c.load + total) 0

variable {t : Traffic} {adm fin : Log} {i : Nat} {c c' : Caller} {p : Participant} {e' : Engine}
  {move : Move} {moves : List Move}

theorem run_concat : t.run (moves ++ [move]) = (t.run moves).perform move := by
  simp [run]

theorem filed_concat :
    t.filed (moves ++ [move]) = t.filed moves ++ (t.run moves).filedBy move := by
  induction moves generalizing t with
  | nil => simp [filed, run]
  | cons m moves ih => simp [filed, run, ih]

theorem admitted_concat :
    t.admitted (moves ++ [move]) = t.admitted moves ++ (t.run moves).admittedBy move := by
  induction moves generalizing t with
  | nil => simp [admitted, run]
  | cons m moves ih => simp [admitted, run, ih]

@[simp] theorem engine_toReplay : t.toReplay.engine = t.engine := rfl

theorem toReplay_set : toReplay { t with engine := e', callers := t.callers.set i c } =
    ⟨e', t.toReplay.contexts.set i c.who⟩ := by
  simp [toReplay, List.map_set]

theorem toReplay_append : toReplay { t with engine := e', callers := t.callers ++ [c] } =
    ⟨e', t.toReplay.contexts ++ [c.who]⟩ := by
  simp [toReplay]

theorem getElem?_contexts (h : t.callers[i]? = some c) :
    t.toReplay.contexts[i]? = some c.who := by
  simp [toReplay, h]

theorem weight_set (h : t.callers[i]? = some c) (e' : Engine) (c' : Caller) :
    weight { t with engine := e', callers := t.callers.set i c' } + c.load =
      t.weight + c'.load := by
  unfold weight
  dsimp only
  generalize t.callers = callers at h
  -- the induction goes down the callers to the one that is replaced
  induction callers generalizing i with
  | nil => simp at h
  | cons d callers ih =>
    cases i with
    | zero =>
      obtain rfl : d = c := by simpa using h
      simp only [List.set_cons_zero, List.foldr_cons]
      omega
    | succ i =>
      have := ih (i := i) (by simpa using h)
      simp only [List.set_cons_succ, List.foldr_cons]
      omega

theorem heldBy_of_getElem? (h : t.callers[i]? = some c) : t.heldBy i = c.held := by
  simp [heldBy, h]

theorem heldBy_set_self (h : t.callers[i]? = some c) (e' : Engine) (c' : Caller) :
    heldBy { t with engine := e', callers := t.callers.set i c' } i = c'.held :=
  heldBy_of_getElem? (List.getElem?_set_self (List.getElem?_eq_some_iff.mp h).1)

theorem heldBy_set_of_ne {j : Nat} (h : i ≠ j) (e' : Engine) (c' : Caller) :
    heldBy { t with engine := e', callers := t.callers.set i c' } j = t.heldBy j := by
  simp [heldBy, List.getElem?_set_ne h]

theorem heldBy_append (hp : p.pending = none) (e' : Engine) :
    heldBy { t with engine := e', callers := t.callers ++ [⟨p, .outside⟩] } i = t.heldBy i := by
  unfold heldBy
  rw [List.getElem?_append]
  split
  · rfl
  · next hge =>
    rw [List.getElem?_eq_none (Nat.not_lt.mp hge), List.getElem?_singleton]
    split <;> simp [hp]

/-! ## What a step leaves alone -/

theorem edition_memoryNext (e : Engine) (stage : Stage) :
    (e.memoryNext stage).edition = e.memory.edition := by
  cases stage <;> simp [Engine.memoryNext]

theorem bounded_memoryNext {e : Engine} (h : e.memory.Bounded) (stage : Stage) :
    (e.memoryNext stage).Bounded := by
  cases stage with
  | committing a next => exact h.commit a
  | locating r => exact h.lookUp
  | asking q => exact h.poll
  | marking q reason => exact h.diverge
  | _ => exact h

theorem thread_step (e : Engine) (c : Caller) (ref : HistoryRef) :
    (e.step c).1.book[ref]?.map History.thread = e.book[ref]?.map History.thread := by
  have hbook : (e.step c).1.book = (e.filesNext c.who c.stage).1 :=
    congrArg Prod.fst (Engine.effect_step e c).files
  rw [hbook]
  obtain ⟨p, stage⟩ := c
  cases stage with
  | filing a next => exact HistoryPlace.map_change fun _ => rfl
  | flagging q reason => exact HistoryPlace.map_change fun _ => rfl
  | _ => rfl

/-! ## What a move can do -/

/-- What a move lets through, what it files, and what it leads to. -/
inductive Moved (t : Traffic) : Log → Log → Traffic → Prop
  | nothing : Moved t [] [] t
  /-- Nothing that is recorded of accesses changes; the checks may be stopped. -/
  | engine {e' : Engine} {closing : Closing} : Replay.SameRecords t.engine e' →
      e'.inFlight = t.engine.inFlight →
      e'.checking = t.engine.checking ∨ e'.checking = false →
      (closing ≠ .notBegun → e'.checking = false) →
      Moved t [] [] { t with engine := e', closing }
  | handsOut {e' : Engine} {p : Participant} : Replay.HandsOut t.engine e' p →
      e'.inFlight = t.engine.inFlight → e'.checking = t.engine.checking →
      Moved t [] [] { t with engine := e', callers := t.callers ++ [⟨p, .outside⟩] }
  | enter {i : Nat} {c : Caller} : t.callers[i]? = some c → c.stage = .outside → (hook : Hook) →
      Moved t [] [] { t with callers := t.callers.set i ⟨c.who, .entry hook⟩ }
  | step {i : Nat} {c : Caller} : t.callers[i]? = some c → c.stage ≠ .outside →
      Moved t ((t.engine.step c).2.admitted.map (i, ·)) (c.filed.map (i, ·))
        { t with engine := (t.engine.step c).1, callers := t.callers.set i (t.engine.step c).2 }

theorem moved_objectCreated (hc : t.closing ≠ .notBegun → t.engine.checking = false)
    (object : AnnouncedObject) : Moved t [] [] (t.perform (.objectCreated object)) := by
  obtain ⟨objects, journal, hobject⟩ := t.engine.objectCreated_eq object
  simp only [perform, hobject]
  exact .engine ⟨rfl, rfl, rfl, rfl, rfl, rfl⟩ rfl (.inl rfl) hc

theorem moved_close (hc : t.closing ≠ .notBegun → t.engine.checking = false)
    (timeout : Duration) : Moved t [] [] (t.perform (.close timeout)) := by
  simp only [perform]
  split
  · exact .engine (Replay.sameRecords_stopChecking t.engine) rfl (.inr rfl) fun _ => rfl
  · next hclosing =>
    have hoff : t.engine.checking = false := hc (by simp [hclosing])
    obtain ⟨journal, hsettle⟩ := t.engine.settle_eq timeout
    simp only [hsettle]
    exact .engine ⟨rfl, rfl, rfl, rfl, rfl, rfl⟩ rfl (.inl rfl) fun _ => hoff
  · next hclosing =>
    have hoff : t.engine.checking = false := hc (by simp [hclosing])
    exact .engine ⟨rfl, rfl, rfl, rfl, rfl, rfl⟩ rfl (.inl rfl) fun _ => hoff
  · exact .nothing

/-- **What a move can do.** -/
theorem moved (hw : t.toReplay.WellFormed)
    (hc : t.closing ≠ .notBegun → t.engine.checking = false) (move : Move) :
    Moved t (t.admittedBy move) (t.filedBy move) (t.perform move) := by
  cases move with
  | objectCreated object => exact moved_objectCreated hc object
  | close timeout => exact moved_close hc timeout
  | rootContext => exact .handsOut hw.handsOut_root rfl rfl
  | detached thread => exact .handsOut (Replay.handsOut_detached t.engine hw.keyed thread) rfl rfl
  | threadStarted i child =>
    simp only [perform]
    split
    · exact .nothing
    · next parent hi =>
      obtain ⟨counterparts, journal, recorded, hs⟩ :=
        t.engine.threadStarted_eq parent.who.live.raw child
      refine .handsOut (Replay.handsOut_threadStarted hw.keyed parent.who.live.raw child) ?_ ?_ <;>
        rw [hs]
  | enter i hook =>
    simp only [perform]
    split
    · exact .nothing
    · next c hi =>
      split
      · next hout => exact .enter hi hout hook
      · exact .nothing
  | step i =>
    simp only [perform, admittedBy, filedBy]
    split
    · exact .nothing
    · next c hi =>
      split
      · exact .nothing
      · next hin => exact .step hi hin

/-! ## The invariant -/

/-- What is true of the traffic at any time. -/
structure Sound (adm fin : Log) (t : Traffic) : Prop extends t.toReplay.Listed fin where
  wellFormed : t.toReplay.WellFormed
  proper : ∀ c ∈ t.callers, c.Proper
  /-- The number in flight is what all threads weigh. -/
  inFlight : t.engine.inFlight = .ofNat t.weight
  /-- What was let through is filed, or still held. -/
  passed : ∀ i, accessesOf adm (· = i) = accessesOf fin (· = i) ++ t.heldBy i
  checking : t.closing ≠ .notBegun → t.engine.checking = false

namespace Sound

/-- Nothing that is recorded of accesses changes. -/
theorem ofEngine (h : Sound adm fin t) (hs : Replay.SameRecords t.engine e') (closing : Closing)
    (hn : e'.inFlight = t.engine.inFlight)
    (hc : closing ≠ .notBegun → e'.checking = false) :
    Sound adm fin { t with engine := e', closing } where
  toListed := h.toListed.sameRecords hs
  wellFormed := h.wellFormed.sameRecords hs
  proper := h.proper
  inFlight := hn.trans h.inFlight
  passed := h.passed
  checking := hc

/-- A context is handed out. -/
theorem handsOut (h : Sound adm fin t) (hs : Replay.HandsOut t.engine e' p)
    (hn : e'.inFlight = t.engine.inFlight) (hc : e'.checking = t.engine.checking) :
    Sound adm fin { t with engine := e', callers := t.callers ++ [⟨p, .outside⟩] } where
  toListed := toReplay_append ▸ h.toListed.handsOut h.wellFormed hs
  wellFormed := toReplay_append ▸ h.wellFormed.handsOut hs
  proper c hc := by
    rcases List.mem_append.mp hc with hc | hc
    · exact h.proper c hc
    · rw [List.mem_singleton.mp hc]
      exact Caller.proper_outside p
  inFlight := by
    rw [hn, h.inFlight]
    simp [weight, hs.pending]
  passed i := by
    rw [heldBy_append hs.pending]
    exact h.passed i
  checking hne := hc.trans (h.checking hne)

/-- A hook is called. -/
theorem enter (h : Sound adm fin t) (hi : t.callers[i]? = some c) (hout : c.stage = .outside)
    (hook : Hook) :
    Sound adm fin { t with callers := t.callers.set i ⟨c.who, .entry hook⟩ } := by
  obtain ⟨p, stage⟩ := c
  obtain rfl : stage = .outside := hout
  have hsame : toReplay { t with callers := t.callers.set i ⟨p, .entry hook⟩ } = t.toReplay := by
    obtain ⟨hlt, hp⟩ := List.getElem?_eq_some_iff.mp (getElem?_contexts hi)
    obtain rfl : t.toReplay.contexts[i] = p := hp
    rw [toReplay, List.map_set]
    exact congrArg _ (List.set_getElem_self hlt)
  refine ⟨hsame ▸ h.toListed, hsame ▸ h.wellFormed, fun c hc => ?_, ?_, fun j => ?_, h.checking⟩
  · rcases List.mem_or_eq_of_mem_set hc with hc | rfl
    · exact h.proper c hc
    · exact Caller.proper_entry p hook
  · -- a hook weighs nothing before its first step
    have hweight := weight_set hi t.engine ⟨p, .entry hook⟩
    rw [Caller.load_entry, Caller.load_outside] at hweight
    rw [h.inFlight]
    exact congrArg _ (Nat.add_right_cancel hweight).symm
  · rw [h.passed]
    by_cases hij : i = j
    · subst hij
      rw [heldBy_set_self hi, heldBy_of_getElem? hi, Caller.held_entry, Caller.held_outside]
    · rw [heldBy_set_of_ne hij]

/-- A thread takes a step of its hook. -/
theorem step (h : Sound adm fin t) (hi : t.callers[i]? = some c) (hin : c.stage ≠ .outside) :
    Sound (adm ++ (t.engine.step c).2.admitted.map (i, ·)) (fin ++ c.filed.map (i, ·))
      { t with engine := (t.engine.step c).1, callers := t.callers.set i (t.engine.step c).2 } := by
  have heffect := Engine.effect_step t.engine c
  have hproper := h.proper c (List.mem_of_getElem? hi)
  have hcontext := getElem?_contexts hi
  have hedition : (t.engine.step c).1.memory.edition = t.engine.memory.edition := by
    rw [heffect.memory, edition_memoryNext]
  refine ⟨?_, ?_, fun d hd => ?_, ?_, fun j => ?_, fun hne => ?_⟩
  · rw [toReplay_set]
    exact h.toListed.turn hcontext hedition heffect.adds
  · rw [toReplay_set]
    refine h.wellFormed.set hcontext heffect.setting hedition ?_ (thread_step t.engine c)
      fun ref => (heffect.adds.filed_iff ref).mp
    rw [heffect.memory]
    exact bounded_memoryNext h.wellFormed.bounded.memory c.stage
  · rcases List.mem_or_eq_of_mem_set hd with hd | rfl
    · exact h.proper d hd
    · exact Engine.proper_step t.engine hproper
  · -- the count moves by what the thread weighs more or less
    have hcount := congrArg UInt64.ofNat
      (weight_set hi (t.engine.step c).1 (t.engine.step c).2)
    have hstep := Engine.inFlight_step t.engine hproper
    have hold := h.inFlight
    rw [UInt64.ofNat_add, UInt64.ofNat_add] at hcount
    grind
  · rw [Replay.accessesOf_append, Replay.accessesOf_append, Replay.accessesOf_map,
      Replay.accessesOf_map, h.passed]
    by_cases hij : i = j
    · -- what this thread holds or lets through is filed now or held on
      subst hij
      have hheld := Engine.held_step t.engine hproper hin
      rw [heldBy_set_self hi, heldBy_of_getElem? hi, if_pos rfl, if_pos rfl, List.append_assoc,
        List.append_assoc, hheld]
    · rw [heldBy_set_of_ne hij, if_neg hij, if_neg hij, List.append_nil, List.append_nil]
  · exact (congrArg Engine.Setting.checking heffect.setting).trans (h.checking hne)

/-- **Every move keeps what is true of the traffic.** -/
theorem perform (h : Sound adm fin t) (move : Move) :
    Sound (adm ++ t.admittedBy move) (fin ++ t.filedBy move) (t.perform move) := by
  have hmoved := moved h.wellFormed h.checking move
  generalize t.admittedBy move = admitted, t.filedBy move = filed, t.perform move = t' at hmoved ⊢
  cases hmoved with
  | nothing => simpa using h
  | engine hs hn hon hoff => simpa using h.ofEngine hs _ hn hoff
  | handsOut hs hn hc => simpa using h.handsOut hs hn hc
  | enter hi hout hook => simpa using h.enter hi hout hook
  | step hi hin => exact h.step hi hin

/-- **What is true of the traffic at any time**, whatever moves were made. -/
theorem run (h : Sound [] [] t) (moves : List Move) :
    Sound (t.admitted moves) (t.filed moves) (t.run moves) := by
  induction moves using List.reverseRecOn with
  | nil => exact h
  | append_singleton moves move ih =>
    rw [run_concat, admitted_concat, filed_concat]
    exact ih.perform move

end Sound
end Traffic
end AccessReplay
