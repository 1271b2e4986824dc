import AccessReplay.Proofs.SpawnTreeGrowth
import AccessReplay.Proofs.WholeHooks
import Mathlib.Data.List.Induction

/-!
# Calls one after the other

A replay is called on behalf of the program's threads: objects and threads are announced,
contexts are handed out, hooks run on them, and in the end accesses are no longer checked.
Here each call is over before the next begins; apart from that, any call may follow any
other, on any context.

Two things are recorded of such a run from what can be seen of the contexts: the accesses
that were let through, and the accesses that were finished, each with its context
(`admitted`, `finished`).  What holds of a run is shown by the parts that calls are made of
(`Kept`): a hook finishes the open access of its context, and then decides on a new one.
-/
namespace AccessReplay

/-- Nothing of an edition that has not begun is there. -/
structure Archive.Bounded (a : Archive) : Prop where
  book : ∀ (ref : HistoryRef) h, a.book[ref]? = some h → ref.edition ≤ a.memory.edition
  memory : a.memory.Bounded

theorem Archive.bounded_empty : ({} : Archive).Bounded where
  book ref h hb := by simp at hb
  memory ref l hl := by simp [LiveMemory.find?] at hl

/-- A history is still blank. -/
structure History.Blank (h : History) : Prop where
  accesses : h.accesses = #[]
  diverged : h.diverged = false

variable {book : HistoryBook} {ref ref' : HistoryRef} {h : History}

theorem HistoryBook.getElem?_opened : (book.opened ref h)[ref']? =
    if ref = ref' then some (book[ref]?.getD h) else book[ref']? := by
  unfold opened
  split
  · next hmem =>
    split
    · next he =>
      subst he
      obtain ⟨old, hold⟩ := Option.isSome_iff_exists.mp
        (Std.ExtTreeMap.mem_iff_isSome_getElem?.mp hmem)
      simp [hold]
    · rfl
  · next hnew =>
    simp [Std.ExtTreeMap.getElem?_insert, Std.ExtTreeMap.getElem?_eq_none hnew]

/-! ## Threads are announced -/

/-- Matching a thread changes only what is noted of matches. -/
theorem SpawnTree.matchRecorded_eq (t : SpawnTree) (r : Recording) (live : ThreadId) :
    ∃ counterparts recorded, t.matchRecorded r live = ({ t with counterparts }, recorded) := by
  unfold matchRecorded
  split
  · exact ⟨t.counterparts, none, rfl⟩
  · exact ⟨_, _, rfl⟩

theorem Engine.matchRecorded_eq (e : Engine) (live : ThreadId) :
    ∃ counterparts journal recorded, e.matchRecorded live =
      ({ e with threads := { e.threads with counterparts }, journal }, recorded) := by
  obtain ⟨counterparts, recorded, h⟩ := e.threads.matchRecorded_eq e.recording live
  refine ⟨counterparts, (e.matchRecorded live).1.journal, recorded, ?_⟩
  simp only [matchRecorded, h]
  rfl

/-- A thread that is started gets its place in the tree and a history. -/
theorem Engine.threadStarted_eq (e : Engine) (parent : RuntimeId) (child : AnnouncedThread) :
    ∃ counterparts journal recorded, e.threadStarted parent child =
      ({ e with
          threads := { (e.threads.start parent child.raw).1 with counterparts }
          book := e.book.opened (e.historyRef child.raw) { thread := child, recorded }
          journal },
        { live := (e.threads.start parent child.raw).2
          recorded
          history := .filed (e.historyRef child.raw) }) := by
  obtain ⟨counterparts, journal, recorded, hm⟩ := matchRecorded_eq
    ({ e with threads := (e.threads.start parent child.raw).1 }.notes
      (e.threads.startRemarks parent child.raw)) (e.threads.start parent child.raw).2
  unfold threadStarted
  dsimp only
  rw [hm]
  dsimp only
  split
  · exact ⟨counterparts, _, recorded, rfl⟩
  · exact ⟨counterparts, journal, recorded, rfl⟩

theorem Engine.start_eq (past : Archive) (recording : Recording) (checksum : UInt32)
    (root : AnnouncedThread) (budget : Budget) (observer : Option Observer) :
    ∃ counterparts journal recorded, start past recording checksum root budget observer =
      { memory := past.memory.enforce recording
        book := past.book.opened ⟨past.memory.edition + 1, root.raw⟩
          { thread := root, recorded, isMain := true }
        journal, checksum, recording, budget, observer
        threads := { SpawnTree.ofRoot root.raw with counterparts } } := by
  obtain ⟨counterparts, journal, recorded, hm⟩ := matchRecorded_eq
    { memory := past.memory.enforce recording
      book := past.book
      journal := past.journal
      checksum, recording, budget, observer
      threads := .ofRoot root.raw } (SpawnTree.ofRoot root.raw).rootId
  refine ⟨counterparts, journal, recorded, ?_⟩
  unfold start
  dsimp only
  rw [hm]
  rfl

/-! ## Calls that touch no thread -/

/-- An object that is created only gets its number, and that is said. -/
theorem Engine.objectCreated_eq (e : Engine) (object : AnnouncedObject) :
    ∃ objects journal, e.objectCreated object = { e with objects, journal } := by
  unfold objectCreated
  split
  · exact ⟨_, _, rfl⟩
  · exact ⟨e.objects, e.journal, rfl⟩

/-- Nothing but what is said comes of waiting for open accesses. -/
theorem Engine.settle_eq (e : Engine) (timeout : Duration) :
    ∃ journal, (e.settle timeout).1 = { e with journal } := by
  unfold settle
  split
  · exact ⟨e.journal, rfl⟩
  · exact ⟨_, rfl⟩

/-! ## Replays -/

/-- A replay under way: its engine, and the contexts handed out so far. -/
structure Replay where
  engine : Engine
  contexts : List Participant

/-- A call on a replay.  Contexts are named by the order in which they were handed out. -/
inductive Call where
  | objectCreated (object : AnnouncedObject)
  | threadStarted (parent : Nat) (child : AnnouncedThread)
  | rootContext
  /-- A context that the replay does not know. -/
  | detached (thread : AnnouncedThread)
  | hook (context : Nat) (hook : Hook)
  | stopChecking

namespace Replay

/-- A replay that has just begun. -/
def opening (past : Archive) (recording : Recording) (checksum : UInt32) (root : AnnouncedThread)
    (budget : Budget) (observer : Option Observer) : Replay :=
  ⟨Engine.start past recording checksum root budget observer, []⟩

/-- What a call does.  A call on a context that was not handed out does nothing. -/
def perform (s : Replay) : Call → Replay
  | .objectCreated object => { s with engine := s.engine.objectCreated object }
  | .threadStarted i child =>
    match s.contexts[i]? with
    | none => s
    | some parent =>
      let (engine, p) := s.engine.threadStarted parent.live.raw child
      ⟨engine, s.contexts ++ [p]⟩
  | .rootContext => { s with contexts := s.contexts ++ [s.engine.rootParticipant] }
  | .detached thread => { s with contexts := s.contexts ++ [.detached thread] }
  | .hook i hook =>
    match s.contexts[i]? with
    | none => s
    | some p =>
      let (engine, p) := s.engine.call p hook
      ⟨engine, s.contexts.set i p⟩
  | .stopChecking => { s with engine := s.engine.stopChecking }

/-- What several calls do, one after the other. -/
def performAll (s : Replay) (calls : List Call) : Replay := calls.foldl perform s

/-- The access that is open on a context. -/
def openOn (s : Replay) (i : Nat) : List OpenAccess :=
  (s.contexts[i]?.bind Participant.pending).toList

/-- Accesses, each with its context. -/
abbrev Log := List (Nat × OpenAccess)

/-- What a call finishes: a hook finishes the access that its context has open. -/
def finishedBy (s : Replay) : Call → Log
  | .hook i _ => (s.openOn i).map (i, ·)
  | _ => []

/-- What a call lets through: the access that its context has open when it is over. -/
def admittedBy (s : Replay) : Call → Log
  | .hook i hook => ((s.perform (.hook i hook)).openOn i).map (i, ·)
  | _ => []

/-- The accesses that calls finish, in order. -/
def finished (s : Replay) : List Call → Log
  | [] => []
  | call :: calls => s.finishedBy call ++ (s.perform call).finished calls

/-- The accesses that calls let through, in order. -/
def admitted (s : Replay) : List Call → Log
  | [] => []
  | call :: calls => s.admittedBy call ++ (s.perform call).admitted calls

/-- The accesses of a log whose contexts satisfy `P`. -/
def accessesOf (log : Log) (P : Nat → Prop) [DecidablePred P] : List OpenAccess :=
  (log.filter (P ·.1)).map Prod.snd

/-- Does the context add to the history that is filed there? -/
abbrev FilesUnder (s : Replay) (ref : HistoryRef) (i : Nat) : Prop :=
  s.contexts[i]?.map Participant.history = some (.filed ref)

variable {s : Replay} {adm fin : Log} {call : Call} {calls : List Call} {i : Nat}
  {p p' : Participant} {e' : Engine}

theorem performAll_concat : s.performAll (calls ++ [call]) = (s.performAll calls).perform call := by
  simp [performAll]

theorem performAll_append (calls' : List Call) :
    s.performAll (calls ++ calls') = (s.performAll calls).performAll calls' := by
  simp [performAll]

theorem finished_concat :
    s.finished (calls ++ [call]) = s.finished calls ++ (s.performAll calls).finishedBy call := by
  induction calls generalizing s with
  | nil => simp [finished, performAll]
  | cons c calls ih => simp [finished, performAll, ih]

theorem admitted_concat :
    s.admitted (calls ++ [call]) = s.admitted calls ++ (s.performAll calls).admittedBy call := by
  induction calls generalizing s with
  | nil => simp [admitted, performAll]
  | cons c calls ih => simp [admitted, performAll, ih]

theorem openOn_of_getElem? (h : s.contexts[i]? = some p) : s.openOn i = p.pending.toList := by
  simp [openOn, h]

theorem perform_hook (h : s.contexts[i]? = some p) (hook : Hook) :
    s.perform (.hook i hook) =
      ⟨(s.engine.call p hook).1, s.contexts.set i (s.engine.call p hook).2⟩ := by
  simp [perform, h]

/-! ## Parts of calls -/

/-- The engine changed in nothing that is recorded of accesses. -/
structure SameRecords (e e' : Engine) : Prop where
  memory : e'.memory = e.memory
  book : e'.book = e.book
  threads : e'.threads = e.threads
  reported : e'.reported = e.reported
  divergences : e'.divergences = e.divergences
  observer : e'.observer = e.observer

/-- A context was handed out: the engine may know one more thread, whose history is blank,
and the context adds to a history of this replay or to a blank one of its own. -/
structure HandsOut (e e' : Engine) (p : Participant) : Prop where
  memory : e'.memory = e.memory
  reported : e'.reported = e.reported
  divergences : e'.divergences = e.divergences
  observer : e'.observer = e.observer
  root : e'.threads.root = e.threads.root
  keyed : e'.threads.Keyed
  book : ∀ ref : HistoryRef, e'.book[ref]? = e.book[ref]? ∨
    (e.book[ref]? = none ∧ ref.edition = e.memory.edition ∧
      ∃ h : History, e'.book[ref]? = some h ∧ h.Blank ∧ h.thread.raw = ref.thread)
  pending : p.pending = none
  history : (∃ h, p.history = .own h ∧ h.Blank) ∨
    ∃ ref h, p.history = .filed ref ∧ ref.edition = e.memory.edition ∧ e'.book[ref]? = some h

theorem HandsOut.keeps {e : Engine} {ref : HistoryRef} {h : History} (hh : HandsOut e e' p)
    (hb : e.book[ref]? = some h) : e'.book[ref]? = some h := by
  rcases hh.book ref with hsame | ⟨hnone, -⟩
  · rw [hsame, hb]
  · rw [hnone] at hb
    cases hb

/-- What is true of a replay whatever calls were made. -/
structure WellFormed (s : Replay) : Prop where
  keyed : s.engine.threads.Keyed
  root : ∃ h, s.engine.book[s.engine.historyRef s.engine.threads.root]? = some h
  registered : ∀ (i : Nat) (p : Participant) (ref : HistoryRef), s.contexts[i]? = some p →
    p.history = .filed ref →
    ref.edition = s.engine.memory.edition ∧ ∃ h, s.engine.book[ref]? = some h
  raw_eq : ∀ (ref : HistoryRef) (h : History), s.engine.book[ref]? = some h →
    ref.edition = s.engine.memory.edition → h.thread.raw = ref.thread
  bounded : s.engine.toArchive.Bounded

namespace WellFormed

theorem sameRecords (hw : s.WellFormed) (h : SameRecords s.engine e') :
    WellFormed { s with engine := e' } where
  keyed := by
    rw [h.threads]
    exact hw.keyed
  root := by
    simp only [Engine.historyRef, h.book, h.memory, h.threads]
    exact hw.root
  registered i p ref hi hp := by
    rw [h.memory, h.book]
    exact hw.registered i p ref hi hp
  raw_eq ref h' := by
    rw [h.memory, h.book]
    exact hw.raw_eq ref h'
  bounded := ⟨by rw [h.memory, h.book]; exact hw.bounded.book,
    by rw [h.memory]; exact hw.bounded.memory⟩

theorem handsOut (hw : s.WellFormed) (h : HandsOut s.engine e' p) :
    WellFormed ⟨e', s.contexts ++ [p]⟩ where
  keyed := h.keyed
  root := by
    obtain ⟨old, hold⟩ := hw.root
    exact ⟨old, by simpa only [Engine.historyRef, h.memory, h.root] using h.keeps hold⟩
  registered i q ref hi hq := by
    rw [List.getElem?_append] at hi
    split at hi
    · obtain ⟨he, old, hold⟩ := hw.registered i q ref hi hq
      exact ⟨he.trans (by rw [h.memory]), old, h.keeps hold⟩
    · obtain rfl : p = q := by
        have := List.getElem?_eq_some_iff.mp hi
        simp at this
        exact this.2
      rcases h.history with ⟨own, hown, -⟩ | ⟨ref', hist, href, he, hb⟩
      · rw [hq] at hown
        cases hown
      · obtain rfl : ref' = ref := HistoryPlace.filed.inj (href.symm.trans hq)
        exact ⟨he.trans (by rw [h.memory]), hist, hb⟩
  raw_eq ref hist hb he := by
    rw [h.memory] at he
    rcases h.book ref with hsame | ⟨-, -, new, hnew, -, hraw⟩
    · exact hw.raw_eq ref hist (hsame.symm.trans hb) he
    · obtain rfl := Option.some.inj (hnew.symm.trans hb)
      exact hraw
  bounded := by
    refine ⟨fun ref hist hb => ?_, by rw [h.memory]; exact hw.bounded.memory⟩
    rw [h.memory]
    rcases h.book ref with hsame | ⟨-, he, -⟩
    · exact hw.bounded.book ref hist (hsame.symm.trans hb)
    · exact Nat.le_of_eq he

/-- A context's turn: its history stays where it is, and the book's threads stay. -/
theorem set (hw : s.WellFormed) (hi : s.contexts[i]? = some p)
    (hs : e'.setting = s.engine.setting) (he : e'.memory.edition = s.engine.memory.edition)
    (hm : e'.memory.Bounded)
    (hb : ∀ ref : HistoryRef,
      e'.book[ref]?.map History.thread = s.engine.book[ref]?.map History.thread)
    (hp : ∀ ref, p'.history = .filed ref → p.history = .filed ref) :
    WellFormed ⟨e', s.contexts.set i p'⟩ := by
  have hthreads : e'.threads = s.engine.threads := congrArg Engine.Setting.threads hs
  have hkeep : ∀ (ref : HistoryRef) old, s.engine.book[ref]? = some old →
      ∃ new, e'.book[ref]? = some new := by
    intro ref old hold
    have h := hb ref
    rw [hold] at h
    obtain ⟨new, hnew, -⟩ := Option.map_eq_some_iff.mp h
    exact ⟨new, hnew⟩
  have hback : ∀ (ref : HistoryRef) (new : History), e'.book[ref]? = some new →
      ∃ old, s.engine.book[ref]? = some old ∧ old.thread = new.thread := by
    intro ref new hnew
    have h := hb ref
    rw [hnew] at h
    exact Option.map_eq_some_iff.mp h.symm
  refine ⟨by rw [hthreads]; exact hw.keyed, ?_, ?_, ?_, ⟨?_, hm⟩⟩
  · obtain ⟨old, hold⟩ := hw.root
    simp only [Engine.historyRef, he, hthreads]
    exact hkeep _ old hold
  · intro j q ref hj hq
    rw [List.getElem?_set] at hj
    have hfiled : ∃ (j : Nat) (q : Participant),
        s.contexts[j]? = some q ∧ q.history = .filed ref := by
      split at hj
      · split at hj
        · obtain rfl := Option.some.inj hj
          exact ⟨i, p, hi, hp ref hq⟩
        · cases hj
      · exact ⟨j, q, hj, hq⟩
    obtain ⟨j, q, hj, hq⟩ := hfiled
    obtain ⟨hed, old, hold⟩ := hw.registered j q ref hj hq
    exact ⟨hed.trans he.symm, hkeep ref old hold⟩
  · intro ref new hnew hed
    obtain ⟨old, hold, heq⟩ := hback ref new hnew
    rw [← heq]
    exact hw.raw_eq ref old hold (hed.trans he)
  · intro ref new hnew
    obtain ⟨old, hold, -⟩ := hback ref new hnew
    exact he ▸ hw.bounded.book ref old hold

theorem concluded {a : OpenAccess} (hw : s.WellFormed) (hi : s.contexts[i]? = some p)
    (h : Engine.Concluded s.engine { p with pending := none } a e' p') :
    WellFormed ⟨e', s.contexts.set i p'⟩ := by
  refine hw.set hi h.setting (by rw [h.memory, LiveMemory.edition_commit])
    (by rw [h.memory]; exact hw.bounded.memory.commit a) (fun ref => ?_)
    fun ref hp => h.filed_iff.mp hp
  rw [h.book]
  exact HistoryPlace.map_change fun _ => rfl

theorem decided {r : Request} (hw : s.WellFormed) (hi : s.contexts[i]? = some p)
    (h : Engine.Decided s.engine p r e' p') : WellFormed ⟨e', s.contexts.set i p'⟩ :=
  hw.set hi h.setting h.edition (h.bounded hw.bounded.memory)
    (fun ref => h.map_book ref fun _ => rfl) fun _ hp => h.filed_iff.mp hp

end WellFormed

/-- A property of what was let through, of what was finished, and of the replay, which every
part of a call keeps. -/
structure Kept (I : Log → Log → Replay → Prop) : Prop where
  sameRecords : ∀ {adm fin s e'}, WellFormed s → I adm fin s → SameRecords s.engine e' →
    I adm fin { s with engine := e' }
  handsOut : ∀ {adm fin s e' p}, WellFormed s → I adm fin s → HandsOut s.engine e' p →
    I adm fin ⟨e', s.contexts ++ [p]⟩
  /-- The open access of a context is finished. -/
  concluded : ∀ {adm fin s i p a e' p'}, WellFormed s → I adm fin s →
    s.contexts[i]? = some p → p.pending = some a →
    Engine.Concluded s.engine { p with pending := none } a e' p' →
    I adm (fin ++ [(i, a)]) ⟨e', s.contexts.set i p'⟩
  /-- It is decided on a new access of a context. -/
  decided : ∀ {adm fin s i p r e' p'}, WellFormed s → I adm fin s →
    s.contexts[i]? = some p → p.pending = none → Engine.Decided s.engine p r e' p' →
    I (adm ++ p'.pending.toList.map (i, ·)) fin ⟨e', s.contexts.set i p'⟩

/-! ## Calls and their parts -/

theorem sameRecords_objectCreated (e : Engine) (object : AnnouncedObject) :
    SameRecords e (e.objectCreated object) := by
  obtain ⟨objects, journal, h⟩ := e.objectCreated_eq object
  rw [h]
  exact ⟨rfl, rfl, rfl, rfl, rfl, rfl⟩

theorem sameRecords_stopChecking (e : Engine) : SameRecords e e.stopChecking :=
  ⟨rfl, rfl, rfl, rfl, rfl, rfl⟩

/-- A context without a history in the book. -/
theorem handsOut_detached (e : Engine) (hk : e.threads.Keyed) (thread : AnnouncedThread) :
    HandsOut e e (.detached thread) where
  memory := rfl
  reported := rfl
  divergences := rfl
  observer := rfl
  root := rfl
  keyed := hk
  book _ := .inl rfl
  pending := rfl
  history := .inl ⟨_, rfl, rfl, rfl⟩

theorem WellFormed.handsOut_root (hw : s.WellFormed) :
    HandsOut s.engine s.engine s.engine.rootParticipant where
  memory := rfl
  reported := rfl
  divergences := rfl
  observer := rfl
  root := rfl
  keyed := hw.keyed
  book _ := .inl rfl
  pending := rfl
  history := by
    obtain ⟨h, hb⟩ := hw.root
    refine .inr ⟨_, h, rfl, rfl, ?_⟩
    rw [hw.keyed.raw_rootId]
    exact hb

theorem handsOut_threadStarted {e : Engine} (hk : e.threads.Keyed) (parent : RuntimeId)
    (child : AnnouncedThread) :
    HandsOut e (e.threadStarted parent child).1 (e.threadStarted parent child).2 := by
  obtain ⟨counterparts, journal, recorded, h⟩ := e.threadStarted_eq parent child
  rw [h]
  have hk' := hk.start parent child.raw
  refine ⟨rfl, rfl, rfl, rfl, SpawnTree.root_start, ⟨hk'.root_known, hk'.raw_eq⟩, fun ref => ?_,
    rfl, .inr ⟨_, _, rfl, rfl, by rw [HistoryBook.getElem?_opened, if_pos rfl]⟩⟩
  rw [HistoryBook.getElem?_opened]
  split
  · next he =>
    subst he
    cases hb : e.book[e.historyRef child.raw]? with
    | none => exact .inr ⟨rfl, rfl, _, rfl, ⟨rfl, rfl⟩, rfl⟩
    | some old => exact .inl rfl
  · exact .inl rfl

theorem openOn_perform_hook (h : s.contexts[i]? = some p) (hook : Hook) :
    (s.perform (.hook i hook)).openOn i = (s.engine.call p hook).2.pending.toList := by
  rw [perform_hook h]
  exact openOn_of_getElem? (List.getElem?_set_self (List.getElem?_eq_some_iff.mp h).1)

namespace Kept

variable {I : Log → Log → Replay → Prop}

/-- A hook is made of at most two parts. -/
theorem hook (hI : Kept I) (hw : s.WellFormed) (h : I adm fin s) (hi : s.contexts[i]? = some p)
    (hook : Hook) :
    I (adm ++ (s.engine.call p hook).2.pending.toList.map (i, ·))
      (fin ++ p.pending.toList.map (i, ·)) (s.perform (.hook i hook)) := by
  rw [perform_hook hi]
  cases hook with
  | before r =>
    cases hp : p.pending with
    | none => simpa [Engine.before] using hI.decided hw h hi hp (Engine.before_of_idle hp r)
    | some a =>
      -- between its two parts, the context stands in the replay with nothing open
      obtain ⟨e₁, p₁, hc, hd⟩ := Engine.before_of_open (e := s.engine) hp r
      have hi₁ : (s.contexts.set i p₁)[i]? = some p₁ :=
        List.getElem?_set_self (List.getElem?_eq_some_iff.mp hi).1
      have h₂ := hI.decided (hw.concluded hi hc) (hI.concluded hw h hi hp hc) hi₁ hc.pending hd
      rwa [List.set_set] at h₂
  | after kind =>
    cases hp : p.pending with
    | none =>
      have hidle : s.engine.call p (.after kind) = (s.engine, p) := Engine.after_of_idle hp kind
      have hsame : s.contexts.set i p = s.contexts := by
        obtain ⟨hlt, rfl⟩ := List.getElem?_eq_some_iff.mp hi
        exact List.set_getElem_self hlt
      rw [hidle, hsame, hp]
      simpa using h
    | some a =>
      have hc := Engine.after_of_open (e := s.engine) hp kind
      have hnone : (s.engine.call p (.after kind)).2.pending = none := hc.pending
      rw [hnone]
      simpa [Engine.after] using hI.concluded hw h hi hp hc

/-- **What every part of a call keeps, a call keeps.** -/
theorem perform (hI : Kept I) (hw : s.WellFormed) (h : I adm fin s) (call : Call) :
    I (adm ++ s.admittedBy call) (fin ++ s.finishedBy call) (s.perform call) := by
  cases call with
  | objectCreated object =>
    simpa [admittedBy, finishedBy, Replay.perform] using
      hI.sameRecords hw h (sameRecords_objectCreated s.engine object)
  | stopChecking =>
    simpa [admittedBy, finishedBy, Replay.perform] using
      hI.sameRecords hw h (sameRecords_stopChecking s.engine)
  | rootContext =>
    simpa [admittedBy, finishedBy, Replay.perform] using hI.handsOut hw h hw.handsOut_root
  | detached thread =>
    simpa [admittedBy, finishedBy, Replay.perform] using
      hI.handsOut hw h (handsOut_detached s.engine hw.keyed thread)
  | threadStarted i child =>
    cases hi : s.contexts[i]? with
    | none => simpa [admittedBy, finishedBy, Replay.perform, hi] using h
    | some parent =>
      simpa [admittedBy, finishedBy, Replay.perform, hi] using
        hI.handsOut hw h (handsOut_threadStarted hw.keyed parent.live.raw child)
  | hook i hook =>
    cases hi : s.contexts[i]? with
    | none => simpa [admittedBy, finishedBy, Replay.perform, openOn, hi] using h
    | some p =>
      rw [admittedBy, finishedBy, openOn_perform_hook hi, openOn_of_getElem? hi]
      exact hI.hook hw h hi hook

theorem wellFormed : Kept fun _ _ s => s.WellFormed where
  sameRecords hw _ h := hw.sameRecords h
  handsOut hw _ h := hw.handsOut h
  concluded hw _ hi _ h := hw.concluded hi h
  decided hw _ hi _ h := hw.decided hi h

/-- **What every part of a call keeps, a whole run keeps.** -/
theorem performAll (hI : Kept I) (hw : s.WellFormed) (h : I [] [] s) (calls : List Call) :
    (s.performAll calls).WellFormed ∧
      I (s.admitted calls) (s.finished calls) (s.performAll calls) := by
  induction calls using List.reverseRecOn with
  | nil => exact ⟨hw, h⟩
  | append_singleton calls call ih =>
    rw [performAll_concat, admitted_concat, finished_concat]
    have hwf := @perform _ [] [] _ wellFormed ih.1 ih.1 call
    exact ⟨hwf, hI.perform ih.1 ih.2 call⟩

end Kept

/-! ## The beginning -/

variable {past : Archive} {recording : Recording} {checksum : UInt32} {root : AnnouncedThread}
  {budget : Budget} {observer : Option Observer}

/-- In a new edition there are only blank histories. -/
theorem blank_start (hpast : past.Bounded) (href : ref.edition = past.memory.edition + 1)
    (hb : (Engine.start past recording checksum root budget observer).book[ref]? = some h) :
    h.Blank ∧ h.thread.raw = ref.thread := by
  obtain ⟨counterparts, journal, recorded, hstart⟩ :=
    Engine.start_eq past recording checksum root budget observer
  -- all that is left of the past belongs to earlier editions
  have hnew : past.book[ref]? = none := by
    cases hold : past.book[ref]? with
    | none => rfl
    | some old => exact absurd (hpast.book ref old hold) (by omega)
  rw [hstart, HistoryBook.getElem?_opened] at hb
  split at hb
  · next heq =>
    subst heq
    rw [hnew] at hb
    cases hb
    exact ⟨⟨rfl, rfl⟩, rfl⟩
  · rw [hnew] at hb
    cases hb

theorem edition_start : (Engine.start past recording checksum root budget observer).memory.edition =
    past.memory.edition + 1 := by
  obtain ⟨counterparts, journal, recorded, hstart⟩ :=
    Engine.start_eq past recording checksum root budget observer
  rw [hstart]
  rfl

theorem observer_start :
    (Engine.start past recording checksum root budget observer).observer = observer := by
  obtain ⟨counterparts, journal, recorded, hstart⟩ :=
    Engine.start_eq past recording checksum root budget observer
  rw [hstart]

theorem inFlight_start :
    (Engine.start past recording checksum root budget observer).inFlight = 0 := by
  obtain ⟨counterparts, journal, recorded, hstart⟩ :=
    Engine.start_eq past recording checksum root budget observer
  rw [hstart]

theorem bounded_start (hpast : past.Bounded) :
    (Engine.start past recording checksum root budget observer).toArchive.Bounded := by
  obtain ⟨counterparts, journal, recorded, hstart⟩ :=
    Engine.start_eq past recording checksum root budget observer
  rw [hstart]
  refine ⟨fun ref h hb => ?_, fun ref l hl => Nat.le_succ_of_le (hpast.memory ref l hl)⟩
  rw [HistoryBook.getElem?_opened] at hb
  split at hb
  · next he =>
    subst he
    exact Nat.le_refl _
  · exact Nat.le_succ_of_le (hpast.book ref h hb)

theorem wellFormed_opening (hpast : past.Bounded) :
    (opening past recording checksum root budget observer).WellFormed where
  keyed := by
    obtain ⟨counterparts, journal, recorded, hstart⟩ :=
      Engine.start_eq past recording checksum root budget observer
    have hroot := SpawnTree.keyed_ofRoot root.raw
    rw [opening, hstart]
    exact ⟨hroot.root_known, hroot.raw_eq⟩
  root := by
    obtain ⟨counterparts, journal, recorded, hstart⟩ :=
      Engine.start_eq past recording checksum root budget observer
    rw [opening, hstart]
    exact ⟨past.book[(⟨past.memory.edition + 1, root.raw⟩ : HistoryRef)]?.getD
      { thread := root, recorded, isMain := true },
      HistoryBook.getElem?_opened.trans (if_pos rfl)⟩
  registered _ _ _ hi := absurd hi (by simp [opening])
  raw_eq ref h hb he := (blank_start hpast (he.trans edition_start) hb).2
  bounded := bounded_start hpast

/-- A recording of one thread that writes a box once. -/
def oneWrite : Recording where
  root := .root 1
  others := []
  catalogue := (∅ : Catalogue).insert "Box" ((∅ : Std.ExtTreeSet String).insert "value")
  accesses := (∅ : AccessLedger).insert ⟨⟨0⟩, "value"⟩ ⟨"Box", [⟨1, .write, none⟩]⟩

/-- The replay of `oneWrite` when it begins. -/
def oneWriteReplay : Replay :=
  opening {} oneWrite 0 ⟨7, "main"⟩ { maxRetries := 1 } (some fun _ => true)

end Replay
end AccessReplay
