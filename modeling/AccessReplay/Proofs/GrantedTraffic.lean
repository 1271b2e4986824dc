import AccessReplay.Proofs.LiveThreads
import AccessReplay.Proofs.OpenAccesses
import AccessReplay.Proofs.RecordedLocations
import AccessReplay.Proofs.Shutdown
import Mathlib.Data.List.Infix

/-!
# What traffic is granted

Several threads may act as one recorded thread at the same time, as those without a counterpart
act as the recorded root.  Whoever they are and in whatever order they move, each location takes
turns that its account allows (`course_run`).  So a recorded write is granted at most once.  A
recorded read is, as long as no two threads that act as its thread read the location at the same
time; of `n + 1` that do, `n` may be granted a read that was not recorded.
-/
namespace AccessReplay
namespace Traffic

open Replay (Log accessesOf)

variable {t t' : Traffic} {adm fin : Log} {i : Nat} {c c' : Caller} {p : Participant}
  {e' : Engine} {move : Move} {moves : List Move} {r : Recording} {ref : LocationRef}
  {l' : Location} {com : List OpenAccess}

/-- The accesses that are open. -/
def opened (t : Traffic) : List OpenAccess := t.callers.flatMap Caller.opened

/-- What a move commits. -/
def committedBy (t : Traffic) : Move → Log
  | .step i => (t.callers[i]?).elim [] fun c => c.commits.map (i, ·)
  | _ => []

/-- What moves commit, in order. -/
def committed (t : Traffic) : List Move → Log
  | [] => []
  | move :: moves => t.committedBy move ++ (t.perform move).committed moves

theorem committed_concat :
    t.committed (moves ++ [move]) = t.committed moves ++ (t.run moves).committedBy move := by
  induction moves generalizing t with
  | nil => simp [committed, run]
  | cons m moves ih => simp [committed, run, ih]

theorem opened_append (hp : p.pending = none) (e' : Engine) :
    opened { t with engine := e', callers := t.callers ++ [⟨p, .outside⟩] } = t.opened := by
  simp [opened, hp]

/-- When a caller is replaced, its open accesses are. -/
theorem opened_set (h : t.callers[i]? = some c) (e' : Engine) (c' : Caller) :
    (opened { t with engine := e', callers := t.callers.set i c' } ++ c.opened).Perm
      (t.opened ++ c'.opened) := by
  unfold opened
  dsimp only
  generalize t.callers = callers at h
  -- the induction goes down the callers to the one that is replaced
  induction callers generalizing i with
  | nil => simp at h
  | cons d callers ih =>
    rw [List.perm_iff_count]
    intro a
    cases i with
    | zero =>
      obtain rfl : d = c := by simpa using h
      simp only [List.set_cons_zero, List.flatMap_cons, List.count_append]
      omega
    | succ i =>
      have hrest := (ih (i := i) (by simpa using h)).count_eq a
      rw [List.count_append, List.count_append] at hrest
      simp only [List.set_cons_succ, List.flatMap_cons, List.count_append]
      omega

/-! ## What a move does to open accesses -/

/-- A move that lets nothing through and commits nothing. -/
structure Idle (t t' : Traffic) : Prop where
  memory : t'.engine.memory = t.engine.memory
  recording : t'.engine.recording = t.engine.recording
  opened : t'.opened.Perm t.opened
  engaged : ∀ c' ∈ t'.callers, ∀ x ∈ c'.engagements,
    ∃ c ∈ t.callers, c.who = c'.who ∧ x ∈ c.engagements

theorem Idle.ofEngine (e' : Engine) (hm : e'.memory = t.engine.memory)
    (hr : e'.recording = t.engine.recording) (closing : Closing) :
    Idle t { t with engine := e', closing } :=
  ⟨hm, hr, .rfl, fun c hc _ hx => ⟨c, hc, rfl, hx⟩⟩

theorem Idle.handsOut (hm : e'.memory = t.engine.memory) (hr : e'.recording = t.engine.recording)
    (hp : p.pending = none) :
    Idle t { t with engine := e', callers := t.callers ++ [⟨p, .outside⟩] } := by
  refine ⟨hm, hr, .of_eq (opened_append hp e'), fun c hc x hx => ?_⟩
  rcases List.mem_append.mp hc with hc | hc
  · exact ⟨c, hc, rfl, hx⟩
  · rw [List.mem_singleton.mp hc] at hx
    simp [Caller.engagements, Stage.inquiry?, hp] at hx

theorem Idle.enter (hi : t.callers[i]? = some c) (hout : c.stage = .outside) (hook : Hook) :
    Idle t { t with callers := t.callers.set i ⟨c.who, .entry hook⟩ } := by
  obtain ⟨p, stage⟩ := c
  obtain rfl : stage = .outside := hout
  refine ⟨rfl, rfl, ?_, fun c hc x hx => ?_⟩
  · have hset := opened_set hi t.engine ⟨p, .entry hook⟩
    rw [Caller.opened_entry, Caller.opened_outside] at hset
    exact (List.perm_append_right_iff _).mp hset
  · rcases List.mem_or_eq_of_mem_set hc with hc | rfl
    · exact ⟨c, hc, rfl, hx⟩
    · rw [Caller.engagements_entry] at hx
      exact ⟨_, List.mem_of_getElem? hi, rfl, hx⟩

/-- What a move lets through, what it commits, and what it leads to. -/
inductive Acted (t : Traffic) : Log → Log → Traffic → Prop
  | idle {t' : Traffic} : Idle t t' → Acted t [] [] t'
  | step {i : Nat} {c : Caller} : t.callers[i]? = some c → c.stage ≠ .outside →
      Acted t ((t.engine.step c).2.admitted.map (i, ·)) (c.commits.map (i, ·))
        { t with engine := (t.engine.step c).1, callers := t.callers.set i (t.engine.step c).2 }

theorem idle_close (timeout : Duration) : Idle t (t.perform (.close timeout)) := by
  simp only [perform]
  split
  · exact .ofEngine t.engine.stopChecking rfl rfl _
  · obtain ⟨journal, hsettle⟩ := t.engine.settle_eq timeout
    rw [hsettle]
    exact .ofEngine { t.engine with journal } rfl rfl _
  · exact .ofEngine _ rfl rfl _
  · exact .ofEngine _ rfl rfl t.closing

/-- **What a move does to open accesses.** -/
theorem acted (hw : t.toReplay.WellFormed) (move : Move) :
    Acted t (t.admittedBy move) (t.committedBy move) (t.perform move) := by
  cases move with
  | objectCreated object =>
    obtain ⟨objects, journal, hobject⟩ := t.engine.objectCreated_eq object
    rw [perform, hobject]
    exact .idle (.ofEngine { t.engine with objects, journal } rfl rfl t.closing)
  | close timeout => exact .idle (idle_close timeout)
  | rootContext => exact .idle (.handsOut rfl rfl rfl)
  | detached thread => exact .idle (.handsOut rfl rfl rfl)
  | threadStarted i child =>
    simp only [perform]
    split
    · exact .idle (.ofEngine _ rfl rfl t.closing)
    · next parent hi =>
      have hs := Replay.handsOut_threadStarted hw.keyed parent.who.live.raw child
      exact .idle (.handsOut hs.memory (t.engine.recording_threadStarted ..) hs.pending)
  | enter i hook =>
    simp only [perform]
    split
    · exact .idle (.ofEngine _ rfl rfl t.closing)
    · next c hi =>
      split
      · next hout => exact .idle (.enter hi hout hook)
      · exact .idle (.ofEngine _ rfl rfl t.closing)
  | step i =>
    cases hi : t.callers[i]? with
    | none =>
      simp only [perform, admittedBy, committedBy, hi]
      exact .idle (.ofEngine _ rfl rfl t.closing)
    | some c =>
      by_cases hout : c.stage = .outside
      · have hcommits : c.commits = [] := by simp [Caller.commits, hout]
        simp only [perform, admittedBy, committedBy, hi, hout, if_true, Option.elim_some, hcommits]
        exact .idle (.ofEngine _ rfl rfl t.closing)
      · simp only [perform, admittedBy, committedBy, hi, hout, if_false]
        exact .step hi hout

/-! ## The tally -/

/-- What was let through is committed or open; and all that threads access is done as the
recorded threads that they replay, at locations that there are. -/
structure Tallied (r : Recording) (adm com : Log) (t : Traffic) : Prop where
  recording : t.engine.recording = r
  schedules : t.engine.memory.schedules = LiveMemory.schedulesOf r.accesses
  tally : (com.map Prod.snd ++ t.opened).Perm (adm.map Prod.snd)
  engaged : ∀ c ∈ t.callers, ∀ x ∈ c.engagements,
    x.2 = t.engine.actsAs c.who ∧ ∃ l, t.engine.memory.find? x.1 = some l
  committed : ∀ x ∈ com, ∃ l, t.engine.memory.find? x.2.location = some l

namespace Tallied

variable {com : Log}

/-- Nothing was granted at a location that is not there. -/
theorem grantsAt_eq_nil (h : Tallied r adm com t) (hnone : t.engine.memory.find? ref = none) :
    grantsAt ref (com.map Prod.snd) = [] ∧ grantsAt ref t.opened = [] := by
  constructor
  · apply AccessReplay.grantsAt_eq_nil
    rintro a ha rfl
    obtain ⟨x, hx, rfl⟩ := List.mem_map.mp ha
    obtain ⟨l, hl⟩ := h.committed x hx
    rw [hnone] at hl
    cases hl
  · apply AccessReplay.grantsAt_eq_nil
    rintro a ha rfl
    obtain ⟨c, hc, hopen⟩ := List.mem_flatMap.mp ha
    obtain ⟨-, l, hl⟩ := h.engaged c hc _ (Caller.mem_engagements_of_opened hopen)
    rw [hnone] at hl
    cases hl

theorem idle (h : Tallied r adm com t) (hs : Idle t t') : Tallied r adm com t' where
  recording := hs.recording.trans h.recording
  schedules := by
    rw [hs.memory]
    exact h.schedules
  tally := (hs.opened.append_left _).trans h.tally
  engaged c' hc' x hx := by
    obtain ⟨c, hc, hwho, hx⟩ := hs.engaged c' hc' x hx
    rw [hs.memory, Engine.actsAs, hs.recording, ← hwho]
    exact h.engaged c hc x hx
  committed := by
    rw [hs.memory]
    exact h.committed

/-- What is open is what was, with what is let through and without what is committed. -/
theorem opened_perm (hproper : c.Proper) (hi : t.callers[i]? = some c)
    (hin : c.stage ≠ .outside) :
    (opened { t with
        engine := (t.engine.step c).1, callers := t.callers.set i (t.engine.step c).2 } ++
      c.commits).Perm (t.opened ++ (t.engine.step c).2.admitted) := by
  have hset := opened_set hi (t.engine.step c).1 (t.engine.step c).2
  have hstep := t.engine.opened_step hproper hin
  rw [List.perm_iff_count]
  intro a
  have hold := hset.count_eq a
  have hnew := congrArg (List.count a) hstep
  simp only [List.count_append] at hold hnew ⊢
  omega

theorem step (h : Tallied r adm com t) (hproper : c.Proper) (hi : t.callers[i]? = some c)
    (hin : c.stage ≠ .outside) :
    Tallied r (adm ++ (t.engine.step c).2.admitted.map (i, ·)) (com ++ c.commits.map (i, ·))
      { t with
        engine := (t.engine.step c).1, callers := t.callers.set i (t.engine.step c).2 } := by
  have heffect := Engine.effect_step t.engine c
  have hrecording : (t.engine.step c).1.recording = t.engine.recording :=
    congrArg Engine.Setting.recording heffect.setting
  have hacts : ∀ d d' : Caller, d'.who.recorded = d.who.recorded →
      (t.engine.step c).1.actsAs d'.who = t.engine.actsAs d.who := by
    intro d d' hd
    rw [Engine.actsAs, Engine.actsAs, hd, hrecording]
  have hstays : ∀ ref l, t.engine.memory.find? ref = some l →
      ∃ l', (t.engine.step c).1.memory.find? ref = some l' := by
    intro ref l hl
    rw [heffect.memory, Engine.find?_memoryNext hl]
    exact ⟨_, rfl⟩
  have hmem := List.mem_of_getElem? hi
  refine ⟨hrecording.trans h.recording, ?_, ?_, fun d hd x hx => ?_, fun x hx => ?_⟩
  · rw [heffect.memory, Engine.schedules_memoryNext]
    exact h.schedules
  · have hopened := opened_perm hproper hi hin
    have hold := h.tally
    simp only [List.map_append, List.map_map, Function.comp_def, List.map_id']
    rw [List.perm_iff_count] at hopened hold ⊢
    intro a
    have hopened := hopened a
    have hold := hold a
    simp only [List.count_append] at hopened hold ⊢
    omega
  · rcases List.mem_or_eq_of_mem_set hd with hd | rfl
    · obtain ⟨hthread, l, hl⟩ := h.engaged d hd x hx
      exact ⟨hthread.trans (hacts d d rfl).symm, hstays _ l hl⟩
    · rcases Engine.engagement_of_step hproper hin hx with hx | ⟨hthread, hl⟩
      · obtain ⟨hthread, l, hl⟩ := h.engaged c hmem x hx
        exact ⟨hthread.trans (hacts c _ heffect.recorded).symm, hstays _ l hl⟩
      · exact ⟨hthread.trans (hacts c _ heffect.recorded).symm, hl⟩
  · rcases List.mem_append.mp hx with hx | hx
    · obtain ⟨l, hl⟩ := h.committed x hx
      exact hstays _ l hl
    · -- what is committed was open
      obtain ⟨a, ha, rfl⟩ := List.mem_map.mp hx
      have hopen := Caller.mem_opened_of_commits ha
      obtain ⟨-, l, hl⟩ := h.engaged c hmem _ (Caller.mem_engagements_of_opened hopen)
      exact hstays _ l hl

theorem perform (h : Tallied r adm com t) (hs : Sound adm fin t) (move : Move) :
    Tallied r (adm ++ t.admittedBy move) (com ++ t.committedBy move) (t.perform move) := by
  have hacted := acted hs.wellFormed move
  generalize t.admittedBy move = admitted, t.committedBy move = committed, t.perform move = t'
    at hacted ⊢
  cases hacted with
  | idle hidle => simpa using h.idle hidle
  | step hi hin => exact h.step (hs.proper _ (List.mem_of_getElem? hi)) hi hin

variable {past : Archive} {checksum : UInt32} {root : AnnouncedThread} {budget : Budget}
  {observer : Option Observer}

theorem opening : Tallied r [] [] (opening past r checksum root budget observer) where
  recording := rfl
  schedules := rfl
  tally := .nil
  engaged _ hc := absurd hc List.not_mem_nil
  committed _ hx := absurd hx List.not_mem_nil

/-- The tally is true at any time, whatever moves were made. -/
theorem run (h : Tallied r [] [] t) (hs : Sound [] [] t) (moves : List Move) :
    Tallied r (t.admitted moves) (t.committed moves) (t.run moves) := by
  induction moves using List.reverseRecOn with
  | nil => exact h
  | append_singleton moves move ih =>
    rw [run_concat, admitted_concat, committed_concat]
    exact ih.perform (hs.run moves) move

end Tallied

/-! ## The course of a location -/

/-- **Each location takes turns that its account allows**, from the time that it is made. -/
theorem course_run {P : List Access → Prop} (ht : Tallied r [] [] t) (hs : Sound [] [] t)
    (hnew : ∀ ref l, t.engine.memory.find? ref = some l → ref.edition < t.engine.memory.edition)
    {l : Location} (he : ref.edition = t.engine.memory.edition)
    (hP : ∀ moves', moves' <+: moves → P (grantsAt ref (t.run moves').opened))
    (hl : (t.run moves).engine.memory.find? ref = some l) (hd : l.isDiverged = false) :
    Location.Course (r.accesses.eventsAt ref.key) P
      (grantsAt ref ((t.committed moves).map Prod.snd)) (grantsAt ref (t.run moves).opened) l := by
  induction moves using List.reverseRecOn generalizing l with
  | nil =>
    have hlt := hnew ref l hl
    omega
  | append_singleton moves move ih =>
    have hlast := hP _ (List.prefix_refl _)
    have hbefore : ∀ moves', moves' <+: moves → P (grantsAt ref (t.run moves').opened) :=
      fun moves' hbegin => hP moves' (hbegin.trans (List.prefix_append ..))
    have htally := ht.run hs moves
    have hsound := hs.run moves
    rw [run_concat] at hl hlast ⊢
    rw [committed_concat, List.map_append, grantsAt_append]
    have hacted := acted hsound.wellFormed move
    generalize (t.run moves).admittedBy move = admitted, (t.run moves).committedBy move = committed,
      (t.run moves).perform move = t' at hacted hl hlast ⊢
    cases hacted with
    | idle hidle =>
      rw [hidle.memory] at hl
      exact .turn (ih hbefore hl hd) .kept (by simpa using grantsAt_perm ref hidle.opened) hlast
    | @step i c hi hin =>
      have hproper := hsound.proper c (List.mem_of_getElem? hi)
      have hopened := grantsAt_perm ref (Tallied.opened_perm hproper hi hin)
      rw [grantsAt_append, grantsAt_append] at hopened
      simp only [List.map_map, Function.comp_def, List.map_id']
      cases hold : (t.run moves).engine.memory.find? ref with
      | some old =>
        have hd' : old.isDiverged = false := by
          rw [(Engine.effect_step _ c).memory, Engine.find?_memoryNext hold] at hl
          obtain rfl := Option.some.inj hl
          by_contra hmarked
          rw [Engine.isDiverged_locationNext (Bool.not_eq_false _ ▸ hmarked)] at hd
          cases hd
        exact .turn (ih hbefore hold hd') (Engine.turn_step hproper hin hold hl hd) hopened hlast
      | none =>
        -- the location is made, and nothing was granted there before
        rw [(Engine.effect_step _ c).memory] at hl
        obtain ⟨⟨request, hstage⟩, schedule, hschedule, rfl⟩ := Engine.locating_of_new hold hl
        obtain ⟨hcommitted, hnone⟩ := htally.grantsAt_eq_nil hold
        have hcommits : c.commits = [] := by simp [Caller.commits, hstage]
        have hadmitted : grantsAt ref ((t.run moves).engine.step c).2.admitted = [] :=
          Engine.grantsAt_admitted_eq_nil hproper hin (by simp [hstage])
        rw [hnone, hadmitted, hcommits] at hopened
        rw [hcommitted, hcommits, (List.append_eq_nil_iff.mp hopened.eq_nil).1,
          Recording.schedulesOf_eq_some (htally.schedules ▸ hschedule)]
        exact .start

/-! ## How often a recorded access is granted -/

section Opening
variable {past : Archive} {checksum : UInt32} {root : AnnouncedThread} {budget : Budget}
  {observer : Option Observer}

/-- Each location of a replay takes its course. -/
theorem course_opening {P : List Access → Prop} (hpast : past.Bounded) {l : Location}
    (he : ref.edition = (opening past r checksum root budget observer).engine.memory.edition)
    (hP : ∀ moves', moves' <+: moves →
      P (grantsAt ref ((opening past r checksum root budget observer).run moves').opened))
    (hl : ((opening past r checksum root budget observer).run moves).engine.memory.find? ref =
      some l) (hd : l.isDiverged = false) :
    Location.Course (r.accesses.eventsAt ref.key) P
      (grantsAt ref (((opening past r checksum root budget observer).committed moves).map Prod.snd))
      (grantsAt ref ((opening past r checksum root budget observer).run moves).opened) l :=
  course_run .opening (sound_opening hpast)
    (fun ref l hl => Nat.lt_succ_of_le (hpast.memory ref l hl)) he hP hl hd

/-- **Each recorded access is granted at most once.**  Threads move in any order, and several of
them may act as one recorded thread.  At a location of the replay that is not marked diverged,
what was granted is committed or open, and of the writes of a recorded thread no more are granted
than were recorded.  So it is with its reads, if no two of them are open at the same time; if at
most `n + 1` are, at most `n` too many are granted. -/
theorem recorded_access_granted_once (hpast : past.Bounded) (moves : List Move) {l : Location}
    (he : ref.edition = (opening past r checksum root budget observer).engine.memory.edition)
    (hl : ((opening past r checksum root budget observer).run moves).engine.memory.find? ref =
      some l) (hd : l.isDiverged = false) (u : RuntimeId) :
    let s := opening past r checksum root budget observer
    let granted := grantsAt ref ((s.admitted moves).map Prod.snd)
    granted.Perm (grantsAt ref ((s.committed moves).map Prod.snd) ++
      grantsAt ref (s.run moves).opened) ∧
    granted.count ⟨u, .write⟩ ≤ (r.orderAt ref.key).count ⟨u, .write⟩ ∧
    ∀ n, (∀ moves', moves' <+: moves →
        (grantsAt ref (s.run moves').opened).count ⟨u, .read⟩ ≤ n + 1) →
      granted.count ⟨u, .read⟩ ≤ (r.orderAt ref.key).count ⟨u, .read⟩ + n := by
  intro s granted
  have htally : Tallied r (s.admitted moves) (s.committed moves) (s.run moves) :=
    Tallied.opening.run (sound_opening hpast) moves
  have hperm : granted.Perm (grantsAt ref ((s.committed moves).map Prod.snd) ++
      grantsAt ref (s.run moves).opened) := by
    rw [← grantsAt_append]
    exact grantsAt_perm ref htally.tally.symm
  refine ⟨hperm, ?_, ?_⟩
  · have hcourse := course_opening (P := fun _ => True) hpast he (fun _ _ => trivial) hl hd
    rw [hperm.count_eq]
    exact hcourse.balanced.writes_le u
  · intro n hfew
    have hcourse := course_opening (P := fun o => o.count ⟨u, .read⟩ ≤ n + 1) hpast he hfew hl hd
    rw [hperm.count_eq]
    exact Location.Balanced.reads_le (hcourse.readsWithin fun o ho => ho)

end Opening

/-- A thread that reads a field once. -/
def readOnce : Dump where
  threads := [⟨1, []⟩]
  sharedFields := (∅ : Catalogue).insert "Box" ((∅ : Std.ExtTreeSet String).insert "value")
  locations := [⟨⟨0⟩, "Box", "value", [⟨1, .read, none⟩]⟩]

/-- The recording of `readOnce`. -/
def oneRead : Recording where
  root := .root 1
  others := []
  catalogue := (∅ : Catalogue).insert "Box" ((∅ : Std.ExtTreeSet String).insert "value")
  accesses := (∅ : AccessLedger).insert ⟨⟨0⟩, "value"⟩ ⟨"Box", [⟨1, .read, none⟩]⟩

theorem ofDump_readOnce : Recording.ofDump readOnce = .ok oneRead := by
  rw [Recording.ofDump, Recording.growTree_of_pairwise (by decide)]
  rfl

/-- The replay of `oneRead` when it begins. -/
def oneReadTraffic : Traffic := opening {} oneRead 0 ⟨7, "main"⟩ { maxRetries := 0 } none

/-- The root starts a thread that was not recorded. -/
def beginning : List Move :=
  [.rootContext, .threadStarted 0 ⟨20, "child"⟩, .objectCreated ⟨100, "Box"⟩]

/-- A thread calls a hook, and takes steps until it has left it without backing off. -/
def wholeHook (i : Nat) (hook : Hook) : List Move :=
  .enter i hook :: List.replicate ((Stage.entry hook).rank 0) (.step i)

/-- A thread is let through to the field. -/
def opens (i : Nat) (kind : AccessKind) : List Move :=
  wholeHook i (.before ⟨⟨100, "Box"⟩, "value", kind⟩)

/-- A thread has accessed the field. -/
def ends (i : Nat) (kind : AccessKind) : List Move := wholeHook i (.after kind)

/-- The field's location. -/
def box : LocationRef := ⟨1, ⟨⟨0⟩, "value"⟩⟩

/-- The root and a thread without a counterpart, which acts as the recorded root, have their reads
open at the same time. -/
theorem overlapping_reads_granted : ({} : Archive).Bounded ∧
    let both := beginning ++ opens 0 .read ++ opens 1 .read
    let moves := both ++ ends 0 .read ++ ends 1 .read
    ((oneReadTraffic.run moves).engine.memory.find? box).map Location.isDiverged = some false ∧
    (grantsAt box (oneReadTraffic.run both).opened).count ⟨1, .read⟩ = 1 + 1 ∧
    (∀ moves', moves' <+: moves →
      (grantsAt box (oneReadTraffic.run moves').opened).count ⟨1, .read⟩ ≤ 1 + 1) ∧
    (grantsAt box ((oneReadTraffic.admitted moves).map Prod.snd)).count ⟨1, .read⟩ ≤
      (oneRead.orderAt box.key).count ⟨1, .read⟩ + 1 := by
  refine ⟨Archive.bounded_empty, ?_⟩
  intro both moves
  have hmarked : ((oneReadTraffic.run moves).engine.memory.find? box).map Location.isDiverged =
      some false := by
    decide +kernel
  have hboth : (grantsAt box (oneReadTraffic.run both).opened).count ⟨1, .read⟩ = 1 + 1 := by
    decide +kernel
  have hfew : ∀ moves', moves' <+: moves →
      (grantsAt box (oneReadTraffic.run moves').opened).count ⟨1, .read⟩ ≤ 1 + 1 := by
    simp only [← List.mem_inits]
    decide +kernel
  -- the theorem is about any moves, so what these are stays closed
  clear_value moves
  obtain ⟨l, hl, hd⟩ := Option.map_eq_some_iff.mp hmarked
  obtain ⟨-, -, hreads⟩ := recorded_access_granted_once Archive.bounded_empty moves rfl hl hd 1
  exact ⟨hmarked, hboth, hfew, hreads 1 hfew⟩

/-- **Two threads are granted the one recorded read.**  The root and a thread without a
counterpart, which acts as the recorded root, read at the same time. -/
theorem recorded_read_granted_twice : Recording.ofDump readOnce = .ok oneRead ∧
    let moves := beginning ++ opens 0 .read ++ opens 1 .read ++ ends 0 .read ++ ends 1 .read
    let t := oneReadTraffic.run moves
    t.callers.map (fun c => (c.who.live.raw, c.who.recorded)) = [(7, some 1), (20, none)] ∧
    (t.engine.memory.find? box).map Location.isDiverged = some false ∧
    (oneRead.orderAt box.key).count ⟨1, .read⟩ = 1 ∧
    (grantsAt box ((oneReadTraffic.admitted moves).map Prod.snd)).count ⟨1, .read⟩ = 2 := by
  refine ⟨ofDump_readOnce, ?_, ?_, ?_, ?_⟩ <;> decide +kernel

end Traffic
end AccessReplay
