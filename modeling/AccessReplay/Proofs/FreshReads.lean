import AccessReplay.Proofs.GrantedTraffic
import AccessReplay.Proofs.LastingVerdicts

/-!
# A read is never too late

A schedule can find that a recorded read comes after the write that has overwritten what it has
to see.  No replay comes to that, in whatever order its threads move.  A write is granted only once
all reads are committed that were recorded before it, and committed reads stay so.  So whatever
reads are granted beside one another, whatever is forced, and however long a granted write stays
open, the reads recorded before the last committed write are made (`Balanced.reads_ge`).

It follows that no location of a replay answers so, that no thread gives an access up for that
reason, and that none is reported for it (`Fresh`).
-/
namespace AccessReplay

/-- The reason that a read comes after the write that has overwritten what it has to see. -/
def DivergenceReason.IsStale : DivergenceReason → Prop
  | .staleRead _ _ => True
  | _ => False

namespace Location

variable {es : List RecordedAccess} {p o : List Access} {l : Location} {t : RuntimeId}
  {k : AccessKind} {reason : DivergenceReason} {P : List Access → Prop}

/-- A location whose account is balanced finds no read too late. -/
theorem Balanced.not_isStale (h : Balanced (accessOrder es) p o l)
    (hv : l.verdict t k = .diverged reason) : ¬reason.IsStale := by
  have hge : (through l.committed (accessOrder es)).count ⟨t, .read⟩ ≤ l.reads.get t := by
    rw [h.reads_eq]
    exact h.reads_ge t
  obtain rfl := h.reason_eq hge hv
  cases k <;> exact id

/-- The last write that a location says was committed is the last one that was. -/
theorem Course.lastWrite_eq (h : Course es P p o l) : l.lastWrite = lastWriteOf p := by
  induction h with
  | start => rfl
  | turn hc ht _ _ ih =>
    have hb := hc.balanced
    cases ht with
    | kept => rw [List.append_nil, ih]
    | grant _ => rw [List.append_nil, ← ih, reserve, apply_ite lastWrite, ite_self]
    | @commit t k =>
      cases k with
      | read => simpa [commit_granted_read hb.undiverged, lastWriteOf] using ih
      | write => simp [commit_granted_write hb.undiverged, lastWriteOf, hb.committed_eq]

/-- **Before the last committed write, all recorded reads are made.** -/
theorem Course.reads_before_lastWrite (h : Course es P p o l) {n : Nat}
    (hn : l.committed = n + 1) : ∃ w before, l.lastWrite = some ⟨w, n⟩ ∧
      RecordedAfter es before ⟨w, .write⟩ ∧ writesIn before = n ∧
      ∀ u, readsIn u before ≤ l.reads.get u := by
  have hb := h.balanced
  have hwriters := hb.writers_eq
  have hlength := hb.committed_eq
  rw [hn] at hwriters hlength
  have hlt : n < (writersOf (accessOrder es)).length := by
    have := congrArg List.length hwriters
    rw [List.length_take] at this
    omega
  have hlast : (writersOf p).getLast? = (writersOf (accessOrder es))[n]? := by
    rw [List.getLast?_eq_getElem?, ← hlength, hwriters, Nat.add_sub_cancel,
      List.getElem?_take_of_lt (Nat.lt_succ_self n)]
  obtain ⟨before, hbefore, hwrites⟩ :=
    getElem?_writersOf_iff.mp (List.getElem?_eq_getElem hlt)
  refine ⟨_, before, ?_, hbefore, hwrites, fun u => ?_⟩
  · rw [h.lastWrite_eq, lastWriteOf, hlast, List.getElem?_eq_getElem hlt, ← hlength]
    rfl
  · rw [hbefore.readsIn_eq_count_through, hwrites, ← hn, hb.reads_eq]
    exact hb.reads_ge u

end Location

/-! ## What threads are told -/

/-- What a thread asks for is a location of the edition, and it gives nothing up for having come
too late. -/
def Stage.Fresh (edition : Nat) : Stage → Prop
  | .asking q | .waiting q | .resting q => q.location.edition = edition
  | .marking q reason | .flagging q reason | .counting q reason | .reporting q reason =>
    q.location.edition = edition ∧ ¬reason.IsStale
  | _ => True

/-- The memory tells nobody that a read is too late at a location of its edition. -/
def LiveMemory.TellsFresh (m : LiveMemory) : Prop :=
  ∀ ref, ref.edition = m.edition → ∀ t k reason,
    (m.poll ref t k).2 = .diverged reason → ¬reason.IsStale

namespace Engine

/-- **A step gives nothing up for being too late** if the memory never says so. -/
theorem fresh_step {e : Engine} {c : Caller} (hm : e.memory.TellsFresh)
    (h : c.stage.Fresh e.memory.edition) : (e.step c).2.stage.Fresh e.memory.edition := by
  obtain ⟨p, stage⟩ := c
  cases stage with
  | locating r =>
    simp only [step, locate]
    split
    · trivial
    · next ref href =>
      obtain ⟨id, -, rfl, -⟩ := LiveMemory.lookUp_snd href
      exact rfl
  | asking q =>
    simp only [step]
    split
    · trivial
    · exact h
    · next reason hv => exact ⟨h, hm q.location h q.thread q.kind reason hv⟩
  | waiting q =>
    simp only [step]
    split
    · exact h
    · trivial
  | resting q =>
    simp only [step]
    split
    · exact h
    · obtain ⟨writer, n, hstall⟩ := stall_eq e q
      rw [hstall]
      exact ⟨h, id⟩
  | counted r | concluding kind | choosing r =>
    simp only [step]
    split <;> trivial
  | filing a next =>
    simp only [step, file_eq]
    trivial
  | flagging q reason =>
    simp only [step, flag_eq]
    exact h
  | releasing next => cases next <;> trivial
  | marking | counting => exact h
  | outside | announced | committing | reporting | leaving => trivial

/-- What is told after a step was told before, or is what the thread gave an access up for. -/
theorem fresh_reportedNext {e : Engine} {p : Participant} {stage : Stage}
    (h : stage.Fresh e.memory.edition) (hold : ∀ d ∈ e.reported, ¬d.reason.IsStale) :
    ∀ d ∈ e.reportedNext p stage, ¬d.reason.IsStale := by
  cases stage with
  | reporting q reason =>
    intro d hd
    simp only [reportedNext, told] at hd
    split at hd
    · rcases Array.mem_push.mp hd with hd | rfl
      · exact hold d hd
      · exact h.2
    · exact hold d hd
  | _ => exact hold

end Engine

namespace Traffic

variable {t : Traffic} {r : Recording} {moves : List Move}

/-- The replay enforces the edition that it began with, no thread gives an access up for having
come too late, and none was reported for it. -/
structure Fresh (edition : Nat) (t : Traffic) : Prop where
  edition_eq : t.engine.memory.edition = edition
  stages : ∀ c ∈ t.callers, c.stage.Fresh edition
  reported : ∀ d ∈ t.engine.reported, ¬d.reason.IsStale

/-- **A move reports nothing for being too late** if the memory never says so. -/
theorem Fresh.perform {edition : Nat} {adm fin : Replay.Log} (h : Fresh edition t)
    (hs : Sound adm fin t) (hm : t.engine.memory.TellsFresh) (move : Move) :
    Fresh edition (t.perform move) := by
  obtain ⟨rfl, hstages, hreported⟩ := h
  have hmoved := moved hs.wellFormed hs.checking move
  generalize t.admittedBy move = admitted, t.filedBy move = filed, t.perform move = t' at hmoved ⊢
  cases hmoved with
  | nothing => exact ⟨rfl, hstages, hreported⟩
  | engine hsame _ _ _ =>
    exact ⟨by rw [hsame.memory], hstages, hsame.reported ▸ hreported⟩
  | @handsOut e' p hout _ _ =>
    refine ⟨by rw [hout.memory], fun c hc => ?_, hout.reported ▸ hreported⟩
    rcases List.mem_append.mp hc with hc | hc
    · exact hstages c hc
    · rw [List.mem_singleton.mp hc]
      trivial
  | enter _ _ hook =>
    refine ⟨rfl, fun c hc => ?_, hreported⟩
    rcases List.mem_or_eq_of_mem_set hc with hc | rfl
    · exact hstages c hc
    · cases hook <;> trivial
  | @step i c hi _ =>
    have heffect := Engine.effect_step t.engine c
    have hstage := hstages c (List.mem_of_getElem? hi)
    refine ⟨?_, fun d hd => ?_, ?_⟩
    · rw [heffect.memory, edition_memoryNext]
    · rcases List.mem_or_eq_of_mem_set hd with hd | rfl
      · exact hstages d hd
      · exact Engine.fresh_step hm hstage
    · rw [heffect.reported]
      exact Engine.fresh_reportedNext hstage hreported

section Opening
variable {past : Archive} {checksum : UInt32} {root : AnnouncedThread} {budget : Budget}
  {observer : Option Observer}

/-- The locations of a replay find no read too late. -/
theorem Fresh.tellsFresh (hpast : past.Bounded)
    (h : Fresh (past.memory.edition + 1)
      ((opening past r checksum root budget observer).run moves)) :
    ((opening past r checksum root budget observer).run moves).engine.memory.TellsFresh := by
  intro ref he u k reason hv
  obtain ⟨l, hl, hd⟩ := LiveMemory.exists_of_not_grant (by rw [hv]; simp)
  have hcourse := course_opening (P := fun _ => True) hpast (he.trans h.edition_eq)
    (fun _ _ => trivial) hl hd
  have hverdict : l.verdict u k = .diverged reason := by
    simpa [LiveMemory.poll, hl] using hv
  exact hcourse.balanced.not_isStale hverdict

/-- **At any time**, nothing was given up for being too late. -/
theorem fresh_run (hpast : past.Bounded) (moves : List Move) : Fresh (past.memory.edition + 1)
    ((opening past r checksum root budget observer).run moves) := by
  induction moves using List.reverseRecOn with
  | nil =>
    exact ⟨rfl, fun c hc => absurd hc List.not_mem_nil,
      fun d hd => absurd hd (Array.not_mem_empty d)⟩
  | append_singleton moves move ih =>
    rw [run_concat]
    exact ih.perform ((sound_opening hpast).run moves) (ih.tellsFresh hpast) move

/-- **A replayed read is never too late.**  Whatever threads there are, several of them acting as
one recorded thread or not, whatever they do and in whatever order they move, at any time:

* no location of the replay answers that a read comes after the write that has overwritten what
  it has to see; if it is not marked diverged, then of each thread at least the reads are committed
  that were recorded before the write which it says was committed last;
* no thread is told so that asks its location, and none was reported for it. -/
theorem reads_never_stale (hpast : past.Bounded) (moves : List Move) :
    let s := opening past r checksum root budget observer
    let t := s.run moves
    (∀ ref l, ref.edition = s.engine.memory.edition → t.engine.memory.find? ref = some l →
      (∀ u k reason, (l.poll u k).1 = .diverged reason → ¬reason.IsStale) ∧
      (l.isDiverged = false → ∀ n, l.committed = n + 1 →
        ∃ w before, l.lastWrite = some ⟨w, n⟩ ∧
          RecordedAfter (r.accesses.eventsAt ref.key) before ⟨w, .write⟩ ∧ writesIn before = n ∧
          ∀ u, readsIn u before ≤ l.reads.get u)) ∧
    (∀ c ∈ t.callers, ∀ q, c.stage = .asking q → ∀ reason,
      (t.engine.memory.poll q.location q.thread q.kind).2 = .diverged reason →
        ¬reason.IsStale) ∧
    ∀ d ∈ t.engine.reported, ¬d.reason.IsStale := by
  intro s t
  have hfresh : Fresh (past.memory.edition + 1) t := fresh_run hpast moves
  have htells : t.engine.memory.TellsFresh := hfresh.tellsFresh hpast
  refine ⟨fun ref l he hl => ⟨fun u k reason hv => ?_, fun hd n hn => ?_⟩, ?_, hfresh.reported⟩
  · refine htells ref (he.trans hfresh.edition_eq.symm) u k reason ?_
    simpa [LiveMemory.poll, Location.poll, hl] using hv
  · have hcourse := course_opening (P := fun _ => True) hpast he (fun _ _ => trivial) hl hd
    exact hcourse.reads_before_lastWrite hn
  · intro c hc q hq reason hv
    have hedition := hfresh.stages c hc
    rw [hq] at hedition
    exact htells q.location (hedition.trans hfresh.edition_eq.symm) q.thread q.kind reason hv

end Opening

/-- A thread reads a field and then writes it. -/
def readThenWrite : Recording :=
  { oneRead with
    accesses := (∅ : AccessLedger).insert box.key
      ⟨"Box", [⟨1, .read, none⟩, ⟨1, .write, none⟩]⟩ }

/-- The root and a thread that was not recorded read at the same time; the write is granted when
one of the reads is committed, and the other one is committed before it. -/
def crossing : List Move :=
  beginning ++ opens 0 .read ++ opens 1 .read ++ ends 0 .read ++ opens 0 .write ++ ends 1 .read ++
    ends 0 .write

theorem crossing_never_stale : ({} : Archive).Bounded ∧ ∃ l,
    ((opening {} readThenWrite 0 ⟨7, "main"⟩ { maxRetries := 0 } none).run
      crossing).engine.memory.find? box = some l ∧
    l.isDiverged = false ∧ l.committed = 0 + 1 ∧
    (∃ w before, l.lastWrite = some ⟨w, 0⟩ ∧
      RecordedAfter (readThenWrite.accesses.eventsAt box.key) before ⟨w, .write⟩ ∧
      writesIn before = 0 ∧ ∀ u, readsIn u before ≤ l.reads.get u) ∧
    ∀ u k reason, (l.poll u k).1 = .diverged reason → ¬reason.IsStale := by
  have hend : (((opening {} readThenWrite 0 ⟨7, "main"⟩ { maxRetries := 0 } none).run
      crossing).engine.memory.find? box).map (fun l => (l.isDiverged, l.committed)) =
        some (false, 0 + 1) := by
    decide +kernel
  obtain ⟨l, hl, hstate⟩ := Option.map_eq_some_iff.mp hend
  obtain ⟨hd, hn⟩ := Prod.mk.inj hstate
  obtain ⟨hfresh, hreads⟩ := (reads_never_stale Archive.bounded_empty crossing).1 box l rfl hl
  exact ⟨Archive.bounded_empty, l, hl, hd, hn, hreads hd 0 hn, hfresh⟩

end Traffic
end AccessReplay
