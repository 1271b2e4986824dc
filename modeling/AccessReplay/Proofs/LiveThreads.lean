import AccessReplay.Proofs.FiledHistories
import AccessReplay.Proofs.RecordedTree
import AccessReplay.Proofs.SpawnTreePlaces

/-!
# Live threads embed into the recorded tree

Each context that a replay hands out carries the place of its thread in the live spawn tree and
the recorded thread at the same place, if there is one (`Embedded`).  Places are taken by one
thread in either tree, and above a thread stands its parent.  Hence live threads replay
different recorded threads, and the parent of one with a counterpart has the recorded parent as
its own.
-/
namespace AccessReplay

/-! ## Counterparts that are noted -/

namespace SpawnTree

variable {t : SpawnTree} {r : Recording} {parent child raw : RuntimeId} {live : ThreadId}

/-- What is noted for each thread is the counterpart that it has. -/
def Matched (r : Recording) (t : SpawnTree) : Prop :=
  ∀ raw, t.recordedOf? raw = (t.find? raw).bind (counterpart? r)

@[simp] theorem matchRecorded_snd : (t.matchRecorded r live).2 = counterpart? r live := by
  unfold matchRecorded
  split
  · next h => exact h.symm
  · next h => exact h.symm

/-- Matching a thread notes its counterpart and leaves the others alone. -/
theorem matched_matchRecorded (hlive : t.find? live.raw = some live)
    (hself : t.recordedOf? live.raw = none ∨ t.recordedOf? live.raw = counterpart? r live)
    (hothers : ∀ raw, raw ≠ live.raw → t.recordedOf? raw = (t.find? raw).bind (counterpart? r)) :
    Matched r (t.matchRecorded r live).1 := by
  intro raw
  unfold matchRecorded
  cases hc : counterpart? r live with
  | none =>
    by_cases hraw : raw = live.raw
    · subst hraw
      rw [hc, or_self] at hself
      simp [hself, hlive, hc]
    · exact hothers raw hraw
  | some recorded =>
    show (t.counterparts.insert live.raw recorded)[raw]? = (t.find? raw).bind (counterpart? r)
    rw [Std.ExtTreeMap.getElem?_insert]
    by_cases hraw : raw = live.raw
    · subst hraw
      simp [hlive, hc]
    · have hne : ¬compare live.raw raw = .eq := by
        rw [Std.compare_eq_iff_eq]
        exact Ne.symm hraw
      rw [if_neg hne]
      exact hothers raw hraw

theorem recordedOf?_start : (t.start parent child).1.recordedOf? raw = t.recordedOf? raw := by
  unfold start
  split <;> rfl

/-- A thread that is started and matched has its counterpart noted. -/
theorem Matched.start (h : Matched r t) (hk : Keyed t) (parent child : RuntimeId) :
    Matched r ((t.start parent child).1.matchRecorded r (t.start parent child).2).1 := by
  have hself : (t.start parent child).1.find? child = some (t.start parent child).2 :=
    find?_start_self
  have hraw : (t.start parent child).2.raw = child := (hk.start parent child).raw_of_find? hself
  apply matched_matchRecorded
  · rw [hraw, hself]
  · rw [hraw, recordedOf?_start, h child]
    cases hc : t.find? child with
    | none => exact .inl rfl
    | some id =>
      have hkeep : (t.start parent child).1.find? child = some id := find?_start hk hc
      obtain rfl : (t.start parent child).2 = id := Option.some.inj (hself.symm.trans hkeep)
      exact .inr rfl
  · intro raw hne
    rw [hraw] at hne
    rw [recordedOf?_start, find?_start_of_ne hk (Ne.symm hne)]
    exact h raw

end SpawnTree

/-- A context whose thread adds to a history of the replay. -/
def Participant.Registered (p : Participant) : Prop := ∃ ref, p.history = .filed ref

namespace Engine

variable {e : Engine}

theorem threads_threadStarted (e : Engine) (parent : RuntimeId) (child : AnnouncedThread) :
    (e.threadStarted parent child).1.threads =
      ((e.threads.start parent child.raw).1.matchRecorded e.recording
        (e.threads.start parent child.raw).2).1 := by
  unfold threadStarted
  dsimp only
  split <;> rfl

theorem recording_threadStarted (e : Engine) (parent : RuntimeId) (child : AnnouncedThread) :
    (e.threadStarted parent child).1.recording = e.recording := by
  unfold threadStarted
  dsimp only
  split <;> rfl

/-- The context of a thread that was started has its place and its counterpart. -/
theorem threadStarted_snd (e : Engine) (parent : RuntimeId) (child : AnnouncedThread) :
    (e.threadStarted parent child).2.live = (e.threads.start parent child.raw).2 ∧
      (e.threadStarted parent child).2.recorded =
        SpawnTree.counterpart? e.recording (e.threads.start parent child.raw).2 :=
  ⟨rfl, SpawnTree.matchRecorded_snd⟩

/-- A hook leaves a context with its thread, its counterpart and its history. -/
theorem keeps_call (e : Engine) (p : Participant) (hook : Hook) :
    (e.call p hook).1.setting = e.setting ∧ (e.call p hook).2.live = p.live ∧
      (e.call p hook).2.recorded = p.recorded ∧
      ∀ ref, (e.call p hook).2.history = .filed ref ↔ p.history = .filed ref := by
  refine complete_keeps (c := ⟨p, .entry hook⟩)
    (P := fun e' c' => e'.setting = e.setting ∧ c'.who.live = p.live ∧
      c'.who.recorded = p.recorded ∧ ∀ ref, c'.who.history = .filed ref ↔ p.history = .filed ref)
    ?_ ⟨rfl, rfl, rfl, fun _ => Iff.rfl⟩
  intro e₁ c₁ _ ⟨hs, hl, hr, hh⟩
  have heffect := effect_step e₁ c₁
  exact ⟨heffect.setting.trans hs, heffect.live.trans hl, heffect.recorded.trans hr,
    fun ref => (heffect.adds.filed_iff ref).trans (hh ref)⟩

end Engine

namespace Replay

variable {r : Recording} {s : Replay} {i : Nat} {p p' : Participant} {e' : Engine}

/-- A context carries the place of its thread in the live tree, and its counterpart. -/
structure Placed (r : Recording) (t : SpawnTree) (p : Participant) : Prop where
  live : t.find? p.live.raw = some p.live
  recorded : p.recorded = SpawnTree.counterpart? r p.live

/-- The contexts of a replay are placed in its tree. -/
structure Embedded (r : Recording) (s : Replay) : Prop where
  recording : s.engine.recording = r
  populated : ∃ kids, s.engine.threads.Populated kids
  matched : s.engine.threads.Matched r
  placed : ∀ p ∈ s.contexts, p.Registered → Placed r s.engine.threads p
  /-- A thread that the replay does not know has no counterpart. -/
  registered : ∀ p ∈ s.contexts, p.recorded.isSome → p.Registered

namespace Embedded

theorem keyed (h : Embedded r s) : s.engine.threads.Keyed := by
  obtain ⟨kids, hkids⟩ := h.populated
  exact hkids.keyed

/-- Neither the threads nor the recording change. -/
theorem sameThreads (h : Embedded r s) (ht : e'.threads = s.engine.threads)
    (hr : e'.recording = s.engine.recording) : Embedded r { s with engine := e' } where
  recording := hr.trans h.recording
  populated := ht ▸ h.populated
  matched := ht ▸ h.matched
  placed := ht ▸ h.placed
  registered := h.registered

/-- A context is handed out for a thread that the tree has. -/
theorem handsOut (h : Embedded r s) (hp : p.Registered → Placed r s.engine.threads p)
    (hreg : p.recorded.isSome → p.Registered) :
    Embedded r { s with contexts := s.contexts ++ [p] } where
  recording := h.recording
  populated := h.populated
  matched := h.matched
  placed q hq := by
    rcases List.mem_append.mp hq with hq | hq
    · exact h.placed q hq
    · rw [List.mem_singleton.mp hq]
      exact hp
  registered q hq := by
    rcases List.mem_append.mp hq with hq | hq
    · exact h.registered q hq
    · rw [List.mem_singleton.mp hq]
      exact hreg

theorem placed_root (h : Embedded r s) : Placed r s.engine.threads s.engine.rootParticipant := by
  have hraw : s.engine.threads.rootId.raw = s.engine.threads.root := h.keyed.raw_rootId
  have hroot := h.keyed.find?_root
  constructor
  · show s.engine.threads.find? s.engine.threads.rootId.raw = some s.engine.threads.rootId
    rw [hraw, hroot]
  · show s.engine.threads.recordedOf? s.engine.threads.rootId.raw = _
    rw [hraw, h.matched, hroot]
    rfl

/-- The root's context is handed out. -/
theorem rootContext (h : Embedded r s) :
    Embedded r { s with contexts := s.contexts ++ [s.engine.rootParticipant] } :=
  h.handsOut (fun _ => h.placed_root) fun _ => ⟨_, rfl⟩

/-- A context is handed out for a thread that the replay does not know. -/
theorem detached (h : Embedded r s) (thread : AnnouncedThread) :
    Embedded r { s with contexts := s.contexts ++ [.detached thread] } := by
  apply h.handsOut
  · rintro ⟨ref, href⟩
    cases href
  · intro hsome
    cases hsome

/-- A thread is started, and its context handed out. -/
theorem threadStarted (h : Embedded r s) (parent : RuntimeId) (child : AnnouncedThread) :
    Embedded r ⟨(s.engine.threadStarted parent child).1,
      s.contexts ++ [(s.engine.threadStarted parent child).2]⟩ := by
  obtain ⟨kids, hkids⟩ := h.populated
  have hthreads := s.engine.threads_threadStarted parent child
  obtain ⟨hlive, hrecorded⟩ := s.engine.threadStarted_snd parent child
  rw [h.recording] at hthreads hrecorded
  obtain ⟨counterparts, recorded, hmatch⟩ :=
    (s.engine.threads.start parent child.raw).1.matchRecorded_eq r
      (s.engine.threads.start parent child.raw).2
  have hfind : ∀ raw, (s.engine.threadStarted parent child).1.threads.find? raw =
      (s.engine.threads.start parent child.raw).1.find? raw := by
    intro raw
    rw [hthreads, hmatch]
    rfl
  refine ⟨(s.engine.recording_threadStarted parent child).trans h.recording, ?_, ?_, ?_, ?_⟩
  · obtain ⟨kids', hkids'⟩ := hkids.start parent child.raw
    refine ⟨kids', ?_⟩
    rw [hthreads, hmatch]
    exact hkids'.withCounterparts counterparts
  · show SpawnTree.Matched r (s.engine.threadStarted parent child).1.threads
    rw [hthreads]
    exact h.matched.start hkids.keyed parent child.raw
  · intro p hp hreg
    rcases List.mem_append.mp hp with hp | hp
    · have hplaced := h.placed p hp hreg
      refine ⟨?_, hplaced.recorded⟩
      exact (hfind p.live.raw).trans (SpawnTree.find?_start hkids.keyed hplaced.live)
    · obtain rfl := List.mem_singleton.mp hp
      refine ⟨?_, hrecorded.trans (by rw [hlive])⟩
      have hself : (s.engine.threads.start parent child.raw).1.find? child.raw =
          some (s.engine.threads.start parent child.raw).2 := SpawnTree.find?_start_self
      have hraw : (s.engine.threads.start parent child.raw).2.raw = child.raw :=
        (hkids.keyed.start parent child.raw).raw_of_find? hself
      rw [hfind, hlive, hraw, hself]
  · intro p hp hsome
    rcases List.mem_append.mp hp with hp | hp
    · exact h.registered p hp hsome
    · rw [List.mem_singleton.mp hp]
      exact ⟨_, rfl⟩

/-- A context has its turn. -/
theorem turn (h : Embedded r s) (hi : s.contexts[i]? = some p)
    (hs : e'.setting = s.engine.setting) (hl : p'.live = p.live) (hr : p'.recorded = p.recorded)
    (hh : ∀ ref, p'.history = .filed ref ↔ p.history = .filed ref) :
    Embedded r ⟨e', s.contexts.set i p'⟩ := by
  have hthreads : e'.threads = s.engine.threads := congrArg Engine.Setting.threads hs
  have hrecording : e'.recording = s.engine.recording := congrArg Engine.Setting.recording hs
  obtain ⟨hrec, hpop, hmatched, hplaced, hregistered⟩ := h.sameThreads hthreads hrecording
  have hmem := List.mem_of_getElem? hi
  refine ⟨hrec, hpop, hmatched, ?_, ?_⟩
  · intro q hq hreg
    rcases List.mem_or_eq_of_mem_set hq with hq | rfl
    · exact hplaced q hq hreg
    · obtain ⟨ref, href⟩ := hreg
      have hold := hplaced p hmem ⟨ref, (hh ref).mp href⟩
      exact ⟨by rw [hl]; exact hold.live, by rw [hl, hr]; exact hold.recorded⟩
  · intro q hq hsome
    rcases List.mem_or_eq_of_mem_set hq with hq | rfl
    · exact hregistered q hq hsome
    · obtain ⟨ref, href⟩ := hregistered p hmem (hr ▸ hsome)
      exact ⟨ref, (hh ref).mpr href⟩

/-! ## Runs -/

theorem perform (h : Embedded r s) (call : Call) : Embedded r (s.perform call) := by
  cases call with
  | objectCreated object =>
    obtain ⟨objects, journal, hobject⟩ := s.engine.objectCreated_eq object
    rw [Replay.perform, hobject]
    exact h.sameThreads rfl rfl
  | stopChecking => exact h.sameThreads rfl rfl
  | rootContext => exact h.rootContext
  | detached thread => exact h.detached thread
  | threadStarted j child =>
    cases hj : s.contexts[j]? with
    | none => simpa [Replay.perform, hj] using h
    | some parent =>
      simp only [Replay.perform, hj]
      exact h.threadStarted parent.live.raw child
  | hook j hook =>
    cases hj : s.contexts[j]? with
    | none => simpa [Replay.perform, hj] using h
    | some p =>
      rw [perform_hook hj]
      obtain ⟨hs, hl, hr, hh⟩ := s.engine.keeps_call p hook
      exact h.turn hj hs hl hr hh

theorem performAll (h : Embedded r s) (calls : List Call) : Embedded r (s.performAll calls) := by
  induction calls using List.reverseRecOn with
  | nil => exact h
  | append_singleton calls call ih =>
    rw [performAll_concat]
    exact ih.perform call

end Embedded

variable {past : Archive} {checksum : UInt32} {root : AnnouncedThread} {budget : Budget}
  {observer : Option Observer}

theorem embedded_opening (r : Recording) :
    Embedded r (opening past r checksum root budget observer) := by
  have hthreads : (opening past r checksum root budget observer).engine.threads =
      ((SpawnTree.ofRoot root.raw).matchRecorded r (SpawnTree.ofRoot root.raw).rootId).1 := rfl
  obtain ⟨counterparts, recorded, hmatch⟩ :=
    (SpawnTree.ofRoot root.raw).matchRecorded_eq r (SpawnTree.ofRoot root.raw).rootId
  have hk := SpawnTree.keyed_ofRoot root.raw
  refine ⟨rfl, ⟨fun _ => [], ?_⟩, ?_, fun p hp => absurd hp List.not_mem_nil,
    fun p hp => absurd hp List.not_mem_nil⟩
  · rw [hthreads, hmatch]
    exact (SpawnTree.Populated.ofRoot root.raw).withCounterparts counterparts
  · rw [hthreads]
    apply SpawnTree.matched_matchRecorded
    · rw [hk.raw_rootId]
      exact hk.find?_root
    · exact .inl (by simp [SpawnTree.recordedOf?, SpawnTree.ofRoot])
    · intro raw hne
      rw [hk.raw_rootId] at hne
      have hne' : ¬root.raw = raw := fun he => hne he.symm
      simp [SpawnTree.recordedOf?, SpawnTree.find?, SpawnTree.ofRoot, hne']

/-! ## Places and counterparts of contexts -/

namespace Embedded

variable {q : Participant} {x : RuntimeId}

/-- Threads with one counterpart are one thread. -/
theorem raw_eq_of_recorded (h : Embedded r s) (ha : r.Accepted)
    (hfew : s.engine.threads.FewChildren) (hp : Placed r s.engine.threads p)
    (hq : Placed r s.engine.threads q) (hpx : p.recorded = some x) (hqx : q.recorded = some x) :
    p.live.raw = q.live.raw := by
  obtain ⟨kids, hkids⟩ := h.populated
  rw [hp.recorded] at hpx
  rw [hq.recorded] at hqx
  exact hkids.eq_of_position_eq hfew hp.live hq.live
    (Recording.position_eq_of_counterpart? ha hpx hqx)

/-- The root of the live tree replays the root of the recorded one. -/
theorem recorded_of_isRoot (hr : r.Rooted) {t : SpawnTree} (hp : Placed r t p)
    (hroot : p.live.isRoot = true) : p.recorded = some r.root.raw := by
  rw [hp.recorded, SpawnTree.counterpart?, ThreadId.isRoot_iff.mp hroot,
    Recording.threadAt?_nil hr]
  rfl

theorem isRoot_rootId (h : Embedded r s) : s.engine.threads.rootId.isRoot = true := by
  obtain ⟨kids, hkids⟩ := h.populated
  have hroot := hkids.keyed.find?_root
  rw [hkids.find?_root] at hroot
  rw [← Option.some.inj hroot]
  rfl

end Embedded

/-- **Live threads embed into the recorded tree.**  Whatever is called, in whatever order:

* a context carries the place that its thread has in the live tree, and the recorded thread at
  just this place, if there is one;
* the root always has a counterpart, which is the recorded root;
* threads with different runtime ids never have the same counterpart, as long as no thread
  starts as many children as there are indices;
* if a thread has a counterpart, its live parent has one too, and that is the parent of the
  thread's counterpart. -/
theorem live_threads_embed {d : Dump} (hd : Recording.ofDump d = .ok r) (calls : List Call) :
    let t := (opening past r checksum root budget observer).performAll calls
    (∀ p ∈ t.contexts, p.Registered → t.engine.threads.find? p.live.raw = some p.live ∧
      p.recorded = (r.threadAt? p.live.position).map ThreadId.raw) ∧
    t.engine.rootParticipant.recorded = some r.root.raw ∧
    (∀ p ∈ t.contexts, p.Registered → p.live.isRoot = true → p.recorded = some r.root.raw) ∧
    (t.engine.threads.FewChildren → ∀ p ∈ t.contexts, ∀ q ∈ t.contexts, p.Registered →
      q.Registered → p.live.raw ≠ q.live.raw → ∀ x, p.recorded = some x → q.recorded ≠ some x) ∧
    ∀ p ∈ t.contexts, p.Registered → ∀ parent, p.live.parent? = some parent → ∀ x,
      p.recorded = some x → ∃ counterpart above, counterpart ∈ r.threads ∧ counterpart.raw = x ∧
        counterpart.parent? = some above ∧ above ∈ r.threads ∧
        t.engine.threads.find? parent.raw = some parent ∧
        t.engine.threads.recordedOf? parent.raw = some above.raw ∧
        ∀ q ∈ t.contexts, q.Registered → q.live.raw = parent.raw →
          q.recorded = some above.raw := by
  intro t
  have ha := Recording.accepted_ofDump hd
  have hr := Recording.rooted_ofDump hd
  have ht : Embedded r t := (embedded_opening r).performAll calls
  refine ⟨?_, ?_, ?_, ?_, ?_⟩
  · intro p hp hreg
    exact ⟨(ht.placed p hp hreg).live, (ht.placed p hp hreg).recorded⟩
  · exact Embedded.recorded_of_isRoot hr ht.placed_root ht.isRoot_rootId
  · intro p hp hreg hroot
    exact Embedded.recorded_of_isRoot hr (ht.placed p hp hreg) hroot
  · intro hfew p hp q hq hpreg hqreg hne x hpx hqx
    exact hne (ht.raw_eq_of_recorded ha hfew (ht.placed p hp hpreg) (ht.placed q hq hqreg) hpx hqx)
  · intro p hp hreg parent hparent x hx
    have hplaced := ht.placed p hp hreg
    obtain ⟨kids, hkids⟩ := ht.populated
    have hfind := hkids.find?_parent hplaced.live hparent
    rw [hplaced.recorded] at hx
    obtain ⟨counterpart, above, hmem, -, hraw, habove, hmem', hcounterpart⟩ :=
      Recording.counterpart?_parent ha hr hparent hx
    refine ⟨counterpart, above, hmem, hraw, habove, hmem', hfind, ?_, ?_⟩
    · rw [ht.matched, hfind]
      exact hcounterpart
    · intro q hq hqreg hqraw
      -- whatever context it carries, the parent stands at its one place
      have hqplaced := ht.placed q hq hqreg
      have hqlive : q.live = parent := by
        have hsame := hqplaced.live
        rw [hqraw, hfind] at hsame
        exact (Option.some.inj hsame).symm
      rw [hqplaced.recorded, hqlive]
      exact hcounterpart

/-- A thread, the one it started, and the one that this one started. -/
def lineage : Dump where
  threads := [⟨1, []⟩, ⟨2, [0]⟩, ⟨3, [0, 0]⟩]

/-- The recording of `lineage`. -/
def recordedLineage : Recording where
  root := .root 1
  others := [(ThreadId.root 1).child 2 0, ((ThreadId.root 1).child 2 0).child 3 0]
  catalogue := ∅
  accesses := ∅

/-- The three threads are started; then one that was not recorded, the last one again, and one
whose parent the replay does not know. -/
def lineageCalls : List Call :=
  [.rootContext, .threadStarted 0 ⟨20, "child"⟩, .threadStarted 1 ⟨30, "grandchild"⟩,
    .threadStarted 0 ⟨40, "stranger"⟩, .threadStarted 0 ⟨30, "grandchild"⟩,
    .detached ⟨99, "unknown"⟩, .threadStarted 5 ⟨50, "stranger"⟩]

/-- The replay of `recordedLineage` after these calls. -/
def lineageReplay : Replay :=
  (opening {} recordedLineage 0 ⟨7, "main"⟩ {} none).performAll lineageCalls

theorem ofDump_lineage : Recording.ofDump lineage = .ok recordedLineage := by
  rw [Recording.ofDump, Recording.growTree_of_pairwise (by decide)]
  rfl

theorem fewChildren_lineageReplay : lineageReplay.engine.threads.FewChildren :=
  SpawnTree.fewChildren_of_size (by decide +kernel)

theorem lineage_embeds : Recording.ofDump lineage = .ok recordedLineage ∧
    lineageReplay.engine.threads.FewChildren ∧
    ∃ p ∈ lineageReplay.contexts, p.Registered ∧ p.live.raw = 30 ∧ p.recorded = some 3 ∧
      (∀ q ∈ lineageReplay.contexts, q.Registered → q.live.raw ≠ 30 → q.recorded ≠ some 3) ∧
      ∃ counterpart above, counterpart ∈ recordedLineage.threads ∧ counterpart.raw = 3 ∧
        counterpart.parent? = some above ∧
        lineageReplay.engine.threads.recordedOf? 20 = some above.raw := by
  obtain ⟨-, -, -, hdistinct, hparents⟩ := @live_threads_embed recordedLineage {} 0 ⟨7, "main"⟩ {}
    none lineage ofDump_lineage lineageCalls
  let p : Participant :=
    { live := ((ThreadId.root 7).child 20 0).child 30 0, recorded := some 3,
      history := .filed ⟨1, 30⟩ }
  have hp : p ∈ lineageReplay.contexts := by decide +kernel
  have hreg : p.Registered := ⟨_, rfl⟩
  refine ⟨ofDump_lineage, fewChildren_lineageReplay, p, hp, hreg, rfl, rfl, ?_, ?_⟩
  · intro q hq hqreg hqraw
    exact hdistinct fewChildren_lineageReplay p hp q hq hreg hqreg (Ne.symm hqraw) 3 rfl
  · obtain ⟨counterpart, above, hmem, hraw, habove, -, -, hnoted, -⟩ :=
      hparents p hp hreg ((ThreadId.root 7).child 20 0) rfl 3 rfl
    exact ⟨counterpart, above, hmem, hraw, habove, hnoted⟩

end Replay
end AccessReplay
