import AccessReplay.Proofs.CrewMoves
import AccessReplay.Proofs.LiveThreads

/-!
# Rosters

A crew assigns places to its threads as it goes down its script, and the replay assigns places as
threads are announced to it.  That these agree concerns little of what a crew does: its `Roster`
says who its threads are, and what the replay knows of them.  A move starts a thread, or leaves the
roster as it is (`roster_move`).

A roster is `Aligned` if each thread is where the replay has it, with the recorded thread at that
place, and the replay counts its children as the crew does.  A thread that is started keeps a roster
aligned, as long as there are runtime ids left (`Aligned.start`).
-/
namespace AccessReplay

/-- Who a thread of a crew is: its place and how many threads it has started, and who the replay
takes it for. -/
structure Standing where
  position : Position
  started : Nat
  live : ThreadId
  recorded : Option RuntimeId

/-- Who the threads of a crew are, and what the replay knows of them. -/
structure Roster where
  recording : Recording
  tree : SpawnTree
  /-- The next free runtime id. -/
  nextRaw : RuntimeId
  threads : List Standing

/-- Who a thread is. -/
def Worker.standing (w : Worker) : Standing :=
  ⟨w.position, w.started, w.caller.who.live, w.caller.who.recorded⟩

/-- Who the threads of a crew are. -/
def Crew.roster (c : Crew) : Roster :=
  ⟨c.site.engine.recording, c.site.engine.threads, c.site.nextRaw,
    c.workers.toList.map Worker.standing⟩

namespace Roster

/-- A thread starts another one. -/
def start (R : Roster) (i : Nat) (x : Standing) : Roster :=
  let (tree, live) := R.tree.start x.live.raw R.nextRaw
  { R with
    tree := (tree.matchRecorded R.recording live).1
    nextRaw := R.nextRaw + 1
    threads := R.threads.set i { x with started := x.started + 1 } ++
      [⟨x.position ++ [UInt32.ofNat x.started], 0, live,
        SpawnTree.counterpart? R.recording live⟩] }

variable {r : Recording} {R : Roster} {i j : Nat} {x y : Standing}

/-- The thread that is started comes last, its parent has started one more, and the others are as
they were. -/
theorem getElem?_start (hi : R.threads[i]? = some x) :
    (R.start i x).threads[j]? = some y ↔
      j = R.threads.length ∧ y = ⟨x.position ++ [UInt32.ofNat x.started], 0,
        (R.tree.start x.live.raw R.nextRaw).2,
        SpawnTree.counterpart? R.recording (R.tree.start x.live.raw R.nextRaw).2⟩ ∨
      j = i ∧ y = { x with started := x.started + 1 } ∨ j ≠ i ∧ R.threads[j]? = some y := by
  obtain ⟨hlt, -⟩ := List.getElem?_eq_some_iff.mp hi
  simp only [start, List.getElem?_append, List.length_set, List.getElem?_set]
  grind

/-- Matching the new thread notes its counterpart only. -/
theorem nodes_start (R : Roster) (i : Nat) (x : Standing) :
    (R.start i x).tree.root = R.tree.root ∧
      (R.start i x).tree.nodes = (R.tree.start x.live.raw R.nextRaw).1.nodes := by
  obtain ⟨counterparts, recorded, hmatch⟩ :=
    (R.tree.start x.live.raw R.nextRaw).1.matchRecorded_eq R.recording
      (R.tree.start x.live.raw R.nextRaw).2
  simp only [start, hmatch, SpawnTree.root_start, and_self]

/-- The threads have the runtime ids from one on, the replay knows just them, and it has each of
them at its place, with the recorded thread there and with as many children as it has started. -/
structure Aligned (r : Recording) (R : Roster) : Prop where
  recording : R.recording = r
  keyed : R.tree.Keyed
  nextRaw : R.nextRaw = UInt64.ofNat (R.threads.length + 1)
  raw : ∀ (i : Nat) (x : Standing), R.threads[i]? = some x → x.live.raw = UInt64.ofNat (i + 1)
  node : ∀ (i : Nat) (x : Standing), R.threads[i]? = some x →
    R.tree.nodes[x.live.raw]? = some ⟨x.live, UInt32.ofNat x.started⟩
  known : ∀ (raw : RuntimeId) (n : SpawnNode), R.tree.nodes[raw]? = some n →
    ∃ (i : Nat) (x : Standing), R.threads[i]? = some x ∧ x.live.raw = raw
  position : ∀ (i : Nat) (x : Standing), R.threads[i]? = some x → x.live.position = x.position
  recorded : ∀ (i : Nat) (x : Standing), R.threads[i]? = some x →
    x.recorded = SpawnTree.counterpart? r x.live

/-- Ids are given out from one on, and none is given out twice before there are no more. -/
theorem ofNat_succ_inj {m n : Nat} (hm : m < UInt64.size) (hn : n < UInt64.size)
    (h : UInt64.ofNat (m + 1) = UInt64.ofNat (n + 1)) : m = n := by
  have hnat := congrArg UInt64.toNat h
  rw [UInt64.toNat_ofNat', UInt64.toNat_ofNat'] at hnat
  simp only [UInt64.size] at hm hn
  omega

namespace Aligned

/-- A single thread that has started none. -/
theorem ofRoot (r : Recording) (counterparts : Std.ExtTreeMap RuntimeId RuntimeId) :
    Aligned r ⟨r, { SpawnTree.ofRoot 1 with counterparts }, 2,
      [⟨[], 0, .root 1, SpawnTree.counterpart? r (.root 1)⟩]⟩ := by
  have hkeyed := SpawnTree.keyed_ofRoot 1
  have hfirst {i : Nat} {x : Standing}
      (hi : [(⟨[], 0, .root 1, SpawnTree.counterpart? r (.root 1)⟩ : Standing)][i]? = some x) :
      i = 0 ∧ x = ⟨[], 0, .root 1, SpawnTree.counterpart? r (.root 1)⟩ := by
    simpa [List.getElem?_singleton, eq_comm] using hi
  refine ⟨rfl, ⟨hkeyed.root_known, hkeyed.raw_eq⟩, rfl, fun i x hi => ?_, fun i x hi => ?_,
    fun raw n hn => ?_, fun i x hi => ?_, fun i x hi => ?_⟩
  · obtain ⟨rfl, rfl⟩ := hfirst hi
    rfl
  · obtain ⟨rfl, rfl⟩ := hfirst hi
    simp [SpawnTree.ofRoot, ThreadId.raw]
  · refine ⟨0, _, rfl, ?_⟩
    have hn : (SpawnTree.ofRoot 1).nodes[raw]? = some n := hn
    simp only [SpawnTree.ofRoot, Std.ExtTreeMap.getElem?_insert, Std.compare_eq_iff_eq] at hn
    split at hn
    · next hraw => exact hraw
    · simp at hn
  · obtain ⟨rfl, rfl⟩ := hfirst hi
    rfl
  · obtain ⟨rfl, rfl⟩ := hfirst hi
    rfl

/-- No more threads than there are ids: the next one is free. -/
theorem nextRaw_free (h : Aligned r R) (hfew : R.threads.length < UInt64.size) :
    R.tree.nodes[R.nextRaw]? = none := by
  cases hn : R.tree.nodes[R.nextRaw]? with
  | none => rfl
  | some n =>
    obtain ⟨j, y, hj, hraw⟩ := h.known R.nextRaw n hn
    rw [h.raw j y hj, h.nextRaw] at hraw
    obtain ⟨hlt, -⟩ := List.getElem?_eq_some_iff.mp hj
    exact absurd (ofNat_succ_inj (Nat.lt_trans hlt hfew) hfew hraw) (Nat.ne_of_lt hlt)

theorem nextRaw_ne (h : Aligned r R) (hfew : R.threads.length < UInt64.size)
    (hi : R.threads[i]? = some x) : R.nextRaw ≠ x.live.raw := by
  intro he
  have hfree := h.nextRaw_free hfew
  rw [he, h.node i x hi] at hfree
  cases hfree

/-- Two threads have two ids. -/
theorem eq_of_raw (h : Aligned r R) (hfew : R.threads.length < UInt64.size)
    (hi : R.threads[i]? = some x) (hj : R.threads[j]? = some y) (hraw : x.live.raw = y.live.raw) :
    i = j := by
  rw [h.raw i x hi, h.raw j y hj] at hraw
  obtain ⟨hi, -⟩ := List.getElem?_eq_some_iff.mp hi
  obtain ⟨hj, -⟩ := List.getElem?_eq_some_iff.mp hj
  exact ofNat_succ_inj (Nat.lt_trans hi hfew) (Nat.lt_trans hj hfew) hraw

/-- The thread that is started is the next child of its parent. -/
theorem live_start (h : Aligned r R) (hi : R.threads[i]? = some x)
    (hfew : R.threads.length < UInt64.size) : (R.tree.start x.live.raw R.nextRaw).2 =
      x.live.child R.nextRaw (UInt32.ofNat x.started) := by
  have hparent : R.tree.parentNode x.live.raw = ⟨x.live, UInt32.ofNat x.started⟩ :=
    SpawnTree.parentNode_of_getElem? (h.node i x hi)
  simp [SpawnTree.start, h.nextRaw_free hfew, hparent]

theorem getElem?_nodes_start (h : Aligned r R) (hi : R.threads[i]? = some x)
    (hfew : R.threads.length < UInt64.size) (raw : RuntimeId) :
    (R.start i x).tree.nodes[raw]? =
      if R.nextRaw = raw then some ⟨x.live.child R.nextRaw (UInt32.ofNat x.started), 0⟩
      else if x.live.raw = raw then some ⟨x.live, UInt32.ofNat (x.started + 1)⟩
      else R.tree.nodes[raw]? := by
  have hparent : R.tree.parentNode x.live.raw = ⟨x.live, UInt32.ofNat x.started⟩ :=
    SpawnTree.parentNode_of_getElem? (h.node i x hi)
  rw [(R.nodes_start i x).2, SpawnTree.getElem?_start_of_new (h.nextRaw_free hfew), hparent,
    UInt32.ofNat_add]
  rfl

/-- **A thread that is started gets its place in the replay.** -/
theorem start (h : Aligned r R) (hi : R.threads[i]? = some x)
    (hfew : R.threads.length < UInt64.size) : Aligned r (R.start i x) := by
  have hlive := h.live_start hi hfew
  have hnode := h.getElem?_nodes_start hi hfew
  refine ⟨h.recording, ?_, ?_, fun k z hk => ?_, fun k z hk => ?_,
    fun raw n hn => ?_, fun k z hk => ?_, fun k z hk => ?_⟩
  · obtain ⟨hroot, hnodes⟩ := R.nodes_start i x
    have hkeyed := h.keyed.start x.live.raw R.nextRaw
    constructor
    · rw [hroot, hnodes, ← SpawnTree.root_start]
      exact hkeyed.root_known
    · rw [hnodes]
      exact hkeyed.raw_eq
  · simp only [Roster.start, h.nextRaw, List.length_append, List.length_set, List.length_singleton]
    rw [UInt64.ofNat_add (R.threads.length + 1) 1]
    rfl
  · rcases (getElem?_start hi).mp hk with ⟨rfl, rfl⟩ | ⟨rfl, rfl⟩ | ⟨-, hk⟩
    · rw [hlive, ← h.nextRaw]
      rfl
    · exact h.raw k x hi
    · exact h.raw k z hk
  · rcases (getElem?_start hi).mp hk with ⟨rfl, rfl⟩ | ⟨rfl, rfl⟩ | ⟨hne, hk⟩
    · rw [hlive]
      exact (hnode R.nextRaw).trans (if_pos rfl)
    · exact (hnode x.live.raw).trans ((if_neg (h.nextRaw_ne hfew hi)).trans (if_pos rfl))
    · have hother : ¬x.live.raw = z.live.raw := fun he => hne (h.eq_of_raw hfew hk hi he.symm)
      rw [hnode, if_neg (h.nextRaw_ne hfew hk), if_neg hother, h.node k z hk]
  · rw [hnode] at hn
    split at hn
    · next hraw => exact ⟨R.threads.length, _, (getElem?_start hi).mpr (.inl ⟨rfl, rfl⟩), by
        rw [hlive, ← hraw]; rfl⟩
    · split at hn
      · next hraw => exact ⟨i, _, (getElem?_start hi).mpr (.inr (.inl ⟨rfl, rfl⟩)), hraw⟩
      · next hraw =>
        obtain ⟨k, z, hk, rfl⟩ := h.known raw n hn
        have hne : k ≠ i := by
          rintro rfl
          obtain rfl := Option.some.inj (hi.symm.trans hk)
          exact hraw rfl
        exact ⟨k, z, (getElem?_start hi).mpr (.inr (.inr ⟨hne, hk⟩)), rfl⟩
  · rcases (getElem?_start hi).mp hk with ⟨rfl, rfl⟩ | ⟨rfl, rfl⟩ | ⟨-, hk⟩
    · rw [hlive, ThreadId.position_child, h.position i x hi]
    · exact h.position k x hi
    · exact h.position k z hk
  · rcases (getElem?_start hi).mp hk with ⟨rfl, rfl⟩ | ⟨rfl, rfl⟩ | ⟨-, hk⟩
    · rw [h.recording]
    · exact h.recorded k x hi
    · exact h.recorded k z hk

end Aligned

end Roster

/-! ## Moves -/

namespace Crew

variable {s : Script} {c : Crew} {i : Nat} {w w' : Worker} {site' : Site}

/-- A thread that stays who it is leaves the roster as it is. -/
theorem roster_set (hi : c.workers[i]? = some w) (hstanding : w'.standing = w.standing)
    (hrecording : site'.engine.recording = c.site.engine.recording)
    (hthreads : site'.engine.threads = c.site.engine.threads)
    (hnext : site'.nextRaw = c.site.nextRaw) :
    roster ⟨site', c.workers.setIfInBounds i w'⟩ = c.roster := by
  have hsame : (c.workers.setIfInBounds i w').toList.map Worker.standing =
      c.workers.toList.map Worker.standing := by
    refine List.ext_getElem? fun k => ?_
    simp only [List.getElem?_map, Array.getElem?_toList, getElem?_set hi]
    split
    · next hik =>
      subst hik
      rw [hi, Option.map_some, Option.map_some, hstanding]
    · rfl
  rw [roster, roster, hrecording, hthreads, hnext, hsame]

/-- **A move starts a thread with the next free id, or leaves the roster as it is**, if the script
gives no ids. -/
theorem roster_move
    (hraws : ∀ (position : Position) (m : Member), s[position]? = some m → m.raw = none)
    (c : Crew) (i : Nat) : (c.move s i).roster = c.roster ∨
      ∃ w, c.workers[i]? = some w ∧ (c.move s i).roster = c.roster.start i w.standing := by
  unfold move
  cases hi : c.workers[i]? with
  | none => exact .inl rfl
  | some w =>
    by_cases hin : w.caller.stage = .outside
    · simp only [Worker.move, if_neg (not_not.mpr hin)]
      cases hmaking : w.making with
      | some r =>
        refine .inl ?_
        cases hkind : r.kind <;> simp only [Worker.touch, hkind] <;>
          exact roster_set hi rfl rfl rfl rfl
      | none =>
        cases hchild : s[w.nextChild]? with
        | some child =>
          refine .inr ⟨w, rfl, ?_⟩
          have hraw : child.raw = none := hraws _ child hchild
          obtain ⟨hlive, hrecorded⟩ := c.site.engine.threadStarted_snd w.caller.who.live.raw
            ⟨c.site.nextRaw, child.name⟩
          simp only [roster, Roster.start, Worker.startChild, hraw, Option.getD_none,
            Option.isSome_none, Bool.false_eq_true, if_false, Option.elim_some, Array.toList_push,
            Array.toList_setIfInBounds, List.map_append, List.map_set, List.map_cons, List.map_nil,
            Engine.recording_threadStarted, Engine.threads_threadStarted, Worker.standing,
            Worker.atStart, Worker.nextChild, hlive, hrecorded]
        | none =>
          refine .inl ?_
          cases htodo : w.todo <;> exact roster_set hi rfl rfl rfl rfl
    · -- a step in a hook
      have heffect := Engine.effect_step c.site.engine w.caller
      simp only [Worker.move, if_pos hin]
      refine .inl (roster_set hi ?_ (congrArg Engine.Setting.recording heffect.setting)
        (congrArg Engine.Setting.threads heffect.setting) rfl)
      simp only [Worker.standing, heffect.live, heffect.recorded]

theorem length_threads_roster (c : Crew) : c.roster.threads.length = c.workers.size := by
  simp [roster]

theorem getElem?_threads_roster (hi : c.workers[i]? = some w) :
    c.roster.threads[i]? = some w.standing := by
  simp [roster, hi]

variable {r : Recording}

/-- A thread of an aligned crew has its place in the live spawn tree, and the recorded thread at
that place. -/
theorem worker_of_aligned (h : Roster.Aligned r c.roster) (hi : c.workers[i]? = some w) :
    c.site.engine.threads.find? w.caller.who.live.raw = some w.caller.who.live ∧
      w.caller.who.live.position = w.position ∧
      w.caller.who.recorded = (r.threadAt? w.position).map ThreadId.raw := by
  have hstanding := getElem?_threads_roster hi
  have hlive : w.caller.who.live.position = w.position := h.position i _ hstanding
  exact ⟨SpawnTree.find?_of_getElem? (h.node i _ hstanding), hlive,
    hlive ▸ h.recorded i _ hstanding⟩

/-- A replay that has begun in the thread with the first id is aligned with the crew's first
thread. -/
theorem aligned_atStart {e : Engine} {past : Archive} {checksum : UInt32} {budget : Budget}
    {observer : Option Observer} (root : AnnouncedThread) (hroot : root.raw = 1)
    (hrecording : e.recording = r)
    (hthreads : e.threads = (Engine.start past r checksum root budget observer).threads) :
    Roster.Aligned r (atStart s e).roster := by
  have hembedded : Replay.Embedded r
    (Replay.opening past r checksum root budget observer) := Replay.embedded_opening r
  have hrecorded : e.threads.recordedOf? e.threads.rootId.raw =
      SpawnTree.counterpart? r e.threads.rootId := by
    rw [hthreads]
    exact hembedded.placed_root.recorded
  obtain ⟨counterparts, journal, recorded, hstart⟩ :=
    Engine.start_eq past r checksum root budget observer
  have htree : e.threads = { SpawnTree.ofRoot 1 with counterparts } := by
    rw [hthreads, hstart, hroot]
  have hid : e.threads.rootId = .root 1 := by
    rw [htree]
    simp [SpawnTree.rootId, SpawnTree.rootNode, SpawnTree.ofRoot]
  have hroster : (atStart s e).roster = ⟨e.recording, e.threads, 2,
      [⟨[], 0, e.threads.rootId, e.threads.recordedOf? e.threads.rootId.raw⟩]⟩ := rfl
  rw [hroster, hrecorded, hid, hrecording, htree]
  exact .ofRoot r counterparts

/-- **Every run keeps the roster aligned**, as long as there are runtime ids left. -/
theorem aligned_moveAll
    (hraws : ∀ (position : Position) (m : Member), s[position]? = some m → m.raw = none)
    (h : Roster.Aligned r c.roster) (moves : List Nat)
    (hfew : (c.moveAll s moves).workers.size ≤ UInt64.size) :
    Roster.Aligned r (c.moveAll s moves).roster := by
  induction moves using List.reverseRecOn with
  | nil => exact h
  | append_singleton moves i ih =>
    rw [moveAll_concat] at hfew ⊢
    have hbefore := ih (Nat.le_trans (size_le_size_move s _ i) hfew)
    rcases roster_move hraws (c.moveAll s moves) i with hsame | ⟨w, hi, hstart⟩
    · rwa [hsame]
    · have hsize : (c.moveAll s moves).roster.threads.length + 1 =
          ((c.moveAll s moves).move s i).workers.size := by
        rw [← length_threads_roster, hstart]
        simp [Roster.start]
      rw [hstart]
      exact hbefore.start (getElem?_threads_roster hi) (by omega)

end Crew
end AccessReplay
