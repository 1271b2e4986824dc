import AccessReplay.Proofs.AgentCalls
import AccessReplay.Proofs.CheckedDecisions
import AccessReplay.Proofs.CrewMoves
import AccessReplay.Simulation

/-!
# What a simulation checks

The threads of a simulation move in any order.  What each of them decides on its accesses is
logged (`Crew.decided`), and what it has not decided yet is left of its program (`Follows`).  So
each recorded thread decides on its recorded accesses in order, and when all threads are done,
every recorded access was checked against the accesses recorded at its location, or was not
listed (`listed_accesses_checked`).  That all threads are done in the end is in
`AccessReplay.Proofs.CrewMoves`.

This takes a recording whose objects have one class each.  An object is created with the class of
its last location, so if another location of it was recorded with a class of its own, an access
there is asked for under the wrong class, and may pass unchecked although it is listed
(`listed_write_unchecked`).
-/
namespace AccessReplay

open Plan (PlacedAccess placed)

namespace Worker

variable {s : Script} {w : Worker}

/-- The accesses that a thread has to decide on: the one that it announced, and all that it has
not begun. -/
def undecided (w : Worker) : List Request := w.caller.stage.undecided ++ w.todo

/-- A thread that is done has nothing left to decide on. -/
theorem undecided_of_isDone (h : w.isDone s = true) : w.undecided = [] := by
  obtain ⟨hstage, -, htodo, -⟩ := isDone_iff.mp h
  rw [undecided, hstage, htodo]
  rfl

end Worker

namespace Crew

variable {s : Script} {c c' : Crew} {i j : Nat} {w w' : Worker} {site' : Site}

/-- Decisions of threads on accesses, each with the thread. -/
abbrev Log := List (Nat × Request × Option LocationRef)

/-- What the next move of a thread decides. -/
def decides (c : Crew) (i : Nat) : List (Request × Option LocationRef) :=
  c.workers[i]?.elim [] fun w => c.site.engine.decision w.caller

/-- What moves of threads decide, in order. -/
def decided (s : Script) (c : Crew) : List Nat → Log
  | [] => []
  | i :: moves => (c.decides i).map (i, ·) ++ decided s (c.move s i) moves

/-- The decisions of one thread. -/
def Log.of (log : Log) (i : Nat) : List (Request × Option LocationRef) :=
  (log.filter (·.1 = i)).map Prod.snd

theorem decided_concat (moves : List Nat) (i : Nat) : decided s c (moves ++ [i]) =
    decided s c moves ++ ((c.moveAll s moves).decides i).map (i, ·) := by
  induction moves generalizing c with
  | nil => simp [decided, moveAll]
  | cons j moves ih => simp [decided, moveAll, ih]

/-! ## Following the plan -/

/-- A crew has a thread at a place. -/
def At (workers : Array Worker) (position : Position) : Prop :=
  ∃ (i : Nat) (w : Worker), workers[i]? = some w ∧ w.position = position

theorem At.set {position : Position} (h : At c.workers position) (hi : c.workers[i]? = some w)
    (hposition : w'.position = w.position) : At (c.workers.setIfInBounds i w') position := by
  obtain ⟨j, v, hj, hv⟩ := h
  by_cases hij : i = j
  · subst hij
    obtain rfl := Option.some.inj (hi.symm.trans hj)
    exact ⟨i, w', by rw [getElem?_set hi, if_pos rfl], hposition.trans hv⟩
  · exact ⟨j, v, by rw [getElem?_set hi, if_neg hij, hj], hv⟩

theorem At.push {position : Position} (h : At c.workers position) (new : Worker) :
    At (c.workers.push new) position := by
  obtain ⟨j, v, hj, hv⟩ := h
  exact ⟨j, v, getElem?_push_of_some hj new, hv⟩

/-- A thread that is started comes last, so its parent's turn may as well be noted after it. -/
theorem push_set (hi : c.workers[i]? = some w) (w' new : Worker) :
    (c.workers.setIfInBounds i w').push new = (c.workers.push new).setIfInBounds i w' := by
  obtain ⟨hlt, -⟩ := Array.getElem?_eq_some_iff.mp hi
  refine Array.ext_getElem? fun j => ?_
  grind

variable {r : Recording} {p : Plan} {n : Nat} {log : Log}
  {ds : List (Request × Option LocationRef)}

/-- Where an access to a recorded location is checked, if it is. -/
def checkedAt (r : Recording) (n : Nat) (key : LocationKey) : Option LocationRef :=
  if r.listed key then some ⟨n, key⟩ else none

/-- What is true of a crew that carries out a plan, and of the decisions it has made. -/
structure Follows (r : Recording) (p : Plan) (n : Nat) (c : Crew) (log : Log) : Prop where
  hosts : c.site.engine.Hosts r n
  scripted : ∀ (i : Nat) (w : Worker), c.workers[i]? = some w → w.position ∈ p.script
  chosen : ∀ (i : Nat) (w : Worker), c.workers[i]? = some w → Engine.Chosen r w.caller.stage
  /-- A thread has decided on the first part of its program. -/
  accounted : ∀ (i : Nat) (w : Worker), c.workers[i]? = some w →
    p.program w.position = (log.of i).map Prod.fst ++ w.undecided
  /-- Recorded accesses are checked where they were recorded, if that is listed. -/
  answered : ∀ x ∈ log, ∀ a ∈ placed r.accesses, x.2.1 = p.request a →
    x.2.2 = checkedAt r n a.1
  present : ∀ x ∈ log, ∀ ref, x.2.2 = some ref →
    ref.edition = n ∧ ∃ l, c.site.engine.memory.find? ref = some l
  known : ∀ x ∈ log, x.1 < c.workers.size
  rooted : At c.workers []
  started : ∀ (i : Nat) (w : Worker), c.workers[i]? = some w → ∀ k < w.started,
    At c.workers (w.position ++ [UInt32.ofNat k])

theorem Log.of_append (log log' : Log) (i : Nat) :
    Log.of (log ++ log') i = log.of i ++ log'.of i := by
  simp [Log.of]

theorem Log.of_map_self (ds : List (Request × Option LocationRef)) (i : Nat) :
    Log.of (ds.map (i, ·)) i = ds := by
  simp [Log.of, List.filter_map, Function.comp_def]

theorem Log.of_map_of_ne (ds : List (Request × Option LocationRef)) (h : i ≠ j) :
    Log.of (ds.map (i, ·)) j = [] := by
  simp [Log.of, List.filter_map, Function.comp_def, h]

theorem Log.mem_append {x : Nat × Request × Option LocationRef}
    (hx : x ∈ log ++ ds.map (i, ·)) : x ∈ log ∨ x.1 = i ∧ x.2 ∈ ds := by
  rcases List.mem_append.mp hx with hx | hx
  · exact .inl hx
  · obtain ⟨d, hd, rfl⟩ := List.mem_map.mp hx
    exact .inr ⟨rfl, hd⟩

/-- A move of a thread that stays at its place keeps to the plan, if the replay goes on and the
thread decides on what it has to decide on next. -/
theorem Follows.turn (h : Follows r p n c log) (hi : c.workers[i]? = some w)
    (hhosts : site'.engine.Hosts r n)
    (hkeep : ∀ ref, (∃ l, c.site.engine.memory.find? ref = some l) →
      ∃ l, site'.engine.memory.find? ref = some l)
    (hposition : w'.position = w.position)
    (hundecided : w.undecided = ds.map Prod.fst ++ w'.undecided)
    (hchosen : Engine.Chosen r w'.caller.stage)
    (hanswered : ∀ x ∈ ds, ∀ a ∈ placed r.accesses, x.1 = p.request a → x.2 = checkedAt r n a.1)
    (hpresent : ∀ x ∈ ds, ∀ ref, x.2 = some ref →
      ref.edition = n ∧ ∃ l, site'.engine.memory.find? ref = some l)
    (hstarted : ∀ k < w'.started, At c.workers (w.position ++ [UInt32.ofNat k])) :
    Follows r p n ⟨site', c.workers.setIfInBounds i w'⟩ (log ++ ds.map (i, ·)) where
  hosts := hhosts
  scripted j v hv := by
    rcases worker_of_set hi hv with ⟨rfl, rfl⟩ | ⟨-, hv⟩
    · rw [hposition]
      exact h.scripted j w hi
    · exact h.scripted j v hv
  chosen j v hv := by
    rcases worker_of_set hi hv with ⟨rfl, rfl⟩ | ⟨-, hv⟩
    · exact hchosen
    · exact h.chosen j v hv
  accounted j v hv := by
    rcases worker_of_set hi hv with ⟨rfl, rfl⟩ | ⟨hne, hv⟩
    · rw [hposition, Log.of_append, Log.of_map_self, List.map_append, List.append_assoc,
        ← hundecided]
      exact h.accounted j w hi
    · rw [Log.of_append, Log.of_map_of_ne ds (Ne.symm hne), List.append_nil]
      exact h.accounted j v hv
  answered x hx a ha hxa := by
    rcases Log.mem_append hx with hx | ⟨-, hx⟩
    · exact h.answered x hx a ha hxa
    · exact hanswered x.2 hx a ha hxa
  present x hx ref href := by
    rcases Log.mem_append hx with hx | ⟨-, hx⟩
    · exact (h.present x hx ref href).imp_right (hkeep ref)
    · exact hpresent x.2 hx ref href
  known x hx := by
    obtain ⟨hlt, -⟩ := Array.getElem?_eq_some_iff.mp hi
    rw [Array.size_setIfInBounds]
    rcases Log.mem_append hx with hx | ⟨hx, -⟩
    · exact h.known x hx
    · rwa [hx]
  rooted := h.rooted.set hi hposition
  started j v hv k hk := by
    rcases worker_of_set hi hv with ⟨rfl, rfl⟩ | ⟨-, hv⟩
    · rw [hposition]
      exact (hstarted k hk).set hi hposition
    · exact (h.started j v hv k hk).set hi hposition

/-- A thread that is started has its whole program left. -/
theorem Follows.push (h : Follows r p n c log) (hhosts : site'.engine.Hosts r n)
    (hmemory : site'.engine.memory = c.site.engine.memory) {position : Position}
    (hposition : position ∈ p.script) (who : Participant) :
    Follows r p n ⟨site', c.workers.push (.atStart p.script position who)⟩ log where
  hosts := hhosts
  scripted j v hv := by
    rcases worker_of_push hv with ⟨-, rfl⟩ | hv
    · exact hposition
    · exact h.scripted j v hv
  chosen j v hv := by
    rcases worker_of_push hv with ⟨-, rfl⟩ | hv
    · intro q hq
      cases hq
    · exact h.chosen j v hv
  accounted j v hv := by
    rcases worker_of_push hv with ⟨rfl, rfl⟩ | hv
    · -- no thread had its number before
      have hnone : log.of c.workers.size = [] := by
        simp only [Log.of, List.map_eq_nil_iff, List.filter_eq_nil_iff, decide_eq_true_eq]
        exact fun x hx => Nat.ne_of_lt (h.known x hx)
      rw [hnone]
      exact (Plan.program_script hposition).symm
    · exact h.accounted j v hv
  answered := h.answered
  present x hx ref href := by
    rw [hmemory]
    exact h.present x hx ref href
  known x hx := by
    rw [Array.size_push]
    exact Nat.lt_succ_of_lt (h.known x hx)
  rooted := h.rooted.push _
  started j v hv k hk := by
    rcases worker_of_push hv with ⟨-, rfl⟩ | hv
    · cases hk
    · exact (h.started j v hv k hk).push _

/-- A thread that starts another one keeps to the plan. -/
theorem Follows.starts (h : Follows r p n c log) (hi : c.workers[i]? = some w)
    (hchild : w.nextChild ∈ p.script) (parent : RuntimeId) (child : AnnouncedThread)
    (who : Participant) (nextRaw : RuntimeId) :
    Follows r p n
      ⟨{ c.site with engine := (c.site.engine.threadStarted parent child).1, nextRaw },
        (c.workers.setIfInBounds i { w with started := w.started + 1 }).push
          (.atStart p.script w.nextChild who)⟩ log := by
  obtain ⟨counterparts, journal, recorded, hstart⟩ := c.site.engine.threadStarted_eq parent child
  have hhosts : (c.site.engine.threadStarted parent child).1.Hosts r n :=
    h.hosts.of_same (by rw [hstart]) (by rw [hstart]) (by rw [hstart])
  have hpush : Follows r p n
      ⟨{ c.site with engine := (c.site.engine.threadStarted parent child).1, nextRaw },
        c.workers.push (.atStart p.script w.nextChild who)⟩ log :=
    h.push hhosts (by rw [hstart]) hchild who
  have hi' : (c.workers.push (.atStart p.script w.nextChild who))[i]? = some w :=
    getElem?_push_of_some hi _
  have hstarted : ∀ k < w.started + 1, At (c.workers.push (.atStart p.script w.nextChild who))
      (w.position ++ [UInt32.ofNat k]) := by
    intro k hk
    rcases Nat.lt_succ_iff_lt_or_eq.mp hk with hk | rfl
    · exact (h.started i w hi k hk).push _
    · exact ⟨c.workers.size, _, Array.getElem?_push_size, rfl⟩
  have hnothing : log = log ++ ([] : List (Request × Option LocationRef)).map (i, ·) := by simp
  rw [push_set hi, hnothing]
  exact hpush.turn hi' hhosts (fun ref href => href) rfl rfl (h.chosen i w hi) nofun nofun hstarted

/-- A thread decides on an access only in a hook. -/
theorem decides_of_outside (hi : c.workers[i]? = some w) (hout : w.caller.stage = .outside) :
    c.decides i = [] := by
  rw [decides, hi, Option.elim_some, Engine.decision, hout]
  rfl

/-- **Every move keeps to the plan.** -/
theorem Follows.move (h : Follows r p n c log) (hp : Plan.Made r p) (hone : r.OneClass) (i : Nat) :
    Follows r p n (c.move p.script i) (log ++ (c.decides i).map (i, ·)) := by
  have hmoved := moved p.script c i
  generalize c.move p.script i = c' at hmoved ⊢
  cases hmoved with
  | nothing hdone =>
    have hnone : c.decides i = [] := by
      cases hi : c.workers[i]? with
      | none => rw [decides, hi]; rfl
      | some w => exact decides_of_outside hi (Worker.isDone_iff.mp (hdone w hi)).1
    rwa [hnone, List.map_nil, List.append_nil]
  | @steps w hi hin =>
    have hdecides : c.decides i = c.site.engine.decision w.caller := by
      rw [decides, hi, Option.elim_some]
    rw [hdecides]
    refine h.turn hi (h.hosts.step w.caller) (fun ref => Engine.exists_find?_step w.caller) rfl ?_
      (h.hosts.chosen_step w.caller)
      (fun x hx a ha hxa => h.hosts.decision_eq hp hone ha (h.chosen i w hi) hx hxa)
      (fun x hx ref => h.hosts.find?_of_decision hx) (h.started i w hi)
    rw [Worker.undecided, Engine.undecided_step, List.append_assoc]
    rfl
  | @touches w w' q site' hi hout _ hengine hposition hstarted htodo _ hnext =>
    rw [decides_of_outside hi hout]
    refine h.turn hi (by rw [hengine]; exact h.hosts) (fun ref href => by rwa [hengine]) hposition
      ?_ (by rw [hnext]; exact nofun) nofun nofun (hstarted ▸ h.started i w hi)
    rw [Worker.undecided, Worker.undecided, hout, htodo, hnext]
    rfl
  | @begins w q todo hi hout _ htodo =>
    rw [decides_of_outside hi hout]
    refine h.turn hi h.hosts (fun ref href => href) rfl ?_ nofun nofun nofun (h.started i w hi)
    rw [Worker.undecided, hout, htodo]
    rfl
  | starts hi hout hchild =>
    rw [decides_of_outside hi hout, List.map_nil, List.append_nil]
    exact h.starts hi hchild ..

theorem Follows.moveAll (h : Follows r p n c []) (hp : Plan.Made r p) (hone : r.OneClass)
    (moves : List Nat) :
    Follows r p n (c.moveAll p.script moves) (c.decided p.script moves) := by
  induction moves using List.reverseRecOn with
  | nil => exact h
  | append_singleton moves i ih =>
    rw [moveAll_concat, decided_concat]
    exact ih.move hp hone i

theorem follows_atStart {e : Engine} (h : e.Hosts r n) : Follows r p n (atStart p.script e) [] where
  hosts := h
  scripted i w hw := by
    rw [worker_atStart hw]
    exact Plan.mem_script_iff.mpr (.inl rfl)
  chosen i w hw := by
    rw [worker_atStart hw]
    intro q hq
    cases hq
  accounted i w hw := by
    rw [worker_atStart hw]
    exact (Plan.program_script (Plan.mem_script_iff.mpr (.inl rfl))).symm
  answered := nofun
  present := nofun
  known := nofun
  rooted := ⟨0, _, rfl, rfl⟩
  started i w hw := by
    rw [worker_atStart hw]
    exact nofun

/-- When all threads are done, there was one at the place of each recorded thread, if there was
one at each place that a thread is started for. -/
theorem at_of_isDone (hrooted : At c.workers [])
    (hstarted : ∀ (i : Nat) (w : Worker), c.workers[i]? = some w → ∀ k < w.started,
      At c.workers (w.position ++ [UInt32.ofNat k]))
    (hp : Plan.Made r p) (hr : r.Rooted) (hdone : c.isDone p.script = true) {t : ThreadId}
    (ht : t ∈ r.threads) : At c.workers t.position := by
  induction t with
  | root raw => exact hrooted
  | child parent raw index ih =>
    obtain ⟨i, w, hi, hw⟩ := ih (hr.parent_mem _ ht parent rfl)
    obtain ⟨count, hcount, hlt⟩ :=
      Plan.reaches_children hp ht parent.position index (ThreadId.position_child ..)
    obtain ⟨-, -, -, hlast⟩ := Worker.isDone_iff.mp (isDone_worker hdone hi)
    -- a parent that is done has started all threads that the plan has for its place
    have hall : ¬w.started < count.toNat := fun hmore => by
      refine hlast (Plan.mem_script_concat.mpr ⟨count, hw ▸ hcount, ?_⟩)
      rwa [UInt32.toNat_ofNat_of_lt' (Nat.lt_trans hmore count.toNat_lt_size)]
    have hat := hstarted i w hi index.toNat (by omega)
    rwa [hw, UInt32.ofNat_toNat] at hat

theorem Follows.at_of_isDone (h : Follows r p n c log) (hp : Plan.Made r p) (hr : r.Rooted)
    (hdone : c.isDone p.script = true) {t : ThreadId} (ht : t ∈ r.threads) :
    At c.workers t.position :=
  Crew.at_of_isDone h.rooted h.started hp hr hdone ht

theorem eq_map_of_map_fst {f : PlacedAccess → Option LocationRef} {made : List PlacedAccess}
    (h : ds.map Prod.fst = made.map p.request)
    (hf : ∀ d ∈ ds, ∀ a ∈ made, d.1 = p.request a → d.2 = f a) :
    ds = made.map fun a => (p.request a, f a) := by
  induction made generalizing ds with
  | nil => simpa using h
  | cons a made ih =>
    obtain ⟨d, ds, rfl, hd, hds⟩ := List.map_eq_cons_iff.mp h
    rw [List.map_cons, ← hd, ← hf d List.mem_cons_self a List.mem_cons_self hd,
      ← ih hds fun d' hd' a' ha' =>
        hf d' (List.mem_cons_of_mem _ hd') a' (List.mem_cons_of_mem _ ha')]

/-- A thread at a recorded place decides on the recorded accesses of its thread, in order. -/
theorem Follows.decisions (h : Follows r p n c log) (hp : Plan.ofRecording r = .ok p)
    (ha : r.Accepted) {t : ThreadId} (ht : t ∈ r.threads) (hi : c.workers[i]? = some w)
    (hw : w.position = t.position) :
    ∃ made left, Plan.recordedBy r t.raw = made ++ left ∧
      log.of i = made.map (fun a => (p.request a, checkedAt r n a.1)) ∧
      w.undecided = left.map p.request := by
  have hprogram := h.accounted i w hi
  rw [hw, Plan.program_position hp ha ht] at hprogram
  obtain ⟨made, left, hsplit, hmade, hleft⟩ := List.map_eq_append_iff.mp hprogram
  refine ⟨made, left, hsplit, eq_map_of_map_fst hmade.symm fun d hd a hmem => ?_, hleft.symm⟩
  obtain ⟨x, hx, rfl⟩ := List.mem_map.mp hd
  have hrecorded : a ∈ Plan.recordedBy r t.raw := hsplit ▸ List.mem_append_left left hmem
  exact h.answered x (List.mem_of_mem_filter hx) a (Plan.mem_recordedBy.mp hrecorded).1

end Crew

/-- The places of a plan's script have no more children than the plan says. -/
theorem Plan.fewChildren_script (p : Plan) : p.script.FewChildren := by
  intro q
  cases hq : p.children[q]? with
  | none =>
    refine ⟨0, by decide, fun hmem => ?_⟩
    obtain ⟨count, hcount, -⟩ := mem_script_concat.mp hmem
    cases hq.symm.trans hcount
  | some count =>
    refine ⟨count.toNat, count.toNat_lt_size, fun hmem => ?_⟩
    obtain ⟨count', hcount, hlt⟩ := mem_script_concat.mp hmem
    obtain rfl := Option.some.inj (hq.symm.trans hcount)
    rw [UInt32.ofNat_toNat] at hlt
    exact Nat.lt_irrefl _ hlt

namespace Simulation

/-- The agent of a simulation, before it is started. -/
def agent (s : Simulation) : Agent := { config := s.config, observer := some fun _ => true }

/-- The replay of a simulation when all objects of the plan are created. -/
def created (s : Simulation) (contents : Except FileFault (List UInt8)) (t : Trace) (p : Plan) :
    Engine :=
  p.objects.foldl Engine.objectCreated (s.agent.begun contents rootThread t)

/-- The crew that carries out a plan, when all objects are created. -/
def crew (s : Simulation) (contents : Except FileFault (List UInt8)) (t : Trace) (p : Plan) :
    Crew := .atStart p.script (s.created contents t p)

variable {s : Simulation} {contents : Except FileFault (List UInt8)} {t : Trace} {p : Plan}

/-- A simulation is a run of its crew, to the end. -/
theorem exists_moves_act (hload : Trace.load s.config.dumpPath contents = .ok t) (p : Plan) :
    ∃ moves, (act p (s.agent.startup contents rootThread).1).engine =
        some ((s.crew contents t p).moveAll p.script moves).site.engine ∧
      ((s.crew contents t p).moveAll p.script moves).isDone p.script = true := by
  obtain ⟨moves, hmoves⟩ : ∃ moves, Crew.perform p.script (s.created contents t p) =
    (s.crew contents t p).moveAll p.script moves := Crew.exists_moves ..
  refine ⟨moves, ?_, hmoves ▸ Crew.isDone_perform p.fewChildren_script _⟩
  rw [Agent.startup_of_ok rfl hload, ← hmoves]
  rfl

theorem hosts_created (hp : Plan.Made t.recording p) (hone : t.recording.OneClass) :
    (s.created contents t p).Hosts t.recording 1 :=
  Engine.hosts_created hp hone (Archive.bounded_empty.notes _) ..

/-- **A simulation checks just the listed accesses.**  Let all locations of one object have one
class, and let the threads of a simulation move in any order; a simulation that is carried out
is one such run, until all threads are done.  A thread at the place of a recorded one decides on
the accesses that were recorded of it, in order: each is checked at its own location if the
catalogue lists that, and otherwise is not checked.  Other threads decide on nothing.  A location
that an access is checked at has the schedule of the accesses recorded at it.  And when all
threads are done, every recorded access was decided on. -/
theorem listed_accesses_checked {d : Dump} (hd : Recording.ofDump d = .ok t.recording)
    (hp : Plan.ofRecording t.recording = .ok p) (hone : t.recording.OneClass) (s : Simulation)
    (contents : Except FileFault (List UInt8)) :
    (Trace.load s.config.dumpPath contents = .ok t → ∃ moves,
      (act p (s.agent.startup contents rootThread).1).engine =
        some ((s.crew contents t p).moveAll p.script moves).site.engine ∧
      ((s.crew contents t p).moveAll p.script moves).isDone p.script = true) ∧
    ∀ moves, let c := (s.crew contents t p).moveAll p.script moves
      let log := (s.crew contents t p).decided p.script moves
      (∀ thread ∈ t.recording.threads, ∀ (i : Nat) (w : Worker), c.workers[i]? = some w →
        w.position = thread.position →
        ∃ made left, Plan.recordedBy t.recording thread.raw = made ++ left ∧
          log.of i = made.map (fun a => (p.request a, Crew.checkedAt t.recording 1 a.1)) ∧
          w.undecided = left.map p.request) ∧
      (∀ (i : Nat) (w : Worker), c.workers[i]? = some w →
        (∀ thread ∈ t.recording.threads, thread.position ≠ w.position) → log.of i = []) ∧
      (∀ x ∈ log, ∀ ref, x.2.2 = some ref → ∃ l, c.site.engine.memory.find? ref = some l ∧
        l.schedule = Schedule.ofEvents (t.recording.accesses.eventsAt ref.key)) ∧
      (c.isDone p.script = true → ∀ key, ∀ e ∈ t.recording.accesses.eventsAt key,
        ∃ thread ∈ t.recording.threads, (key, e) ∈ Plan.recordedBy t.recording thread.raw ∧
          ∃ (i : Nat) (w : Worker), c.workers[i]? = some w ∧ w.position = thread.position ∧
            log.of i = (Plan.recordedBy t.recording thread.raw).map
              fun a => (p.request a, Crew.checkedAt t.recording 1 a.1)) := by
  refine ⟨fun hload => exists_moves_act hload p, fun moves => ?_⟩
  intro c log
  have hmade := Plan.made_of_ofRecording hp
  have haccepted := Recording.accepted_ofDump hd
  have hfollows : Crew.Follows t.recording p 1 c log :=
    (Crew.follows_atStart (hosts_created hmade hone)).moveAll hmade hone moves
  refine ⟨fun thread ht i w hi hw => hfollows.decisions hp haccepted ht hi hw,
    fun i w hi hw => ?_, fun x hx ref href => ?_, fun hdone key e he => ?_⟩
  · have hprogram := hfollows.accounted i w hi
    rw [Plan.program_eq_nil hmade hw] at hprogram
    exact List.map_eq_nil_iff.mp (List.append_eq_nil_iff.mp hprogram.symm).1
  · obtain ⟨hedition, l, hl⟩ := hfollows.present x hx ref href
    exact ⟨l, hl, hfollows.hosts.recorded ref l hedition hl⟩
  · obtain ⟨thread, ht, hthread⟩ := List.mem_map.mp (haccepted.made_by key e he)
    obtain ⟨i, w, hi, hw⟩ :=
      hfollows.at_of_isDone hmade (Recording.rooted_ofDump hd) hdone ht
    obtain ⟨made, left, hsplit, hlog, hleft⟩ := hfollows.decisions hp haccepted ht hi hw
    have hnone : left = [] := by
      rw [Worker.undecided_of_isDone (Crew.isDone_worker hdone hi)] at hleft
      exact List.map_eq_nil_iff.mp hleft.symm
    rw [hnone, List.append_nil] at hsplit
    refine ⟨thread, ht, Plan.mem_recordedBy.mpr ⟨Plan.mem_placed.mpr he, hthread.symm⟩, i, w, hi,
      hw, ?_⟩
    rw [hlog, hsplit]

/-! ## Two runs -/

/-- Two threads write to the object that is created second: the one to its value, which is
listed, and the other one to its size, which is not. -/
def boxWrites : Dump where
  threads := [⟨1, []⟩, ⟨2, [0]⟩]
  sharedFields := (∅ : Catalogue).insert "Box" ((∅ : Std.ExtTreeSet String).insert "value")
  locations :=
    [⟨⟨1⟩, "Box", "value", [⟨1, .write, some 0⟩]⟩, ⟨⟨1⟩, "Box", "size", [⟨2, .write, some 1⟩]⟩]

/-- The trace of `boxWrites`. -/
def boxTrace : Trace where
  path := "dump.json"
  checksum := 0
  recording :=
    { root := .root 1
      others := [(ThreadId.root 1).child 2 0]
      catalogue := boxWrites.sharedFields
      accesses :=
        ((∅ : AccessLedger).insert ⟨⟨1⟩, "value"⟩ ⟨"Box", [⟨1, .write, some 0⟩]⟩).insert
          ⟨⟨1⟩, "size"⟩ ⟨"Box", [⟨2, .write, some 1⟩]⟩ }

/-- The plan of `boxWrites`. -/
def boxPlan : Plan where
  classes := #[Plan.unmentionedClass, "Box"]
  accesses := .ofList
    ([([], [⟨⟨1⟩, "value", .write⟩]), ([0], [⟨⟨1⟩, "size", .write⟩])] :
      List (Position × List SimulatedAccess))
  children := (∅ : Std.ExtTreeMap Position UInt32).insert [] 1

theorem ofDump_boxWrites : Recording.ofDump boxWrites = .ok boxTrace.recording := by
  rw [Recording.ofDump, Recording.growTree_of_pairwise (by decide)]
  rfl

theorem recordedBy_box : Plan.recordedBy boxTrace.recording 1 =
      [(⟨⟨1⟩, "value"⟩, ⟨1, .write, some 0⟩)] ∧
    Plan.recordedBy boxTrace.recording 2 = [(⟨⟨1⟩, "size"⟩, ⟨2, .write, some 1⟩)] := by
  constructor <;> rw [Plan.recordedBy, Plan.inOrder, List.mergeSort_of_pairwise (by decide)] <;>
    decide

theorem ofRecording_box : Plan.ofRecording boxTrace.recording = .ok boxPlan := by
  have hthreads : boxTrace.recording.threads.map
      (fun t => (t.position, Plan.accessesOf boxTrace.recording.accesses t.raw)) =
        [([], (Plan.recordedBy boxTrace.recording 1).map
            fun a => ⟨a.1.object, a.1.field, a.2.kind⟩),
          ([0], (Plan.recordedBy boxTrace.recording 2).map
            fun a => ⟨a.1.object, a.1.field, a.2.kind⟩)] := rfl
  have hlimit : boxTrace.recording.accesses.keys.find?
      (fun key => Plan.objectLimit ≤ key.object.number.toNat) = none := by decide
  rw [Plan.ofRecording, if_neg (by decide), hthreads, hlimit, recordedBy_box.1, recordedBy_box.2]
  rfl

theorem oneClass_box : boxTrace.recording.OneClass := by
  have hbox : ∀ (key : LocationKey) (l : RecordedLocation),
      boxTrace.recording.accesses[key]? = some l → l.className = "Box" := by
    intro key l hl
    simp only [boxTrace, Std.ExtTreeMap.getElem?_insert] at hl
    grind
  intro key key' l l' hl hl' _
  rw [hbox key l hl, hbox key' l' hl']

/-- The write to the size passes unchecked. -/
theorem unlisted_write_unchecked : Recording.ofDump boxWrites = .ok boxTrace.recording ∧
    Plan.ofRecording boxTrace.recording = .ok boxPlan ∧ boxTrace.recording.OneClass ∧
    let start := ({ config := { dumpPath := "dump.json" } } : Simulation).crew
      (.error .notFound) boxTrace boxPlan
    let moves := List.replicate 12 0 ++ List.replicate 40 1
    (start.moveAll boxPlan.script moves).isDone boxPlan.script = true ∧
    ∃ i, (start.decided boxPlan.script moves).of i =
      [(⟨⟨0x1010, "Box"⟩, "size", .write⟩, none)] := by
  refine ⟨ofDump_boxWrites, ofRecording_box, oneClass_box, ?_⟩
  intro start moves
  have hdone : (start.moveAll boxPlan.script moves).isDone boxPlan.script = true := by
    decide +kernel
  obtain ⟨-, hchecked⟩ := listed_accesses_checked ofDump_boxWrites ofRecording_box oneClass_box
    { config := { dumpPath := "dump.json" } } (.error .notFound)
  obtain ⟨-, -, -, hall⟩ := hchecked moves
  obtain ⟨thread, -, hmade, i, -, -, -, hlog⟩ :=
    hall hdone ⟨⟨1⟩, "size"⟩ ⟨2, .write, some 1⟩ (by decide)
  rw [← (Plan.mem_recordedBy.mp hmade).2] at hlog
  refine ⟨hdone, i, hlog.trans ?_⟩
  rw [recordedBy_box.2]
  decide

/-- Three writes to one object, whose last location was recorded with another class. -/
def mixedWrites : Dump where
  threads := [⟨1, []⟩]
  sharedFields :=
    ((∅ : Catalogue).insert "Box" ((∅ : Std.ExtTreeSet String).insert "a")).insert "Crate"
      (((∅ : Std.ExtTreeSet String).insert "b").insert "c")
  locations :=
    [⟨⟨0⟩, "Box", "a", [⟨1, .write, some 0⟩]⟩, ⟨⟨0⟩, "Box", "b", [⟨1, .write, some 1⟩]⟩,
      ⟨⟨0⟩, "Crate", "c", [⟨1, .write, some 2⟩]⟩]

/-- The trace of `mixedWrites`. -/
def mixedTrace : Trace where
  path := "dump.json"
  checksum := 0
  recording :=
    { root := .root 1
      others := []
      catalogue := mixedWrites.sharedFields
      accesses :=
        (((∅ : AccessLedger).insert ⟨⟨0⟩, "a"⟩ ⟨"Box", [⟨1, .write, some 0⟩]⟩).insert
          ⟨⟨0⟩, "b"⟩ ⟨"Box", [⟨1, .write, some 1⟩]⟩).insert
          ⟨⟨0⟩, "c"⟩ ⟨"Crate", [⟨1, .write, some 2⟩]⟩ }

/-- The plan of `mixedWrites`: the object is a crate. -/
def mixedPlan : Plan where
  classes := #["Crate"]
  accesses := .ofList
    ([([], [⟨⟨0⟩, "a", .write⟩, ⟨⟨0⟩, "b", .write⟩, ⟨⟨0⟩, "c", .write⟩])] :
      List (Position × List SimulatedAccess))
  children := ∅

theorem ofRecording_mixed : Plan.ofRecording mixedTrace.recording = .ok mixedPlan := by
  have hmade : Plan.accessesOf mixedTrace.recording.accesses 1 =
      [⟨⟨0⟩, "a", .write⟩, ⟨⟨0⟩, "b", .write⟩, ⟨⟨0⟩, "c", .write⟩] := by
    rw [Plan.accessesOf, Plan.inOrder, List.mergeSort_of_pairwise (by decide)]
    decide
  have hthreads : mixedTrace.recording.threads.map
      (fun t => (t.position, Plan.accessesOf mixedTrace.recording.accesses t.raw)) =
        [([], Plan.accessesOf mixedTrace.recording.accesses 1)] := rfl
  have hlimit : mixedTrace.recording.accesses.keys.find?
      (fun key => Plan.objectLimit ≤ key.object.number.toNat) = none := by decide
  rw [Plan.ofRecording, if_neg (by decide), hthreads, hlimit, hmade]
  rfl

/-- **A write to a listed location passes unchecked**, because its object is created with the
class of another location, and one that is not listed is checked. -/
theorem listed_write_unchecked : Recording.ofDump mixedWrites = .ok mixedTrace.recording ∧
    Plan.ofRecording mixedTrace.recording = .ok mixedPlan ∧
    mixedTrace.recording.listed ⟨⟨0⟩, "a"⟩ = true ∧
    mixedTrace.recording.listed ⟨⟨0⟩, "b"⟩ = false ∧
    let start := ({ config := { dumpPath := "dump.json" } } : Simulation).crew
      (.error .notFound) mixedTrace mixedPlan
    let moves := List.replicate 40 0
    (start.moveAll mixedPlan.script moves).isDone mixedPlan.script = true ∧
    start.decided mixedPlan.script moves =
      [(0, ⟨⟨0x1000, "Crate"⟩, "a", .write⟩, none),
        (0, ⟨⟨0x1000, "Crate"⟩, "b", .write⟩, some ⟨1, ⟨⟨0⟩, "b"⟩⟩),
        (0, ⟨⟨0x1000, "Crate"⟩, "c", .write⟩, some ⟨1, ⟨⟨0⟩, "c"⟩⟩)] := by
  refine ⟨?_, ofRecording_mixed, by decide, by decide, ?_⟩
  · rw [Recording.ofDump, Recording.growTree_of_pairwise (by decide)]
    rfl
  · decide +kernel

end Simulation
end AccessReplay
