import AccessReplay.Proofs.CrewRosters
import AccessReplay.Proofs.PlannedAccesses
import AccessReplay.Proofs.SelfCheck

/-!
# Where simulated threads land

A simulated thread is given its place by the thread that starts it, and the replay counts the
children of each thread by itself.  Whatever order the threads are started in, they agree
(`threads_land`): each thread is at its place in the live spawn tree, so it replays the recorded
thread whose accesses the plan has it make.  Child indices that were not recorded are taken by
threads with nothing to do, which is what keeps their later siblings at their places.

Three things are kept by every move: no place is taken twice (`Crew.Paced`), each thread goes
through its program and has its children at their places (`Crew.Staffed`), and the roster is aligned
with the replay (`Roster.Aligned`).
-/
namespace AccessReplay

/-- A thread has begun the first accesses of a program, and whatever it is at belongs to the last
one of these. -/
def Worker.Pursues (w : Worker) (program : List Request) : Prop :=
  ∃ begun, program = begun ++ w.todo ∧
    (∀ request, w.making = some request → begun.getLast? = some request) ∧
    (w.caller.stage ≠ .outside → begun ≠ [])

namespace Crew

variable {s : Script} {c : Crew} {i : Nat} {w w' : Worker} {site' : Site} {m n : Nat}

/-! ## Runs -/

/-- A thread that is done does not move any more. -/
theorem move_of_isDone (hdone : ∀ w, c.workers[i]? = some w → w.isDone s = true) :
    c.move s i = c := by
  have hmoved := moved s c i
  generalize c.move s i = c' at hmoved ⊢
  cases hmoved with
  | nothing => rfl
  | steps hi hin => exact absurd (Worker.isDone_iff.mp (hdone _ hi)).1 hin
  | touches hi _ hmaking =>
    cases hmaking.symm.trans (Worker.isDone_iff.mp (hdone _ hi)).2.1
  | begins hi _ _ htodo => cases htodo.symm.trans (Worker.isDone_iff.mp (hdone _ hi)).2.2.1
  | starts hi _ hchild => exact absurd hchild (Worker.isDone_iff.mp (hdone _ hi)).2.2.2

/-- Whoever moves, a crew keeps its pace. -/
theorem exists_paced (hs : s.FewChildren) (e : Engine) (moves : List Nat) :
    ∃ n, Paced s e.budget.maxRetries ((atStart s e).moveAll s moves) n := by
  induction moves using List.reverseRecOn with
  | nil => exact ⟨0, .atStart s rfl⟩
  | append_singleton moves i ih =>
    obtain ⟨n, hn⟩ := ih
    rw [moveAll_concat]
    by_cases hdone : ∀ w, ((atStart s e).moveAll s moves).workers[i]? = some w → w.isDone s = true
    · exact ⟨n, by rwa [move_of_isDone hdone]⟩
    · push Not at hdone
      obtain ⟨w, hi, hw⟩ := hdone
      exact ⟨n + 1, hn.move hs hi hw⟩

/-- However far a crew has come, it can finish. -/
theorem Paced.exists_finish (h : Paced s m c n) (hs : s.FewChildren) :
    ∃ more, (c.moveAll s more).isDone s = true := by
  have hdone := isDone_run hs h (Nat.le_add_left _ n) (Nat.zero_le _) (Nat.le_refl _)
  obtain ⟨more, hmore⟩ := exists_moves s (s.bound m * (s.size + 2)) 0 c
  exact ⟨more, hmore ▸ hdone⟩

/-! ## Programs and children -/

/-- Each thread goes through its program, and the threads that it has started are there. -/
structure Staffed (s : Script) (c : Crew) : Prop where
  rooted : At c.workers []
  started : ∀ (i : Nat) (w : Worker), c.workers[i]? = some w → ∀ k < w.started,
    At c.workers (w.position ++ [UInt32.ofNat k])
  pursues : ∀ (i : Nat) (w : Worker), c.workers[i]? = some w →
    w.Pursues (s.program w.position)

theorem Staffed.turn (h : Staffed s c) (hi : c.workers[i]? = some w)
    (hposition : w'.position = w.position) (hpursues : w'.Pursues (s.program w.position))
    (hstarted : ∀ k < w'.started, At c.workers (w.position ++ [UInt32.ofNat k])) :
    Staffed s ⟨site', c.workers.setIfInBounds i w'⟩ where
  rooted := h.rooted.set hi hposition
  started j v hv k hk := by
    rcases worker_of_set hi hv with ⟨rfl, rfl⟩ | ⟨-, hv⟩
    · rw [hposition]
      exact (hstarted k hk).set hi hposition
    · exact (h.started j v hv k hk).set hi hposition
  pursues j v hv := by
    rcases worker_of_set hi hv with ⟨rfl, rfl⟩ | ⟨-, hv⟩
    · rw [hposition]
      exact hpursues
    · exact h.pursues j v hv

/-- A thread that is started is below the one that starts it, and has its program before it. -/
theorem Staffed.starts (h : Staffed s c) (hi : c.workers[i]? = some w) (who : Participant) :
    Staffed s ⟨site', (c.workers.setIfInBounds i { w with started := w.started + 1 }).push
      (.atStart s w.nextChild who)⟩ := by
  have hpush : Staffed s ⟨c.site, c.workers.push (.atStart s w.nextChild who)⟩ := by
    refine ⟨h.rooted.push _, fun j v hv => ?_, fun j v hv => ?_⟩
    · rcases worker_of_push hv with ⟨-, rfl⟩ | hv
      · exact nofun
      · exact fun k hk => (h.started j v hv k hk).push _
    · rcases worker_of_push hv with ⟨-, rfl⟩ | hv
      · exact ⟨[], rfl, nofun, fun hin => absurd rfl hin⟩
      · exact h.pursues j v hv
  rw [push_set hi]
  refine hpush.turn (getElem?_push_of_some hi _) rfl (h.pursues i w hi) fun k hk => ?_
  rcases Nat.lt_succ_iff_lt_or_eq.mp hk with hk | rfl
  · exact (h.started i w hi k hk).push _
  · exact ⟨c.workers.size, _, Array.getElem?_push_size, rfl⟩

/-- **Every move keeps the threads at their programs.** -/
theorem Staffed.move (h : Staffed s c) (i : Nat) : Staffed s (c.move s i) := by
  have hmoved := moved s c i
  generalize c.move s i = c' at hmoved ⊢
  cases hmoved with
  | nothing => exact h
  | @steps w hi hin =>
    obtain ⟨begun, hprogram, hmaking, hbegun⟩ := h.pursues i w hi
    exact h.turn hi rfl ⟨begun, hprogram, hmaking, fun _ => hbegun hin⟩ (h.started i w hi)
  | @touches w w' request site' hi _ hmaking _ hposition hstarted htodo hmade _ =>
    obtain ⟨begun, hprogram, hlast, -⟩ := h.pursues i w hi
    refine h.turn hi hposition ⟨begun, ?_, ?_, fun _ hnil => ?_⟩ (hstarted ▸ h.started i w hi)
    · rw [htodo, hprogram]
    · rw [hmade]
      exact nofun
    · -- the access that was just made was begun before
      rw [hnil] at hlast
      cases hlast request hmaking
  | @begins w request todo hi _ hmaking htodo =>
    obtain ⟨begun, hprogram, -, -⟩ := h.pursues i w hi
    refine h.turn hi rfl ⟨begun ++ [request], ?_, ?_, ?_⟩ (h.started i w hi)
    · rw [hprogram, htodo, List.append_assoc]
      rfl
    · rintro _ ⟨⟩
      exact List.getLast?_concat
    · exact fun _ => List.append_ne_nil_of_right_ne_nil begun (List.cons_ne_nil request [])
  | starts hi => exact h.starts hi _

theorem Staffed.moveAll (h : Staffed s c) (moves : List Nat) : Staffed s (c.moveAll s moves) := by
  induction moves using List.reverseRecOn with
  | nil => exact h
  | append_singleton moves i ih =>
    rw [moveAll_concat]
    exact ih.move i

theorem staffed_atStart (s : Script) (e : Engine) : Staffed s (atStart s e) where
  rooted := ⟨0, _, rfl, rfl⟩
  started i w hw := by
    rw [worker_atStart hw]
    exact nofun
  pursues i w hw := by
    rw [worker_atStart hw]
    exact ⟨[], rfl, nofun, fun hin => absurd rfl hin⟩

end Crew

namespace Plan

variable {r : Recording} {p : Plan}

/-- A place that starts threads is above a recorded one. -/
theorem exists_position_of_children (hp : Made r p) {q : Position} {count : UInt32}
    (hq : p.children[q]? = some count) : ∃ t ∈ r.threads, ∃ index, t.position = q ++ [index] := by
  rw [hp.children] at hq
  obtain ⟨largest, ⟨⟨t, ht, index, hposition, -⟩, -⟩, -⟩ :=
    (exact_childCounts hp.inReach).counted q count hq
  exact ⟨t, ht, index, hposition⟩

/-- A place at which there is anything to do was recorded. -/
theorem exists_thread_of_program (hp : Made r p) {position : Position}
    (h : p.program position ≠ []) : ∃ t ∈ r.threads, t.position = position := by
  by_contra hother
  push Not at hother
  exact h (program_eq_nil hp hother)

/-- Only recorded threads start others. -/
theorem children_eq_none (hp : Made r p) (hr : r.Rooted) {q : Position}
    (hother : ∀ t ∈ r.threads, t.position ≠ q) : p.children[q]? = none := by
  cases hq : p.children[q]? with
  | none => rfl
  | some count =>
    obtain ⟨t, ht, index, hposition⟩ := exists_position_of_children hp hq
    cases t with
    | root raw =>
      cases List.append_ne_nil_of_right_ne_nil q (List.cons_ne_nil index []) hposition.symm
    | child parent raw index' =>
      rw [ThreadId.position_child] at hposition
      exact absurd (List.append_inj' hposition rfl).1
        (hother parent (hr.parent_mem _ ht parent rfl))

end Plan

namespace Simulation

variable {s : Simulation} {contents : Except FileFault (List UInt8)} {t : Trace} {p : Plan}

/-- Objects that are created leave the threads alone. -/
theorem threads_foldl_objectCreated (objects : List AnnouncedObject) (e : Engine) :
    (objects.foldl Engine.objectCreated e).threads = e.threads ∧
      (objects.foldl Engine.objectCreated e).recording = e.recording := by
  induction objects generalizing e with
  | nil => exact ⟨rfl, rfl⟩
  | cons object objects ih =>
    obtain ⟨ids, journal, hcreated⟩ := e.objectCreated_eq object
    rw [List.foldl_cons, hcreated]
    exact ih _

/-- A simulation begins with a crew that is aligned with the replay. -/
theorem aligned_crew : Roster.Aligned t.recording (s.crew contents t p).roster := by
  obtain ⟨hthreads, hrecording⟩ := threads_foldl_objectCreated p.objects
    (s.agent.begun contents rootThread t)
  obtain ⟨counterparts, journal, recorded, hstart⟩ := Engine.start_eq
    (s.agent.loading contents).archive t.recording t.checksum rootThread s.config.budget
    s.agent.observer
  refine Crew.aligned_atStart rootThread rfl (hrecording.trans ?_) hthreads
  rw [Agent.begun, show s.agent.config = s.config from rfl, hstart]
  rfl

/-- **Simulated threads land on the recorded spawn tree.**  Let a plan be made of an accepted dump,
which takes that no recorded child index is the last one there is, and let the threads move in any
order; a simulation that is carried out is one such run, until all threads are done.

* No place is taken twice, and any run can go on until all threads are done; then there is a thread
  at each recorded place.
* A thread at any other place has nothing to do, and starts no thread.
* Each thread goes through the program that the plan has for its place.
* As long as there are runtime ids left, each thread has its place in the live spawn tree.  If it
  has an access to make at all, it stands for a recorded thread, whose accesses these are, and
  makes them as that thread. -/
theorem threads_land {d : Dump} (hd : Recording.ofDump d = .ok t.recording)
    (hp : Plan.ofRecording t.recording = .ok p) (s : Simulation)
    (contents : Except FileFault (List UInt8)) :
    (Trace.load s.config.dumpPath contents = .ok t → ∃ moves,
      (act p (s.agent.startup contents rootThread).1).engine =
        some ((s.crew contents t p).moveAll p.script moves).site.engine ∧
      ((s.crew contents t p).moveAll p.script moves).isDone p.script = true) ∧
    ∀ moves, let c := (s.crew contents t p).moveAll p.script moves
      c.places.Nodup ∧
      (∃ more, (c.moveAll p.script more).isDone p.script = true) ∧
      (c.isDone p.script = true →
        ∀ thread ∈ t.recording.threads, thread.position ∈ c.places) ∧
      (∀ position ∈ c.places, (∀ thread ∈ t.recording.threads, thread.position ≠ position) →
        p.program position = [] ∧ p.children[position]? = none) ∧
      (∀ w ∈ c.workers, w.Pursues (p.program w.position)) ∧
      (c.workers.size ≤ UInt64.size → ∀ w ∈ c.workers,
        c.site.engine.threads.find? w.caller.who.live.raw = some w.caller.who.live ∧
        w.caller.who.live.position = w.position ∧
        w.caller.who.recorded = (t.recording.threadAt? w.position).map ThreadId.raw ∧
        (p.program w.position ≠ [] → ∃ thread ∈ t.recording.threads,
          thread.position = w.position ∧
          p.program w.position = (Plan.recordedBy t.recording thread.raw).map p.request ∧
          w.caller.who.recorded = some thread.raw ∧
          c.site.engine.actsAs w.caller.who = thread.raw)) := by
  have hmade := Plan.made_of_ofRecording hp
  have haccepted := Recording.accepted_ofDump hd
  have hrooted := Recording.rooted_ofDump hd
  refine ⟨fun hload => exists_moves_act hload p, fun moves => ?_⟩
  intro c
  obtain ⟨n, hpaced⟩ := Crew.exists_paced p.fewChildren_script (s.created contents t p) moves
  have hstaffed : Crew.Staffed p.script c := (Crew.staffed_atStart ..).moveAll moves
  refine ⟨hpaced.nodup, hpaced.exists_finish p.fewChildren_script, fun hdone thread ht => ?_,
    fun position _ hother =>
      ⟨Plan.program_eq_nil hmade hother, Plan.children_eq_none hmade hrooted hother⟩,
    fun w hw => ?_, fun hfew w hw => ?_⟩
  · obtain ⟨i, w, hi, hw⟩ :=
      Crew.at_of_isDone hstaffed.rooted hstaffed.started hmade hrooted hdone ht
    exact List.mem_map.mpr ⟨w, Array.mem_toList_iff.mpr (Array.mem_of_getElem? hi), hw⟩
  · obtain ⟨i, hi⟩ := Array.mem_iff_getElem?.mp hw
    have hscript : w.position ∈ p.script := by
      rcases hpaced.scripted i w hi with hroot | hmem
      · exact Plan.mem_script_iff.mpr (.inl hroot)
      · exact hmem
    exact Plan.program_script hscript ▸ hstaffed.pursues i w hi
  · obtain ⟨i, hi⟩ := Array.mem_iff_getElem?.mp hw
    have haligned : Roster.Aligned t.recording c.roster :=
      Crew.aligned_moveAll (fun position m hm => by rw [Plan.getElem?_script hm]; rfl)
        aligned_crew moves hfew
    obtain ⟨hfind, hlive, hrecorded⟩ := Crew.worker_of_aligned haligned hi
    refine ⟨hfind, hlive, hrecorded, fun hbusy => ?_⟩
    obtain ⟨thread, ht, hthread⟩ := Plan.exists_thread_of_program hmade hbusy
    rw [haccepted.threadAt?_eq_some_iff.mpr ⟨ht, hthread⟩, Option.map_some] at hrecorded
    refine ⟨thread, ht, hthread, ?_, hrecorded, ?_⟩
    · rw [← hthread, Plan.program_position hp haccepted ht]
    · rw [Engine.actsAs, hrecorded, Option.getD_some]

/-- The trace of `Plan.gapped`. -/
def gappedTrace : Trace where
  path := "dump.json"
  checksum := 0
  recording := Plan.gapped

/-- The plan of `Plan.gapped`. -/
def gappedPlan : Plan where
  classes := #["Box", Plan.unmentionedClass, "Box"]
  accesses := .ofList
    ([([], [⟨⟨2⟩, "value", .write⟩, ⟨⟨2⟩, "value", .write⟩, ⟨⟨0⟩, "value", .write⟩]),
      ([1], [⟨⟨0⟩, "value", .read⟩])] : List (Position × List SimulatedAccess))
  children := (∅ : Std.ExtTreeMap Position UInt32).insert [] 2

theorem ofRecording_gapped : Plan.ofRecording gappedTrace.recording = .ok gappedPlan := by
  have hroot : Plan.accessesOf gappedTrace.recording.accesses 1 =
      [⟨⟨2⟩, "value", .write⟩, ⟨⟨2⟩, "value", .write⟩, ⟨⟨0⟩, "value", .write⟩] := by
    rw [Plan.accessesOf, Plan.inOrder, List.mergeSort_of_pairwise (by decide)]
    decide
  have hchild : Plan.accessesOf gappedTrace.recording.accesses 2 = [⟨⟨0⟩, "value", .read⟩] := by
    rw [Plan.accessesOf, Plan.inOrder, List.mergeSort_of_pairwise (by decide)]
    decide
  have hthreads : gappedTrace.recording.threads.map
      (fun t => (t.position, Plan.accessesOf gappedTrace.recording.accesses t.raw)) =
        [([], Plan.accessesOf gappedTrace.recording.accesses 1),
          ([1], Plan.accessesOf gappedTrace.recording.accesses 2)] := rfl
  have hlimit : gappedTrace.recording.accesses.keys.find?
      (fun key => Plan.objectLimit ≤ key.object.number.toNat) = none := by decide
  rw [Plan.ofRecording, if_neg (by decide), hthreads, hlimit, hroot, hchild]
  rfl

/-- A thread without a recorded counterpart takes the first place below the root, so that the
recorded thread is at the second one. -/
theorem gapped_threads_land : Recording.ofDump Plan.gappedDump = .ok gappedTrace.recording ∧
    Plan.ofRecording gappedTrace.recording = .ok gappedPlan ∧
    let start := ({ config := { dumpPath := "dump.json" } } : Simulation).crew
      (.error .notFound) gappedTrace gappedPlan
    let c := start.moveAll gappedPlan.script (List.replicate 60 0 ++ List.replicate 20 2)
    c.isDone gappedPlan.script = true ∧ c.workers.size ≤ UInt64.size ∧
    [0] ∈ c.places ∧ gappedPlan.program [0] = [] ∧
    ∃ w ∈ c.workers, w.caller.who.live.position = [1] ∧
      gappedPlan.program w.position = [⟨⟨0x1000, "Box"⟩, "value", .read⟩] ∧
      w.caller.who.recorded = some 2 := by
  refine ⟨Plan.ofDump_gapped, ofRecording_gapped, ?_⟩
  intro start c
  have hdone : c.isDone gappedPlan.script = true := by decide +kernel
  have hsize : c.workers.size = 3 := by decide +kernel
  have hfew : c.workers.size ≤ UInt64.size := by rw [hsize]; decide
  have hfiller : [0] ∈ c.places := by decide +kernel
  obtain ⟨-, hland⟩ := threads_land Plan.ofDump_gapped ofRecording_gapped
    { config := { dumpPath := "dump.json" } } (.error .notFound)
  obtain ⟨-, -, hall, hother, -, hlive⟩ :=
    hland (List.replicate 60 0 ++ List.replicate 20 2)
  obtain ⟨w, hw, hposition⟩ :=
    List.mem_map.mp (hall hdone ((ThreadId.root 1).child 2 1) (by decide))
  rw [Array.mem_toList_iff] at hw
  obtain ⟨-, hplace, hrecorded, -⟩ := hlive hfew w hw
  have hposition : w.position = [1] := hposition
  rw [hposition] at hplace hrecorded
  refine ⟨hdone, hfew, hfiller, (hother [0] hfiller (by decide)).1, w, hw, hplace, ?_, hrecorded⟩
  rw [hposition]
  decide

end Simulation
end AccessReplay
