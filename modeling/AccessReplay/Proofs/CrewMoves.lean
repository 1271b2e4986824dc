import AccessReplay.Crew
import AccessReplay.Engine.Progress
import AccessReplay.Proofs.KeyedLists
import AccessReplay.Proofs.SequentialCalls
import Mathlib.Algebra.Order.BigOperators.Group.List
import Mathlib.Algebra.Order.Ring.Nat

/-!
# Crews finish

A move of a thread is one of a few things (`Moved`): the thread takes a step in a hook, makes the
access itself, begins the next one, starts another thread, or has nothing left to do.

No place of the spawn tree is taken twice, and each thread has its program to carry out, so there
are only so many moves to make: those made so far and those left of the threads that are there
never exceed what their places cost (`Paced`).  So a crew whose script has an end below every
place finishes within its effort (`isDone_perform`).
-/
namespace AccessReplay

namespace Worker

variable {s : Script} {w : Worker}

theorem isDone_iff : w.isDone s = true ↔
    w.caller.stage = .outside ∧ w.making = none ∧ w.todo = [] ∧ w.nextChild ∉ s := by
  simp [isDone, and_assoc]

/-- At most how many moves a thread has left, apart from starting others.  An access that it has
not begun takes one move to begin it, the before-hook, the access itself and the after-hook. -/
def load (maxRetries : Nat) (w : Worker) : Nat :=
  w.caller.stage.rank maxRetries + (if w.making.isSome then 5 else 0) +
    (3 * maxRetries + 20) * w.todo.length

end Worker

namespace Script

variable {s : Script} {m : Nat}

/-- At most how many moves the thread at a place takes, with the one that starts it. -/
def cost (s : Script) (maxRetries : Nat) (position : Position) : Nat :=
  1 + (3 * maxRetries + 20) * (s.program position).length

/-- At most how many moves a crew makes. -/
def bound (s : Script) (maxRetries : Nat) : Nat :=
  s.size + 1 + s.values.foldr (fun m count => m.program.length + count) 0 * (3 * maxRetries + 20)

/-- No place has a child at every index. -/
def FewChildren (s : Script) : Prop :=
  ∀ position : Position, ∃ k < UInt32.size, position ++ [UInt32.ofNat k] ∉ s

theorem program_of_notMem {position : Position} (h : position ∉ s) : s.program position = [] := by
  rw [program, Std.ExtTreeMap.getElem?_eq_none h]
  rfl

/-- The places of a script cost one less than a crew is given. -/
theorem sum_cost_keys (s : Script) (m : Nat) : (s.keys.map (s.cost m)).sum + 1 = s.bound m := by
  have hentries : ∀ entries : List (Position × Member),
      (∀ x ∈ entries, s.program x.1 = x.2.program) →
      ((entries.map Prod.fst).map (s.cost m)).sum = entries.length +
        (entries.map Prod.snd).foldr (fun m count => m.program.length + count) 0 *
          (3 * m + 20) := by
    intro entries
    induction entries with
    | nil => simp
    | cons x entries ih =>
      intro hmem
      have hx := hmem x List.mem_cons_self
      have hrest := ih fun y hy => hmem y (List.mem_cons_of_mem _ hy)
      simp only [List.map_cons, List.sum_cons, List.length_cons, List.foldr_cons, hrest, cost, hx,
        Nat.add_mul, Nat.mul_comm x.2.program.length]
      omega
  have hprogram : ∀ x ∈ s.toList, s.program x.1 = x.2.program := fun x hx => by
    rw [program, Std.ExtTreeMap.mem_toList_iff_getElem?_eq_some.mp hx]
    rfl
  rw [← Std.ExtTreeMap.map_fst_toList_eq_keys, hentries s.toList hprogram, ← values_eq_map_snd,
    Std.ExtTreeMap.length_toList, bound]
  omega

/-- Different places of a script, and the root, do not cost more than a crew is given. -/
theorem sum_cost_le {places : List Position} (hnodup : places.Nodup)
    (hplaces : ∀ q ∈ places, q = [] ∨ q ∈ s) :
    (places.map (s.cost m)).sum ≤ s.bound m ∧ places.length ≤ s.size + 1 := by
  have hwithin : ∀ all : List Position, places ⊆ all → (all.map (s.cost m)).sum ≤ s.bound m →
      all.length ≤ s.size + 1 →
      (places.map (s.cost m)).sum ≤ s.bound m ∧ places.length ≤ s.size + 1 := by
    intro all hall hsum hlength
    obtain ⟨part, hperm, hpart⟩ := List.subperm_of_subset hnodup hall
    have hcost : (part.map (s.cost m)).sum ≤ (all.map (s.cost m)).sum :=
      (hpart.map _).sum_le_sum fun _ _ => Nat.zero_le _
    have hperm' := (hperm.map (s.cost m)).sum_eq
    have hlength' := hperm.length_eq
    have hpart' := hpart.length_le
    omega
  have hkeys := sum_cost_keys s m
  have hsize : s.keys.length = s.size := Std.ExtTreeMap.length_keys
  by_cases hroot : ([] : Position) ∈ s
  · refine hwithin s.keys (fun q hq => ?_) (by omega) (by omega)
    rcases hplaces q hq with rfl | hq
    · exact Std.ExtTreeMap.mem_keys.mpr hroot
    · exact Std.ExtTreeMap.mem_keys.mpr hq
  · refine hwithin ([] :: s.keys) (fun q hq => ?_) ?_ (by rw [List.length_cons]; omega)
    · rcases hplaces q hq with rfl | hq
      · exact List.mem_cons_self
      · exact List.mem_cons_of_mem _ (Std.ExtTreeMap.mem_keys.mpr hq)
    · have hcost : s.cost m [] = 1 := by rw [cost, program_of_notMem hroot]; rfl
      rw [List.map_cons, List.sum_cons, hcost]
      omega

end Script

namespace Crew

variable {s : Script} {c c' : Crew} {i j : Nat} {w w' : Worker} {site' : Site} {m n : Nat}

/-! ## Moves -/

/-- Moves of threads, one after the other. -/
def moveAll (s : Script) (c : Crew) (moves : List Nat) : Crew := moves.foldl (move s) c

theorem moveAll_concat (moves : List Nat) (i : Nat) :
    c.moveAll s (moves ++ [i]) = (c.moveAll s moves).move s i := by
  simp [moveAll]

/-- Whoever is given the next move, a run is a sequence of moves. -/
theorem exists_moves (s : Script) (fuel i : Nat) (c : Crew) :
    ∃ moves, run s fuel i c = c.moveAll s moves := by
  induction fuel generalizing i c with
  | zero => exact ⟨[], rfl⟩
  | succ fuel ih =>
    rw [run]
    split
    · split
      · exact ⟨[], rfl⟩
      · exact ih 0 c
    · split
      · exact ih (i + 1) c
      · next w _ _ =>
        obtain ⟨moves, hmoves⟩ := ih (if w.isResting then i + 1 else i) (c.move s i)
        exact ⟨i :: moves, hmoves⟩

/-- What a move of a thread does to the crew. -/
inductive Moved (s : Script) (c : Crew) (i : Nat) : Crew → Prop
  /-- There is no such thread, or it is done. -/
  | nothing : (∀ w, c.workers[i]? = some w → w.isDone s = true) → Moved s c i c
  /-- The thread takes a step in a hook. -/
  | steps {w : Worker} : c.workers[i]? = some w → w.caller.stage ≠ .outside →
      Moved s c i
        ⟨{ c.site with engine := (c.site.engine.step w.caller).1 },
          c.workers.setIfInBounds i { w with caller := (c.site.engine.step w.caller).2 }⟩
  /-- The thread makes the access itself, and calls the hook after it. -/
  | touches {w w' : Worker} {r : Request} {site' : Site} : c.workers[i]? = some w →
      w.caller.stage = .outside → w.making = some r → site'.engine = c.site.engine →
      w'.position = w.position → w'.started = w.started → w'.todo = w.todo →
      w'.making = none → w'.caller.stage = .concluding r.kind →
      Moved s c i ⟨site', c.workers.setIfInBounds i w'⟩
  /-- The thread begins its next access, and calls the hook before it. -/
  | begins {w : Worker} {r : Request} {todo : List Request} : c.workers[i]? = some w →
      w.caller.stage = .outside → w.making = none → w.todo = r :: todo →
      Moved s c i ⟨c.site, c.workers.setIfInBounds i
        { w with todo, making := some r, caller := { w.caller with stage := .announced r } }⟩
  /-- The thread starts another one. -/
  | starts {w : Worker} {parent : RuntimeId} {child : AnnouncedThread} {p : Participant}
      {nextRaw : RuntimeId} : c.workers[i]? = some w → w.caller.stage = .outside →
      w.nextChild ∈ s →
      Moved s c i
        ⟨{ c.site with engine := (c.site.engine.threadStarted parent child).1, nextRaw },
          (c.workers.setIfInBounds i { w with started := w.started + 1 }).push
            (.atStart s w.nextChild p)⟩

theorem setIfInBounds_self (hi : c.workers[i]? = some w) :
    c.workers.setIfInBounds i w = c.workers := by
  refine Array.ext_getElem? fun j => ?_
  grind

theorem moved (s : Script) (c : Crew) (i : Nat) : Moved s c i (c.move s i) := by
  unfold move
  cases hi : c.workers[i]? with
  | none => exact .nothing (by simp [hi])
  | some w =>
    by_cases hin : w.caller.stage = .outside
    · simp only [Worker.move, if_neg (not_not.mpr hin)]
      cases hmaking : w.making with
      | some r =>
        -- the access itself leaves the replay and the program alone
        cases hkind : r.kind <;> simp only [Worker.touch, hkind] <;>
          exact .touches hi hin hmaking rfl rfl rfl rfl rfl (by rw [hkind]; rfl)
      | none =>
        cases hchild : s[w.nextChild]? with
        | some child =>
          exact .starts hi hin (Std.ExtTreeMap.mem_iff_isSome_getElem?.mpr (by rw [hchild]; rfl))
        | none =>
          cases htodo : w.todo with
          | nil =>
            have hlast : w.nextChild ∉ s := by
              rw [Std.ExtTreeMap.mem_iff_isSome_getElem?, hchild]
              exact Bool.false_ne_true
            have hdone : w.isDone s = true :=
              Worker.isDone_iff.mpr ⟨hin, hmaking, htodo, hlast⟩
            have hsame := setIfInBounds_self hi
            simp only [Option.elim_none, hsame]
            refine .nothing fun v hv => ?_
            obtain rfl := Option.some.inj (hi.symm.trans hv)
            exact hdone
          | cons r todo => exact .begins hi hin hmaking htodo
    · simp only [Worker.move, if_pos hin]
      exact .steps hi hin

/-! ## The threads of a crew -/

theorem getElem?_set (hi : c.workers[i]? = some w) (w' : Worker) (j : Nat) :
    (c.workers.setIfInBounds i w')[j]? = if i = j then some w' else c.workers[j]? := by
  obtain ⟨hlt, -⟩ := Array.getElem?_eq_some_iff.mp hi
  rw [Array.getElem?_setIfInBounds]
  simp [hlt]

/-- After a thread's turn, every other thread is as it was. -/
theorem worker_of_set (hi : c.workers[i]? = some w) {v : Worker}
    (hv : (c.workers.setIfInBounds i w')[j]? = some v) :
    (j = i ∧ v = w') ∨ (j ≠ i ∧ c.workers[j]? = some v) := by
  rw [getElem?_set hi] at hv
  by_cases hij : i = j
  · rw [if_pos hij] at hv
    exact .inl ⟨hij.symm, (Option.some.inj hv).symm⟩
  · rw [if_neg hij] at hv
    exact .inr ⟨Ne.symm hij, hv⟩

theorem getElem?_push_of_some (hi : c.workers[i]? = some w) (new : Worker) :
    (c.workers.push new)[i]? = some w := by
  obtain ⟨hlt, -⟩ := Array.getElem?_eq_some_iff.mp hi
  rw [Array.getElem?_push_lt hlt, ← hi, Array.getElem?_eq_getElem hlt]

/-- A thread that is started comes last. -/
theorem worker_of_push {new v : Worker} (hv : (c.workers.push new)[j]? = some v) :
    (j = c.workers.size ∧ v = new) ∨ c.workers[j]? = some v := by
  rw [Array.getElem?_push] at hv
  split at hv
  · next hj => exact .inl ⟨hj, (Option.some.inj hv).symm⟩
  · exact .inr hv

theorem worker_atStart {e : Engine} (hw : (atStart s e).workers[i]? = some w) :
    w = .atStart s [] e.rootParticipant := by
  simpa [atStart] using Array.mem_of_getElem? hw

theorem isDone_worker (hdone : c.isDone s = true) (hi : c.workers[i]? = some w) :
    w.isDone s = true :=
  Array.all_eq_true_iff_forall_mem.mp hdone w (Array.mem_of_getElem? hi)

theorem exists_not_isDone (h : ¬c.isDone s = true) :
    ∃ (j : Nat) (w : Worker), c.workers[j]? = some w ∧ ¬w.isDone s = true := by
  by_contra hnone
  refine h (Array.all_eq_true_iff_forall_mem.mpr fun w hw => ?_)
  obtain ⟨j, hj⟩ := Array.mem_iff_getElem?.mp hw
  by_contra hnot
  exact hnone ⟨j, w, hj, hnot⟩

/-! ## The pace of a crew -/

/-- A measure of the threads, taken together. -/
def total (f : Worker → Nat) (c : Crew) : Nat := (c.workers.toList.map f).sum

theorem total_set (f : Worker → Nat) (hi : c.workers[i]? = some w) (site' : Site) (w' : Worker) :
    total f ⟨site', c.workers.setIfInBounds i w'⟩ + f w = c.total f + f w' := by
  rw [← Array.getElem?_toList] at hi
  rw [total, total, Array.toList_setIfInBounds]
  generalize c.workers.toList = workers at hi
  -- the induction goes down the threads to the one that is replaced
  induction workers generalizing i with
  | nil => simp at hi
  | cons v workers ih =>
    cases i with
    | zero =>
      obtain rfl : v = w := by simpa using hi
      simp only [List.set_cons_zero, List.map_cons, List.sum_cons]
      omega
    | succ i =>
      have hrest := ih (by simpa using hi)
      simp only [List.set_cons_succ, List.map_cons, List.sum_cons]
      omega

theorem total_push (f : Worker → Nat) (c : Crew) (site' : Site) (new : Worker) :
    total f ⟨site', c.workers.push new⟩ = c.total f + f new := by
  simp [total]

/-- The places that the threads of a crew have. -/
def places (c : Crew) : List Position := c.workers.toList.map Worker.position

theorem places_set (hi : c.workers[i]? = some w) (hposition : w'.position = w.position) :
    places ⟨site', c.workers.setIfInBounds i w'⟩ = c.places := by
  refine List.ext_getElem? fun k => ?_
  simp only [places, List.getElem?_map, Array.getElem?_toList, getElem?_set hi]
  split
  · next hik =>
    subst hik
    simp [hi, hposition]
  · rfl

/-- What is true of a crew after `n` moves: no place is taken twice, every place is below one whose
thread has started as many, and the moves made so far, with those left, are within the cost. -/
structure Paced (s : Script) (m : Nat) (c : Crew) (n : Nat) : Prop where
  budget : c.site.engine.budget.maxRetries = m
  nodup : c.places.Nodup
  scripted : ∀ (i : Nat) (w : Worker), c.workers[i]? = some w → w.position = [] ∨ w.position ∈ s
  parent : ∀ (i : Nat) (w : Worker), c.workers[i]? = some w → ∀ q x, w.position = q ++ [x] →
    ∃ (j : Nat) (v : Worker), c.workers[j]? = some v ∧ v.position = q ∧ x.toNat < v.started
  started : ∀ (i : Nat) (w : Worker), c.workers[i]? = some w → ∀ k < w.started,
    w.position ++ [UInt32.ofNat k] ∈ s
  paced : n + c.total (Worker.load m) ≤ c.total fun w => s.cost m w.position

theorem Paced.eq_of_position (h : Paced s m c n) (hi : c.workers[i]? = some w) {v : Worker}
    (hj : c.workers[j]? = some v) (hposition : w.position = v.position) : i = j := by
  have hplace : c.places[i]? = c.places[j]? := by
    simp [places, hi, hj, hposition]
  obtain ⟨hlt, -⟩ := Array.getElem?_eq_some_iff.mp hi
  exact (List.getElem?_inj (by simpa [places] using hlt) h.nodup).mp hplace

/-- The moves made so far are within the bound, and so are the threads. -/
theorem Paced.le_bound (h : Paced s m c n) :
    n + c.total (Worker.load m) ≤ s.bound m ∧ c.workers.size ≤ s.size + 1 := by
  have hplaces : ∀ q ∈ c.places, q = [] ∨ q ∈ s := by
    intro q hq
    obtain ⟨w, hw, rfl⟩ := List.mem_map.mp hq
    obtain ⟨i, hi⟩ := List.mem_iff_getElem?.mp hw
    exact h.scripted i w (by rwa [Array.getElem?_toList] at hi)
  obtain ⟨hcost, hlength⟩ := Script.sum_cost_le (m := m) h.nodup hplaces
  have hpaced := h.paced
  rw [total, total] at *
  rw [places, List.map_map] at hcost
  refine ⟨hpaced.trans hcost, by simpa [places] using hlength⟩

/-- A thread that stays at its place keeps the pace, if it starts no thread that the script has no
place for, and its moves are made up for by what it has left. -/
theorem Paced.turn {n' : Nat} (h : Paced s m c n) (hi : c.workers[i]? = some w)
    (hbudget : site'.engine.budget = c.site.engine.budget) (hposition : w'.position = w.position)
    (hmore : w.started ≤ w'.started)
    (hstarted : ∀ k < w'.started, w.position ++ [UInt32.ofNat k] ∈ s)
    (hload : n' + w'.load m ≤ n + w.load m) :
    Paced s m ⟨site', c.workers.setIfInBounds i w'⟩ n' where
  budget := by rw [hbudget, h.budget]
  nodup := by
    rw [places_set hi hposition]
    exact h.nodup
  scripted j v hv := by
    rcases worker_of_set hi hv with ⟨rfl, rfl⟩ | ⟨-, hv⟩
    · rw [hposition]
      exact h.scripted j w hi
    · exact h.scripted j v hv
  parent j v hv q x hq := by
    have hparent : ∃ (k : Nat) (u : Worker), c.workers[k]? = some u ∧ u.position = q ∧
        x.toNat < u.started := by
      rcases worker_of_set hi hv with ⟨rfl, rfl⟩ | ⟨-, hv⟩
      · exact h.parent j w hi q x (hposition ▸ hq)
      · exact h.parent j v hv q x hq
    obtain ⟨k, u, hk, hu, hx⟩ := hparent
    by_cases hik : i = k
    · subst hik
      obtain rfl := Option.some.inj (hi.symm.trans hk)
      exact ⟨i, w', by rw [getElem?_set hi, if_pos rfl], hposition.trans hu, by omega⟩
    · exact ⟨k, u, by rw [getElem?_set hi, if_neg hik, hk], hu, hx⟩
  started j v hv k hk := by
    rcases worker_of_set hi hv with ⟨rfl, rfl⟩ | ⟨-, hv⟩
    · rw [hposition]
      exact hstarted k hk
    · exact h.started j v hv k hk
  paced := by
    have hleft := total_set (Worker.load m) hi site' w'
    have hcost := total_set (fun w => s.cost m w.position) hi site' w'
    have hpaced := h.paced
    simp only [hposition] at hcost
    omega

/-- A thread that is started at a free place pays for the move that starts it. -/
theorem Paced.push (h : Paced s m c n) {q : Position} {x : UInt32} (hplace : q ++ [x] ∈ s)
    (hfree : q ++ [x] ∉ c.places) (hi : c.workers[i]? = some w) (hq : w.position = q)
    (hx : x.toNat < w.started) (p : Participant) :
    Paced s m ⟨c.site, c.workers.push (.atStart s (q ++ [x]) p)⟩ (n + 1) where
  budget := h.budget
  nodup := by
    have hplaces : places ⟨c.site, c.workers.push (.atStart s (q ++ [x]) p)⟩ =
        c.places ++ [q ++ [x]] := by
      simp [places, Worker.atStart]
    rw [hplaces, List.nodup_append]
    refine ⟨h.nodup, by simp, fun a ha b hb hab => hfree ?_⟩
    rwa [← List.mem_singleton.mp hb, ← hab]
  scripted j v hv := by
    rcases worker_of_push hv with ⟨-, rfl⟩ | hv
    · exact .inr hplace
    · exact h.scripted j v hv
  parent j v hv q' x' hq' := by
    have hparent : ∃ (k : Nat) (u : Worker), c.workers[k]? = some u ∧ u.position = q' ∧
        x'.toNat < u.started := by
      rcases worker_of_push hv with ⟨-, rfl⟩ | hv
      · obtain ⟨rfl, hsame⟩ := List.append_inj' hq' rfl
        obtain rfl : x = x' := by simpa using hsame
        exact ⟨i, w, hi, hq, hx⟩
      · exact h.parent j v hv q' x' hq'
    obtain ⟨k, u, hk, hu⟩ := hparent
    exact ⟨k, u, getElem?_push_of_some hk _, hu⟩
  started j v hv k hk := by
    rcases worker_of_push hv with ⟨-, rfl⟩ | hv
    · cases hk
    · exact h.started j v hv k hk
  paced := by
    have hload : (Worker.atStart s (q ++ [x]) p).load m + 1 = s.cost m (q ++ [x]) := by
      simp [Worker.load, Worker.atStart, Script.cost, Stage.rank]
      omega
    have hpaced := h.paced
    have hnew : (Worker.atStart s (q ++ [x]) p).position = q ++ [x] := rfl
    simp only [total_push, hnew]
    omega

/-- A thread that starts another one keeps the pace.  The new place was free, because whoever has a
place below another one was started by the thread there. -/
theorem Paced.starts (h : Paced s m c n) (hs : s.FewChildren) (hi : c.workers[i]? = some w)
    (hchild : w.nextChild ∈ s) (hbudget : site'.engine.budget = c.site.engine.budget)
    (p : Participant) :
    Paced s m ⟨site', (c.workers.setIfInBounds i { w with started := w.started + 1 }).push
      (.atStart s w.nextChild p)⟩ (n + 1) := by
  have hindex : (UInt32.ofNat w.started).toNat = w.started := by
    obtain ⟨k, hk, hnone⟩ := hs w.position
    refine UInt32.toNat_ofNat_of_lt' (Nat.lt_of_le_of_lt ?_ hk)
    by_contra hmany
    exact hnone (h.started i w hi k (by omega))
  have hfree : w.nextChild ∉ c.places := by
    intro hmem
    obtain ⟨v, hv, hplace⟩ := List.mem_map.mp hmem
    obtain ⟨j, hj⟩ := List.mem_iff_getElem?.mp hv
    rw [Array.getElem?_toList] at hj
    obtain ⟨k, u, hk, hu, hx⟩ := h.parent j v hj w.position _ hplace
    obtain rfl := h.eq_of_position hk hi hu
    obtain rfl := Option.some.inj (hi.symm.trans hk)
    omega
  have hstarted : ∀ k < w.started + 1, w.position ++ [UInt32.ofNat k] ∈ s := by
    intro k hk
    rcases Nat.lt_succ_iff_lt_or_eq.mp hk with hk | rfl
    · exact h.started i w hi k hk
    · exact hchild
  have hturn : Paced s m ⟨site', c.workers.setIfInBounds i { w with started := w.started + 1 }⟩ n :=
    h.turn hi hbudget rfl (Nat.le_succ _) hstarted (Nat.le_refl _)
  have hplaces : places ⟨site', c.workers.setIfInBounds i { w with started := w.started + 1 }⟩ =
      c.places := places_set hi rfl
  refine hturn.push hchild (hplaces ▸ hfree) (i := i) (w := { w with started := w.started + 1 })
    ?_ rfl ?_ p
  · rw [getElem?_set hi, if_pos rfl]
  · rw [hindex]
    exact Nat.lt_succ_self _

/-- **Every move of a thread that is not done counts.** -/
theorem Paced.move (h : Paced s m c n) (hs : s.FewChildren) (hi : c.workers[i]? = some w)
    (hnot : ¬w.isDone s = true) : Paced s m (c.move s i) (n + 1) := by
  have hmoved := moved s c i
  generalize c.move s i = c' at hmoved ⊢
  cases hmoved with
  | nothing hdone => exact absurd (hdone w hi) hnot
  | @steps v hv hin =>
    obtain rfl := Option.some.inj (hi.symm.trans hv)
    have hrank := Engine.rank_step_lt c.site.engine w.caller hin
    rw [h.budget] at hrank
    refine h.turn hi (Engine.budget_step _ _) rfl (Nat.le_refl _) (h.started i w hi) ?_
    simp only [Worker.load]
    omega
  | @touches v w' r site' hv hstage hmaking hengine hposition hstarted htodo hmade hnext =>
    obtain rfl := Option.some.inj (hi.symm.trans hv)
    refine h.turn hi (by rw [hengine]) hposition (Nat.le_of_eq hstarted.symm)
      (hstarted ▸ h.started i w hi) ?_
    simp only [Worker.load, hstage, hmaking, htodo, hmade, hnext, Stage.rank, Option.isSome_some,
      Option.isSome_none, if_true]
    simp
    omega
  | @begins v r todo hv hstage hmaking htodo =>
    obtain rfl := Option.some.inj (hi.symm.trans hv)
    refine h.turn hi rfl rfl (Nat.le_refl _) (h.started i w hi) ?_
    simp only [Worker.load, hstage, hmaking, htodo, Stage.rank, List.length_cons, Nat.mul_succ]
    simp
    omega
  | @starts v parent child p nextRaw hv hstage hchild =>
    obtain rfl := Option.some.inj (hi.symm.trans hv)
    obtain ⟨counterparts, journal, recorded, hstart⟩ := c.site.engine.threadStarted_eq parent child
    exact h.starts hs hi hchild (by rw [hstart]) p

theorem size_le_size_move (s : Script) (c : Crew) (i : Nat) :
    c.workers.size ≤ (c.move s i).workers.size := by
  have hmoved := moved s c i
  generalize c.move s i = c' at hmoved ⊢
  cases hmoved <;> simp

theorem Paced.atStart {e : Engine} (s : Script) (he : e.budget.maxRetries = m) :
    Paced s m (atStart s e) 0 where
  budget := he
  nodup := by simp [places, Crew.atStart]
  scripted i w hw := by
    rw [worker_atStart hw]
    exact .inl rfl
  parent i w hw q x hq := by
    rw [worker_atStart hw] at hq
    cases q <;> cases hq
  started i w hw := by
    rw [worker_atStart hw]
    exact nofun
  paced := by
    simp [total, Crew.atStart, Worker.atStart, Worker.load, Script.cost, Stage.rank]

/-! ## Finishing -/

/-- A run goes past threads that are done, on to one that is not. -/
theorem run_ahead {d : Nat} (hj : c.workers[i + d]? = some w) (hnot : ¬w.isDone s = true) :
    ∃ (k j : Nat) (v : Worker), k ≤ d ∧ c.workers[j]? = some v ∧ ¬v.isDone s = true ∧
      ∀ fuel, run s (fuel + k) i c = run s fuel j c := by
  induction d generalizing i with
  | zero => exact ⟨0, i, w, Nat.le_refl _, hj, hnot, fun _ => rfl⟩
  | succ d ih =>
    obtain ⟨u, hu⟩ : ∃ u, c.workers[i]? = some u := by
      obtain ⟨hlt, -⟩ := Array.getElem?_eq_some_iff.mp hj
      exact ⟨_, Array.getElem?_eq_getElem (by omega)⟩
    by_cases hdone : u.isDone s = true
    · obtain ⟨k, j, v, hk, hv, hnotv, hrun⟩ := ih (i := i + 1) (by rwa [Nat.add_right_comm])
      refine ⟨k + 1, j, v, by omega, hv, hnotv, fun fuel => ?_⟩
      rw [← Nat.add_assoc, run, hu]
      simp only [hdone, if_true]
      exact hrun fuel
    · exact ⟨0, i, u, by omega, hu, hdone, fun _ => rfl⟩

/-- A run that has only done threads ahead begins anew, unless all are done. -/
theorem run_around {d : Nat} (hi : i + d = c.workers.size)
    (hahead : ∀ (j : Nat) (w : Worker), i ≤ j → c.workers[j]? = some w → w.isDone s = true)
    (hnot : ¬c.isDone s = true) (fuel : Nat) :
    run s (fuel + d + 1) i c = run s fuel 0 c := by
  induction d generalizing i with
  | zero =>
    have hnone : c.workers[i]? = none := Array.getElem?_eq_none (by omega)
    rw [run, hnone]
    simp only [hnot, Bool.false_eq_true, if_false]
  | succ d ih =>
    have hu : c.workers[i]? = some c.workers[i] := Array.getElem?_eq_getElem (by omega)
    have hrest := ih (i := i + 1) (by omega) fun j w hj => hahead j w (by omega)
    rw [run, hu]
    simp only [hahead i _ (Nat.le_refl i) hu, if_true]
    exact hrest

/-- Within one round, a run that is not over comes to a thread that is not done. -/
theorem run_reaches (hi : i ≤ c.workers.size) (hnot : ¬c.isDone s = true) :
    ∃ (k j : Nat) (w : Worker), k ≤ c.workers.size ∧ c.workers[j]? = some w ∧
      ¬w.isDone s = true ∧ ∀ fuel, run s (fuel + k) i c = run s fuel j c := by
  by_cases hahead : ∀ (j : Nat) (w : Worker), i ≤ j → c.workers[j]? = some w → w.isDone s = true
  · obtain ⟨j, w, hj, hw⟩ := exists_not_isDone hnot
    have hlt : j < i := by
      by_contra hge
      exact hw (hahead j w (Nat.le_of_not_lt hge) hj)
    obtain ⟨k, j', v, hk, hv, hnotv, hrun⟩ := run_ahead (i := 0) (by rwa [Nat.zero_add]) hw
    refine ⟨k + (c.workers.size - i) + 1, j', v, by omega, hv, hnotv, fun fuel => ?_⟩
    rw [← Nat.add_assoc, ← Nat.add_assoc, run_around (by omega) hahead hnot, hrun]
  · push Not at hahead
    obtain ⟨j, w, hij, hj, hw⟩ := hahead
    obtain ⟨hlt, -⟩ := Array.getElem?_eq_some_iff.mp hj
    obtain ⟨d, rfl⟩ := Nat.exists_eq_add_of_le hij
    obtain ⟨k, j', v, hk, hv, hnotv, hrun⟩ := run_ahead hj hw
    exact ⟨k, j', v, by omega, hv, hnotv, hrun⟩

/-- A run leaves a crew that is done as it is. -/
theorem run_of_isDone (hdone : c.isDone s = true) (fuel i : Nat) : run s fuel i c = c := by
  induction fuel generalizing i with
  | zero => rfl
  | succ fuel ih =>
    rw [run]
    split
    · simp [hdone]
    · next w hw =>
      simp only [isDone_worker hdone hw, if_true]
      exact ih (i + 1)

/-- With one round for each move that may be left, a run comes to the end. -/
theorem isDone_run (hs : s.FewChildren) {left : Nat} (h : Paced s m c n)
    (hleft : s.bound m ≤ n + left) (hi : i ≤ c.workers.size) {fuel : Nat}
    (hfuel : left * (s.size + 2) ≤ fuel) : (run s fuel i c).isDone s = true := by
  induction left generalizing c n i fuel with
  | zero =>
    by_contra hnot
    have hdone : ¬c.isDone s = true := fun hdone => hnot (by rwa [run_of_isDone hdone])
    obtain ⟨j, w, hj, hw⟩ := exists_not_isDone hdone
    have hbound := (h.move hs hj hw).le_bound.1
    omega
  | succ left ih =>
    by_cases hdone : c.isDone s = true
    · rwa [run_of_isDone hdone]
    · obtain ⟨k, j, w, hk, hj, hw, hrun⟩ := run_reaches hi hdone
      have hsize := h.le_bound.2
      have hpaced := h.move hs hj hw
      obtain ⟨hlt, -⟩ := Array.getElem?_eq_some_iff.mp hj
      have hgrows := size_le_size_move s c j
      -- a round to come to the thread, and its move
      rw [Nat.succ_mul] at hfuel
      obtain ⟨rest, rfl⟩ : ∃ rest, fuel = rest + 1 + k := ⟨fuel - 1 - k, by omega⟩
      rw [hrun, run, hj]
      simp only [hw, Bool.false_eq_true, if_false]
      refine ih hpaced (by omega) ?_ (by omega)
      split <;> omega

/-- **A crew finishes** within the effort of its script. -/
theorem isDone_perform (hs : s.FewChildren) (e : Engine) : (perform s e).isDone s = true := by
  have hleft : s.bound e.budget.maxRetries ≤ 0 + s.bound e.budget.maxRetries := by omega
  have hle : s.bound e.budget.maxRetries ≤ s.bound e.budget.maxRetries + 1 := Nat.le_succ _
  exact isDone_run hs (.atStart s rfl) hleft (Nat.zero_le _)
    (Nat.mul_le_mul hle (Nat.le_succ _))

end Crew
end AccessReplay
