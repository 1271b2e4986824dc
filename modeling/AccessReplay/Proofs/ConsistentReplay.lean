import AccessReplay.Proofs.RecordedHistory
import Mathlib.Logic.Relation

/-!
# A consistent recording replays to its end

Every recorded thread makes the accesses that the plan has for it, in order: it asks for
the next one until it is granted, and commits it.  In which order the threads ask and
commit is left to a scheduler.

The recorded history shows that this cannot go wrong.  What is left to each thread is the
rest of its part of the history, and the locations have made what is not left
(`OnPlan`).  So no location finds an access that it has no counterpart for; and the first
access in the history that is left to make is the next one of its thread, while its
location has made everything recorded before it and nothing else of that thread and kind
(`exists_frontier`).  Unless some granted access is still to be committed, it is granted
(`grant_next`).
-/
namespace AccessReplay

open Plan (PlacedAccess)

/-! ## The next recorded access of a location -/

namespace Location.Tracks

variable {s p q : List Access} {l : Location} {a : Access}

/-- If everything recorded before `a` is made, and `a` is not, then the writes before `a`
are committed and no others. -/
theorem committed_eq (h : Tracks (p ++ a :: q) (fun _ => none) l)
    (hbefore : ∀ b, p.count b ≤ made (p ++ a :: q) l b)
    (hself : made (p ++ a :: q) l a ≤ p.count a) : l.committed = (writersOf p).length := by
  refine Nat.le_antisymm (Nat.le_of_not_lt fun hlt => ?_) (Nat.le_of_not_lt fun hlt => ?_)
  · -- `a` itself would be behind a committed write, or be one
    have hnext : p.count a < (through ((writersOf p).length + 1) (p ++ a :: q)).count a := by
      rw [through_append_next, List.count_append]
      rcases a with ⟨t, _ | _⟩ <;> simp
    have hmade := h.count_through_le_made a
    have hmono := count_through_mono (Nat.succ_le_of_lt hlt) (p ++ a :: q) a
    exact absurd hnext (Nat.not_lt_of_le (Nat.le_trans hmono (Nat.le_trans hmade hself)))
  · -- a write of `p` would not be made
    have hsame : ∀ t, p.count ⟨t, .write⟩ = (through l.committed p).count ⟨t, .write⟩ := by
      intro t
      have hb := hbefore ⟨t, .write⟩
      rw [made_write, through_append_of_le (Nat.le_of_lt hlt)] at hb
      exact Nat.le_antisymm hb (count_through_le ..)
    have hlen := length_writersOf_eq hsame
    rw [writersOf_through, List.length_take] at hlen
    omega

/-- **The next recorded access is granted.** -/
theorem grant_next (h : Tracks (p ++ a :: q) (fun _ => none) l)
    (hbefore : ∀ b, p.count b ≤ made (p ++ a :: q) l b)
    (hself : made (p ++ a :: q) l a ≤ p.count a) : l.verdict a.thread a.kind = .grant := by
  have hc := h.committed_eq hbefore hself
  rcases a with ⟨t, _ | _⟩
  · refine h.read_granted_iff.mpr ⟨h.reads_ge t, ?_⟩
    rw [hc, through_append_next]
    rw [made_read] at hself
    simp only [through_cons_read, List.count_append, List.count_cons_self]
    omega
  · refine h.write_granted_iff.mpr ⟨by simp [hc], ?_, fun u => ?_⟩
    · simpa using h.reserved
    · rw [hc, through_append_next]
      simpa using hbefore ⟨u, .read⟩

/-- A location that has made what was recorded says so. -/
theorem committed_of_made {opened : RuntimeId → Option AccessKind} (h : Tracks s opened l)
    (hmade : ∀ a, made s l a = s.count a) : l.committed = (writersOf s).length := by
  rw [← h.length_writersOf_through]
  exact length_writersOf_eq fun t => hmade ⟨t, .write⟩

end Location.Tracks

/-! ## Threads that follow a plan -/

namespace ConsistentReplay

/-- The locations, what each thread has not committed yet, and whose next access is
granted. -/
structure State where
  locations : LocationKey → Location
  todo : RuntimeId → List LocatedAccess
  granted : RuntimeId → Bool

/-- The locations of a recording before any access, and a plan for its threads. -/
def start (r : Recording) (p : Plan) : State := ⟨r.locationAt, r.planned p, fun _ => false⟩

/-- One step of one thread. -/
inductive Step : State → State → Prop
  /-- A thread asks for its next access and is granted it. -/
  | grant {σ t a rest} : σ.todo t = a :: rest → σ.granted t = false →
      ((σ.locations a.key).poll t a.kind).1 = .grant →
      Step σ { σ with
        locations := Function.update σ.locations a.key ((σ.locations a.key).poll t a.kind).2
        granted := Function.update σ.granted t true }
  /-- A thread asks for its next access in vain, and will ask again. -/
  | wait {σ t a rest} : σ.todo t = a :: rest → σ.granted t = false →
      ((σ.locations a.key).poll t a.kind).1 ≠ .grant →
      Step σ { σ with
        locations := Function.update σ.locations a.key ((σ.locations a.key).poll t a.kind).2 }
  /-- A thread commits the access that it was granted. -/
  | commit {σ t a rest} : σ.todo t = a :: rest → σ.granted t = true →
      Step σ {
        locations := Function.update σ.locations a.key
          ((σ.locations a.key).commit t a.kind .granted)
        todo := Function.update σ.todo t rest
        granted := Function.update σ.granted t false }

/-- What can be reached by steps of any threads in any order. -/
def Reachable (r : Recording) (p : Plan) : State → Prop :=
  Relation.ReflTransGen Step (start r p)

/-- A thread can move if it has an access to commit, or would be granted its next one. -/
def CanMove (σ : State) (t : RuntimeId) : Prop :=
  ∃ a rest, σ.todo t = a :: rest ∧
    (σ.granted t = true ∨ ((σ.locations a.key).poll t a.kind).1 = .grant)

/-- The access that a thread has open at a location. -/
def openAt (σ : State) (key : LocationKey) (t : RuntimeId) : Option AccessKind :=
  if σ.granted t then
    (σ.todo t).head?.bind fun a => if a.key = key then some a.kind else none
  else none

/-- What holds whatever steps were taken so far: each thread has a rest of its part of the
history left, and the locations have made what is not left. -/
structure OnPlan (h : List PlacedAccess) (σ : State) : Prop where
  tracks : ∀ key, (σ.locations key).Tracks (atLocation key h) (openAt σ key)
  suffix : ∀ t, σ.todo t <:+ byThread t h
  made_add : ∀ key t k, (σ.locations key).made (atLocation key h) ⟨t, k⟩ +
    (σ.todo t).count ⟨key, k⟩ = (atLocation key h).count ⟨t, k⟩

variable {r : Recording} {plan : Plan} {h : List PlacedAccess} {σ σ' : State} {t : RuntimeId}
  {a : LocatedAccess} {rest : List LocatedAccess}

/-! ### What is open -/

theorem update_openAt_elsewhere (htodo : σ.todo t = a :: rest) {key : LocationKey}
    (hk : a.key ≠ key) : Function.update (openAt σ key) t none = openAt σ key := by
  have hnone : openAt σ key t = none := by simp [openAt, htodo, hk]
  exact Function.update_eq_self_iff.mpr hnone.symm

theorem openAt_grant (htodo : σ.todo t = a :: rest) (locations : LocationKey → Location)
    (key : LocationKey) :
    openAt ⟨locations, σ.todo, Function.update σ.granted t true⟩ key =
      Function.update (openAt σ key) t (if a.key = key then some a.kind else none) := by
  funext u
  by_cases hu : u = t
  · subst hu
    simp [openAt, htodo]
  · simp [openAt, hu]

theorem openAt_commit (locations : LocationKey → Location) (key : LocationKey) :
    openAt ⟨locations, Function.update σ.todo t rest, Function.update σ.granted t false⟩ key =
      Function.update (openAt σ key) t none := by
  funext u
  by_cases hu : u = t
  · subst hu
    simp [openAt]
  · simp [openAt, hu]

theorem onPlan_start (ha : r.Accepted) (hs : r.Sequenced) (hp : Plan.ofRecording r = .ok plan) :
    OnPlan r.history (start r plan) where
  tracks key := by
    rw [hs.atLocation_history]
    exact r.tracks_locationAt key
  suffix t := by
    exact Recording.planned_eq ha hs hp t ▸ List.suffix_refl _
  made_add key t k := by
    have hmade : (r.locationAt key).made (atLocation key r.history) ⟨t, k⟩ = 0 := by
      rw [hs.atLocation_history]
      exact Location.made_ofEvents ..
    show _ + (r.planned plan t).count ⟨key, k⟩ = _
    rw [Recording.planned_eq ha hs hp, count_atLocation]
    exact (congrArg (· + _) hmade).trans (Nat.zero_add _)

namespace OnPlan

/-! ### The steps -/

theorem grant (hσ : OnPlan h σ) (htodo : σ.todo t = a :: rest) (hidle : σ.granted t = false)
    (hg : (σ.locations a.key).verdict t a.kind = .grant) :
    OnPlan h { σ with
      locations := Function.update σ.locations a.key ((σ.locations a.key).reserve t a.kind)
      granted := Function.update σ.granted t true } where
  tracks key := by
    rw [openAt_grant htodo]
    by_cases hk : a.key = key
    · subst hk
      have hnone : openAt σ a.key t = none := by simp [openAt, hidle]
      simpa using (hσ.tracks a.key).grant hnone hg
    · simpa [hk, Ne.symm hk, update_openAt_elsewhere htodo hk] using hσ.tracks key
  suffix := hσ.suffix
  made_add key u k := by
    rw [← hσ.made_add key u k]
    by_cases hk : key = a.key
    · subst hk
      simp [Location.made_reserve]
    · simp [hk]

theorem commit (hσ : OnPlan h σ) (htodo : σ.todo t = a :: rest) (hopen : σ.granted t = true) :
    OnPlan h {
      locations := Function.update σ.locations a.key
        ((σ.locations a.key).commit t a.kind .granted)
      todo := Function.update σ.todo t rest
      granted := Function.update σ.granted t false } where
  tracks key := by
    rw [openAt_commit]
    by_cases hk : a.key = key
    · subst hk
      have hat : openAt σ a.key t = some a.kind := by simp [openAt, hopen, htodo]
      simpa using (hσ.tracks a.key).commit hat
    · simpa [Ne.symm hk, update_openAt_elsewhere htodo hk] using hσ.tracks key
  suffix u := by
    by_cases hu : u = t
    · subst hu
      have hold := hσ.suffix u
      rw [htodo] at hold
      simpa using (List.suffix_cons a rest).trans hold
    · simpa [hu] using hσ.suffix u
  made_add key u k := by
    -- what is committed is no longer left to make, and counts as made
    have hmade : (Function.update σ.locations a.key
          ((σ.locations a.key).commit t a.kind .granted) key).made (atLocation key h) ⟨u, k⟩ =
        (σ.locations key).made (atLocation key h) ⟨u, k⟩ +
          if t = u ∧ a = ⟨key, k⟩ then 1 else 0 := by
      by_cases hk : a.key = key
      · subst hk
        have hat : openAt σ a.key t = some a.kind := by simp [openAt, hopen, htodo]
        rw [Function.update_self, (hσ.tracks a.key).made_commit hat]
        rcases a with ⟨key, k'⟩
        simp
      · have hne : a ≠ ⟨key, k⟩ := fun ha => hk (congrArg LocatedAccess.key ha)
        simp [Ne.symm hk, hne]
    have hleft : (σ.todo u).count ⟨key, k⟩ = (Function.update σ.todo t rest u).count ⟨key, k⟩ +
        if t = u ∧ a = ⟨key, k⟩ then 1 else 0 := by
      by_cases hu : t = u
      · subst hu
        simp [htodo, List.count_cons]
      · simp [hu, Ne.symm hu]
    have hold := hσ.made_add key u k
    show Location.made _ (Function.update σ.locations a.key _ key) _ +
      (Function.update σ.todo t rest u).count _ = _
    omega

theorem step (hσ : OnPlan h σ) (hs : Step σ σ') : OnPlan h σ' := by
  cases hs with
  | grant htodo hidle hg => exact hσ.grant htodo hidle hg
  | wait htodo hidle hg =>
    -- asking in vain leaves the location as it is
    rw [Location.poll, Location.reserve_of_not_grant hg, Function.update_eq_self]
    exact hσ
  | commit htodo hopen => exact hσ.commit htodo hopen

theorem of_reachable (ha : r.Accepted) (hs : r.Sequenced) (hp : Plan.ofRecording r = .ok plan)
    (hσ : Reachable r plan σ) : OnPlan r.history σ := by
  induction hσ with
  | refl => exact onPlan_start ha hs hp
  | tail _ hstep ih => exact ih.step hstep

/-! ### What every state has in common -/

/-- No thread is told that its next access has no counterpart. -/
theorem not_diverged (hσ : OnPlan h σ) (htodo : σ.todo t = a :: rest)
    (reason : DivergenceReason) :
    (σ.locations a.key).verdict t a.kind ≠ .diverged reason := by
  intro hv
  have hexhausted := (hσ.tracks a.key).diverged_iff_exhausted.mp ⟨reason, hv⟩
  have hadd := hσ.made_add a.key t a.kind
  have hpos : 0 < (σ.todo t).count ⟨a.key, a.kind⟩ := by simp [htodo]
  omega

/-- **The first access that is left to make is granted**, if no other is open. -/
theorem grant_frontier {p q : List PlacedAccess} {x : PlacedAccess}
    (hσ : OnPlan (p ++ x :: q) σ) (hidle : openAt σ x.1 = fun _ => none)
    (hx : σ.todo x.2.thread = byThread x.2.thread (x :: q))
    (hleft : ∀ t, σ.todo t <:+ byThread t (x :: q)) :
    (σ.locations x.1).verdict x.2.thread x.2.kind = .grant := by
  have htracks := hσ.tracks x.1
  have hadd := hσ.made_add x.1
  rw [hidle, atLocation_append, atLocation_cons_self] at htracks
  simp only [atLocation_append, atLocation_cons_self] at hadd
  have hcount : ∀ u k, (x.2.access :: atLocation x.1 q).count ⟨u, k⟩ =
      (byThread u (x :: q)).count ⟨x.1, k⟩ := fun u k => by
    rw [← count_atLocation, atLocation_cons_self]
  refine htracks.grant_next (fun ⟨u, k⟩ => ?_) ?_
  · have hle := (hleft u).sublist.count_le ⟨x.1, k⟩
    have := hadd u k
    rw [List.count_append, hcount] at this
    omega
  · have := hadd x.2.thread x.2.kind
    rw [List.count_append, hcount, hx] at this
    exact Nat.le_of_eq (Nat.add_right_cancel this)

/-- **As long as something is left, some thread can move.** -/
theorem exists_canMove (hσ : OnPlan h σ) (hleft : ∃ t, σ.todo t ≠ []) : ∃ t, CanMove σ t := by
  by_cases hopen : ∃ t a rest, σ.todo t = a :: rest ∧ σ.granted t = true
  · obtain ⟨t, a, rest, htodo, hg⟩ := hopen
    exact ⟨t, a, rest, htodo, .inl hg⟩
  · -- nothing is open, so no location is kept from granting the frontier
    obtain ⟨p, x, q, rfl, hx, hsuffix⟩ := exists_frontier hσ.suffix hleft
    have hidle : openAt σ x.1 = fun _ => none := by
      funext u
      unfold openAt
      split
      · next hg =>
        cases htodo : σ.todo u with
        | nil => rfl
        | cons a rest => exact absurd ⟨u, a, rest, htodo, hg⟩ hopen
      · rfl
    exact ⟨x.2.thread, ⟨x.1, x.2.kind⟩, byThread x.2.thread q, hx.trans (byThread_cons_self x q),
      .inr (hσ.grant_frontier hidle hx hsuffix)⟩

/-- Once nothing is left, every location is complete. -/
theorem complete (hσ : OnPlan h σ) (hdone : ∀ t, σ.todo t = []) (key : LocationKey) :
    (σ.locations key).committed = (writersOf (atLocation key h)).length ∧
      ∀ t, (σ.locations key).reads.get t = (atLocation key h).count ⟨t, .read⟩ := by
  have hmade : ∀ a, (σ.locations key).made (atLocation key h) a = (atLocation key h).count a := by
    rintro ⟨t, k⟩
    simpa [hdone] using hσ.made_add key t k
  exact ⟨(hσ.tracks key).committed_of_made hmade, fun t => hmade ⟨t, .read⟩⟩

end OnPlan

/-- **A consistent recording replays without divergence and without deadlock, whatever
the scheduling.**  Where every access of an accepted recording has a place of its own in
the whole recording, and the locations list theirs by these places, threads that carry
the plan out

* are never told that an access has no recorded counterpart;
* can move, at least one of them, as long as some access is not committed;
* have therefore committed every recorded access when none of them can move: each
  location has its recorded number of writes, and each thread its recorded reads there. -/
theorem consistent_recording_replays {d : Dump} {r : Recording} {plan : Plan} {σ : State}
    (hd : Recording.ofDump d = .ok r) (hs : r.Sequenced)
    (hp : Plan.ofRecording r = .ok plan) (hσ : Reachable r plan σ) :
    (∀ t a rest reason, σ.todo t = a :: rest →
      ((σ.locations a.key).poll t a.kind).1 ≠ .diverged reason) ∧
    ((∃ t, σ.todo t ≠ []) → ∃ t, CanMove σ t) ∧
    ((∀ t, ¬CanMove σ t) → (∀ t, σ.todo t = []) ∧
      ∀ key, (σ.locations key).committed = (r.locationAt key).schedule.writeCount ∧
        ∀ t, (σ.locations key).reads.get t = (r.orderAt key).count ⟨t, .read⟩) := by
  have hplan := OnPlan.of_reachable (Recording.accepted_ofDump hd) hs hp hσ
  refine ⟨fun t a rest reason htodo => hplan.not_diverged htodo reason,
    hplan.exists_canMove, fun hstuck => ?_⟩
  have hdone : ∀ t, σ.todo t = [] := by
    by_contra hleft
    obtain ⟨t, ht⟩ := hplan.exists_canMove (not_forall.mp hleft)
    exact hstuck t ht
  refine ⟨hdone, fun key => ?_⟩
  obtain ⟨hwrites, hreads⟩ := hplan.complete hdone key
  rw [hs.atLocation_history] at hwrites hreads
  exact ⟨hwrites.trans (Schedule.writeCount_ofEvents _).symm, hreads⟩

/-- A location that two threads share in the runs below. -/
def box : LocationKey := ⟨⟨0⟩, "value"⟩

/-- A thread writes, and the thread it started reads. -/
def handover : Dump where
  threads := [⟨1, []⟩, ⟨2, [0]⟩]
  locations := [⟨⟨0⟩, "Box", "value", [⟨1, .write, some 0⟩, ⟨2, .read, some 1⟩]⟩]

/-- The recording of `handover`. -/
def handedOver : Recording where
  root := .root 1
  others := [(ThreadId.root 1).child 2 0]
  catalogue := ∅
  accesses := (∅ : AccessLedger).insert box
    ⟨"Box", [⟨1, .write, some 0⟩, ⟨2, .read, some 1⟩]⟩

theorem sequenced_handedOver : handedOver.Sequenced where
  every := by decide
  distinct := by decide
  increasing key := by
    by_cases hk : box = key
    · subst hk
      simp [handedOver, AccessLedger.eventsAt]
    · simp [handedOver, AccessLedger.eventsAt, hk]

theorem ofDump_handover : Recording.ofDump handover = .ok handedOver := by
  rw [Recording.ofDump, Recording.growTree_of_pairwise (by decide)]
  rfl

theorem history_handedOver : handedOver.history =
    [(box, ⟨1, .write, some 0⟩), (box, ⟨2, .read, some 1⟩)] :=
  (List.mergeSort_of_pairwise (by decide)).trans (by decide)

theorem handover_replays : ∃ plan σ, Recording.ofDump handover = .ok handedOver ∧
    handedOver.Sequenced ∧ Plan.ofRecording handedOver = .ok plan ∧
    Reachable handedOver plan σ ∧ (σ.locations box).committed = 1 ∧
    σ.todo 2 = [⟨box, .read⟩] ∧ ∃ t, CanMove σ t := by
  obtain ⟨plan, hplan⟩ : ∃ plan, Plan.ofRecording handedOver = .ok plan := ⟨_, rfl⟩
  have htodo : ∀ t, (start handedOver plan).todo t = byThread t handedOver.history :=
    Recording.planned_eq (Recording.accepted_ofDump ofDump_handover) sequenced_handedOver hplan
  rw [history_handedOver] at htodo
  have hgranted : ((handedOver.locationAt box).poll 1 .write).1 = .grant := by decide
  have hreach := (Relation.ReflTransGen.single (Step.grant (htodo 1) rfl hgranted)).tail
    (.commit (t := 1) (htodo 1) rfl)
  refine ⟨plan, _, ofDump_handover, sequenced_handedOver, hplan, hreach, rfl, htodo 2, ?_⟩
  refine (consistent_recording_replays ofDump_handover sequenced_handedOver hplan
    hreach).2.1 ⟨2, ?_⟩
  exact htodo 2 ▸ List.cons_ne_nil _ _

end ConsistentReplay
end AccessReplay
