import AccessReplay.Proofs.OpenAccesses
import AccessReplay.Proofs.ScheduleAnswers

/-!
# A before-hook among other threads

A before-hook takes its steps one at a time, and other threads may do anything in between.
`found k` is the engine that a thread finds at its `k`-th step; nothing is assumed of what it finds
but the budget, so every order of the threads is covered, and every answer that a location can
give.

What the thread has done after so many steps (`deeds`) fits the stage where it stands (`Fits`),
which each step keeps (`fits_step`).  What it commits, files and reports is what its steps do to the
engine (`memory_step_of_committed`, `files_step_of_filed`, `reported_step`).  As each step lowers the
rank, the hook has ended after as many steps as its first stage ranks (`stage_stand`).  So it ends in
one of five ways, and the access that it leaves open, what it reported and how often it backed off
are decided by which (`before_hook_accounted`).
-/
namespace AccessReplay

/-- What settles how a before-hook ends. -/
inductive Ending where
  /-- The access is not checked: the checks are stopped, or its field is not shared, or there is no
  location for it. -/
  | unchecked
  /-- Its location grants it. -/
  | granted
  /-- Its location finds that it can never be matched. -/
  | unmatched (reason : DivergenceReason)
  /-- It has to wait, and the budget is used up. -/
  | outwaited
  /-- It had to wait, and the checks are stopped. -/
  | stopped
deriving DecidableEq, Repr

/-- What a thread does in a hook, each in order. -/
structure Deeds where
  committed : List OpenAccess := []
  filed : List OpenAccess := []
  /-- The answers it gets from the location of its access. -/
  answers : List Verdict := []
  pauses : List Pause := []
  reports : List Divergence := []
  endings : List Ending := []

namespace Deeds

/-- What is done first and what is done then. -/
def append (x y : Deeds) : Deeds where
  committed := x.committed ++ y.committed
  filed := x.filed ++ y.filed
  answers := x.answers ++ y.answers
  pauses := x.pauses ++ y.pauses
  reports := x.reports ++ y.reports
  endings := x.endings ++ y.endings

/-- The access that was still open is finished, and nothing else is done. -/
def finished (old : Option OpenAccess) : Deeds where
  committed := old.toList
  filed := old.toList

end Deeds

/-- What a thread does in its next step. -/
def Engine.deed (e : Engine) (c : Caller) : Deeds :=
  match c.stage with
  | .committing a _ => { committed := [a] }
  | .filing a _ => { filed := [a] }
  | .choosing r =>
    if e.checking && e.memory.isShared r.object r.field then {} else { endings := [.unchecked] }
  | .locating r => if (e.locate r).2.isSome then {} else { endings := [.unchecked] }
  | .asking q =>
    match (e.memory.poll q.location q.thread q.kind).2 with
    | .grant => { answers := [.grant], endings := [.granted] }
    | .wait => { answers := [.wait] }
    | .diverged reason => { answers := [.diverged reason], endings := [.unmatched reason] }
  | .waiting _ => if e.checking then {} else { endings := [.stopped] }
  | .resting q =>
    match (Patience.mk e.budget q.retries).pause.1 with
    | some pause => { pauses := [pause] }
    | none => { endings := [.outwaited] }
  | .reporting q reason => { reports := [divergence c.who q reason] }
  | _ => {}

/-- Why an access goes ahead against the recorded order after so many pauses: the answers to it,
the reason that is reported, and the ending. -/
inductive GivenUp (b : Budget) : Nat → List Verdict → DivergenceReason → Ending → Prop
  | unmatched {n reason} : n ≤ b.maxRetries → (∀ writer m, reason ≠ .stalled writer m) →
      GivenUp b n (.replicate n .wait ++ [.diverged reason]) reason (.unmatched reason)
  | outwaited {n writer m} : n = b.maxRetries →
      GivenUp b n (.replicate (n + 1) .wait) (.stalled writer m) .outwaited

/-- What a thread has done in a before-hook fits where it stands.  At first it has `old` open,
and it announces `r`. -/
inductive Fits (b : Budget) (old : Option OpenAccess) (r : Request) : Deeds → Caller → Prop
  | arriving {p stage} : stage = .announced r ∨ stage = .counted r → p.pending = old →
      Fits b old r {} ⟨p, stage⟩
  | committing {p a} : old = some a → p.pending = none →
      Fits b old r {} ⟨p, .committing a (some r)⟩
  | filing {p a} : old = some a → p.pending = none →
      Fits b old r { committed := [a] } ⟨p, .filing a (some r)⟩
  | choosing {p stage} : stage = .releasing (some r) ∨ stage = .choosing r ∨ stage = .locating r →
      p.pending = none → Fits b old r (.finished old) ⟨p, stage⟩
  | asking {p q pauses} : q.retries = pauses.length → q.retries ≤ b.maxRetries →
      Fits b old r
        { Deeds.finished old with answers := .replicate q.retries .wait, pauses }
        ⟨p, .asking q⟩
  | waiting {p q stage pauses} : stage = .waiting q ∨ stage = .resting q →
      q.retries = pauses.length → q.retries ≤ b.maxRetries →
      Fits b old r
        { Deeds.finished old with answers := .replicate (q.retries + 1) .wait, pauses }
        ⟨p, stage⟩
  | giving {p q stage reason answers pauses ending} :
      stage = .marking q reason ∨ stage = .flagging q reason ∨ stage = .counting q reason ∨
        stage = .reporting q reason →
      q.retries = pauses.length → GivenUp b q.retries answers reason ending →
      Fits b old r { Deeds.finished old with answers, pauses, endings := [ending] } ⟨p, stage⟩
  | leaving {p} : p.pending = none →
      Fits b old r { Deeds.finished old with endings := [.unchecked] } ⟨p, .leaving⟩
  | unchecked {p} : p.pending = none →
      Fits b old r { Deeds.finished old with endings := [.unchecked] } ⟨p, .outside⟩
  | granted {p a pauses} : p.pending = some a → a.outcome = .granted →
      a.retries = pauses.length → a.retries ≤ b.maxRetries →
      Fits b old r
        { Deeds.finished old with
          answers := .replicate a.retries .wait ++ [.grant], pauses, endings := [.granted] }
        ⟨p, .outside⟩
  | forced {p a d answers pauses ending} : p.pending = some a → a.outcome = .forced →
      a.retries = pauses.length → d.retries = pauses.length →
      GivenUp b a.retries answers d.reason ending →
      Fits b old r
        { Deeds.finished old with answers, pauses, reports := [d], endings := [ending] }
        ⟨p, .outside⟩
  | stopped {p a pauses} : p.pending = some a → a.outcome = .forced →
      a.retries = pauses.length → a.retries ≤ b.maxRetries →
      Fits b old r
        { Deeds.finished old with
          answers := .replicate (a.retries + 1) .wait, pauses, endings := [.stopped] }
        ⟨p, .outside⟩

/-- No location gives the reason that an access waited too long. -/
theorem Location.verdict_ne_stalled {l : Location} {t : RuntimeId} {k : AccessKind}
    {reason : DivergenceReason} (h : l.verdict t k = .diverged reason) (writer : Option RuntimeId)
    (n : Nat) : reason ≠ .stalled writer n := by
  rintro rfl
  unfold verdict at h
  split at h
  · cases h
  · cases k with
    | read =>
      simp only [Schedule.judgeRead] at h
      split at h
      · cases h
      · split at h
        · cases h
        · split at h <;> cases h
    | write =>
      have hcases := Schedule.judgeWrite_cases l.schedule t l.committed l.writeOpen l.reads
      simp [h] at hcases

namespace Engine

variable {e : Engine} {b : Budget} {old : Option OpenAccess} {r : Request} {x : Deeds}
  {c : Caller} {p : Participant} {q : Inquiry}

theorem poll_ne_stalled {reason : DivergenceReason}
    (h : (e.memory.poll q.location q.thread q.kind).2 = .diverged reason)
    (writer : Option RuntimeId) (n : Nat) : reason ≠ .stalled writer n := by
  unfold LiveMemory.poll at h
  split at h
  · cases h
  · exact Location.verdict_ne_stalled h writer n

/-! ### One step -/

theorem fits_choosing (hp : p.pending = none) :
    Fits e.budget old r ((Deeds.finished old).append (e.deed ⟨p, .choosing r⟩))
      (e.step ⟨p, .choosing r⟩).2 := by
  by_cases hshared : (e.checking && e.memory.isShared r.object r.field) = true
  · have hlocating : Fits e.budget old r _ ⟨p, .locating r⟩ := .choosing (.inr (.inr rfl)) hp
    simpa [Deeds.append, Deeds.finished, deed, step, hshared] using hlocating
  · have hleaving : Fits e.budget old r _ ⟨p, .leaving⟩ := .leaving hp
    simpa [Deeds.append, Deeds.finished, deed, step, hshared] using hleaving

theorem fits_locating (hp : p.pending = none) :
    Fits e.budget old r ((Deeds.finished old).append (e.deed ⟨p, .locating r⟩))
      (e.step ⟨p, .locating r⟩).2 := by
  cases hfound : (e.locate r).2 with
  | none =>
    have hleaving : Fits e.budget old r _ ⟨p, .leaving⟩ := .leaving hp
    simpa [Deeds.append, Deeds.finished, deed, step, hfound] using hleaving
  | some ref =>
    let q : Inquiry := ⟨ref, (e.locate r).1.actsAs p, r.kind, 0⟩
    have hasking : Fits e.budget old r
        { Deeds.finished old with answers := .replicate q.retries .wait, pauses := [] }
        ⟨p, .asking q⟩ := .asking rfl (Nat.zero_le _)
    simpa [Deeds.append, Deeds.finished, deed, step, hfound, q] using hasking

section Asking
variable {pauses : List Pause}

theorem fits_asking (hretries : q.retries = pauses.length)
    (hle : q.retries ≤ e.budget.maxRetries) :
    Fits e.budget old r
      (Deeds.append { Deeds.finished old with answers := .replicate q.retries .wait, pauses }
        (e.deed ⟨p, .asking q⟩))
      (e.step ⟨p, .asking q⟩).2 := by
  cases hv : (e.memory.poll q.location q.thread q.kind).2 with
  | grant =>
    have hgranted : Fits e.budget old r _
        ⟨{ p with pending := some (q.access .granted) }, .outside⟩ := .granted rfl rfl hretries hle
    simpa [Deeds.append, Deeds.finished, deed, step, letThrough, hv, Inquiry.access] using hgranted
  | wait =>
    have hwaiting : Fits e.budget old r _ ⟨p, .waiting q⟩ := .waiting (.inl rfl) hretries hle
    simpa [Deeds.append, Deeds.finished, deed, step, hv, List.replicate_succ'] using hwaiting
  | diverged reason =>
    have hgiving : Fits e.budget old r _ ⟨p, .marking q reason⟩ :=
      .giving (.inl rfl) hretries (.unmatched hle (poll_ne_stalled hv))
    simpa [Deeds.append, Deeds.finished, deed, step, hv] using hgiving

theorem fits_waiting (hretries : q.retries = pauses.length)
    (hle : q.retries ≤ e.budget.maxRetries) :
    Fits e.budget old r
      (Deeds.append { Deeds.finished old with answers := .replicate (q.retries + 1) .wait, pauses }
        (e.deed ⟨p, .waiting q⟩))
      (e.step ⟨p, .waiting q⟩).2 := by
  cases hc : e.checking with
  | true =>
    have hresting : Fits e.budget old r _ ⟨p, .resting q⟩ := .waiting (.inr rfl) hretries hle
    simpa [Deeds.append, Deeds.finished, deed, step, hc] using hresting
  | false =>
    have hstopped : Fits e.budget old r _
        ⟨{ p with pending := some (q.access .forced) }, .outside⟩ := .stopped rfl rfl hretries hle
    simpa [Deeds.append, Deeds.finished, deed, step, letThrough, hc, Inquiry.access] using hstopped

/-- A thread that backs off makes a pause and asks again, or has used its budget up. -/
theorem fits_resting (hretries : q.retries = pauses.length)
    (hle : q.retries ≤ e.budget.maxRetries) :
    Fits e.budget old r
      (Deeds.append { Deeds.finished old with answers := .replicate (q.retries + 1) .wait, pauses }
        (e.deed ⟨p, .resting q⟩))
      (e.step ⟨p, .resting q⟩).2 := by
  rcases Nat.lt_or_ge q.retries e.budget.maxRetries with hleft | hspent
  · let pause : Pause := e.budget.pauseAfter q.retries
    let again : Inquiry := { q with retries := q.retries + 1 }
    have hpause : (Patience.mk e.budget q.retries).pause = (some pause, ⟨e.budget, again.retries⟩) :=
      Patience.pause_of_left hleft
    have hagain : again.retries = (pauses ++ [pause]).length := by simp [again, hretries]
    have hasking : Fits e.budget old r
        { Deeds.finished old with
          answers := .replicate again.retries .wait, pauses := pauses ++ [pause] }
        ⟨p, .asking again⟩ := .asking hagain hleft
    simpa [Deeds.append, Deeds.finished, deed, step, hpause, again] using hasking
  · obtain ⟨writer, n, hstall⟩ := stall_eq e q
    have hpause : (Patience.mk e.budget q.retries).pause = (none, ⟨e.budget, q.retries⟩) :=
      Patience.pause_of_spent hspent
    have hgiving : Fits e.budget old r _ ⟨p, .marking q (.stalled writer n)⟩ :=
      .giving (.inl rfl) hretries (.outwaited (Nat.le_antisymm hle hspent))
    simpa [Deeds.append, Deeds.finished, deed, step, hpause, hstall] using hgiving

/-- A thread that gives an access up has it go ahead all the same, and reports it once. -/
theorem fits_giving {stage : Stage} {reason : DivergenceReason} {answers : List Verdict}
    {ending : Ending}
    (hstage : stage = .marking q reason ∨ stage = .flagging q reason ∨
      stage = .counting q reason ∨ stage = .reporting q reason)
    (hretries : q.retries = pauses.length)
    (hgiven : GivenUp e.budget q.retries answers reason ending) :
    Fits e.budget old r
      (Deeds.append { Deeds.finished old with answers, pauses, endings := [ending] }
        (e.deed ⟨p, stage⟩))
      (e.step ⟨p, stage⟩).2 := by
  have hgiving {p' : Participant} {stage' : Stage} (hstage' : stage' = .marking q reason ∨
      stage' = .flagging q reason ∨ stage' = .counting q reason ∨ stage' = .reporting q reason) :
      Fits e.budget old r { Deeds.finished old with answers, pauses, endings := [ending] }
        ⟨p', stage'⟩ := .giving hstage' hretries hgiven
  rcases hstage with rfl | rfl | rfl | rfl
  · simpa [Deeds.append, Deeds.finished, deed, step] using hgiving (.inr (.inl rfl))
  · simpa [Deeds.append, Deeds.finished, deed, step, flag_eq] using hgiving (.inr (.inr (.inl rfl)))
  · simpa [Deeds.append, Deeds.finished, deed, step] using hgiving (.inr (.inr (.inr rfl)))
  · have hforced : Fits e.budget old r
        { Deeds.finished old with
          answers, pauses, reports := [divergence p q reason], endings := [ending] }
        ⟨{ p with pending := some (q.access .forced) }, .outside⟩ :=
      .forced rfl rfl hretries hretries hgiven
    simpa [Deeds.append, Deeds.finished, deed, step, letThrough] using hforced

end Asking

/-- **What a thread has done goes on fitting where it stands**, whatever it finds at each step. -/
theorem fits_step (hb : e.budget = b) (h : Fits b old r x c) :
    Fits b old r (x.append (e.deed c)) (e.step c).2 := by
  subst hb
  have houtside {p : Participant} (h : Fits e.budget old r x ⟨p, .outside⟩) :
      Fits e.budget old r (x.append (e.deed ⟨p, .outside⟩)) (e.step ⟨p, .outside⟩).2 := by
    simpa [Deeds.append, deed, step] using h
  cases h with
  | @arriving p _ hstage hp =>
    rcases hstage with rfl | rfl
    · have hcounted : Fits e.budget old r {} ⟨p, .counted r⟩ := .arriving (.inr rfl) hp
      simpa [Deeds.append, deed, step] using hcounted
    · cases hold : old with
      | none =>
        rw [hold] at hp
        have hchoosing : Fits e.budget none r _ ⟨p, .choosing r⟩ := .choosing (.inr (.inl rfl)) hp
        simpa [Deeds.append, Deeds.finished, deed, step, hp] using hchoosing
      | some a =>
        rw [hold] at hp
        have hcommitting : Fits e.budget (some a) r {}
            ⟨{ p with pending := none }, .committing a (some r)⟩ := .committing rfl rfl
        simpa [Deeds.append, deed, step, hp] using hcommitting
  | @committing p a hold hp =>
    have hfiling : Fits e.budget old r _ ⟨p, .filing a (some r)⟩ := .filing hold hp
    simpa [Deeds.append, deed, step] using hfiling
  | @filing p a hold hp =>
    have hreleasing : Fits e.budget old r _
        ⟨{ p with history := (p.history.change (·.add a) e.book).2 }, .releasing (some r)⟩ :=
      .choosing (.inl rfl) hp
    simpa [Deeds.append, Deeds.finished, deed, step, file_eq, hold] using hreleasing
  | @choosing p _ hstage hp =>
    rcases hstage with rfl | rfl | rfl
    · have hchoosing : Fits e.budget old r _ ⟨p, .choosing r⟩ := .choosing (.inr (.inl rfl)) hp
      simpa [Deeds.append, Deeds.finished, deed, step] using hchoosing
    · exact fits_choosing hp
    · exact fits_locating hp
  | asking hretries hle => exact fits_asking hretries hle
  | waiting hstage hretries hle =>
    rcases hstage with rfl | rfl
    · exact fits_waiting hretries hle
    · exact fits_resting hretries hle
  | giving hstage hretries hgiven => exact fits_giving hstage hretries hgiven
  | @leaving p hp =>
    have hunchecked : Fits e.budget old r _ ⟨p, .outside⟩ := .unchecked hp
    simpa [Deeds.append, Deeds.finished, deed, step] using hunchecked
  | unchecked hp => exact houtside (.unchecked hp)
  | granted hp hout hretries hle => exact houtside (.granted hp hout hretries hle)
  | forced hp hout hretries hd hgiven => exact houtside (.forced hp hout hretries hd hgiven)
  | stopped hp hout hretries hle => exact houtside (.stopped hp hout hretries hle)

/-! ### What a step does to the engine -/

/-- What a thread commits, files and reports in its next step, its stage says. -/
theorem deed_eq (e : Engine) (c : Caller) :
    (e.deed c).committed = c.commits ∧ (e.deed c).filed = c.filed ∧
    (e.deed c).reports =
      match c.stage with
      | .reporting q reason => [divergence c.who q reason]
      | _ => [] := by
  obtain ⟨p, stage⟩ := c
  cases stage with
  | choosing | locating | asking | waiting | resting =>
    simp only [deed]
    split <;> exact ⟨rfl, rfl, rfl⟩
  | _ => exact ⟨rfl, rfl, rfl⟩

/-- What a thread commits is committed in memory. -/
theorem memory_step_of_committed {a : OpenAccess} (h : a ∈ (e.deed c).committed) :
    (e.step c).1.memory = e.memory.commit a := by
  rw [(deed_eq e c).1] at h
  rw [(effect_step e c).memory]
  obtain ⟨p, stage⟩ := c
  cases stage with
  | committing b next =>
    obtain rfl : a = b := List.mem_singleton.mp h
    rfl
  | _ => exact absurd h List.not_mem_nil

/-- What a thread files is added to its history. -/
theorem files_step_of_filed {a : OpenAccess} (h : a ∈ (e.deed c).filed) :
    ((e.step c).1.book, (e.step c).2.who.history) = c.who.history.change (·.add a) e.book := by
  rw [(deed_eq e c).2.1] at h
  rw [(effect_step e c).files]
  obtain ⟨p, stage⟩ := c
  cases stage with
  | filing b next =>
    obtain rfl : a = b := List.mem_singleton.mp h
    rfl
  | _ => exact absurd h List.not_mem_nil

/-- What a thread reports is what the observer is told, if there is one. -/
theorem reported_step (e : Engine) (c : Caller) : (e.step c).1.reported =
    if e.observer.isSome then e.reported ++ (e.deed c).reports.toArray else e.reported := by
  rw [(effect_step e c).reported, (deed_eq e c).2.2]
  obtain ⟨p, stage⟩ := c
  cases stage with
  | reporting q reason =>
    simp only [reportedNext, told]
    split <;> simp
  | _ => simp [reportedNext]

/-- The thread was not led to a location, and it is not in no hook with an access open. -/
def Unled (c : Caller) : Prop :=
  c.stage.inquiry? = none ∧ (c.stage = .outside → c.who.pending = none)

/-- A step that leads to no location leaves all locations as they are, unless it commits an
access. -/
theorem memory_step_of_unled (h : Unled (e.step c).2) :
    Unled c ∧ (c.commits = [] → (e.step c).1.memory = e.memory) := by
  obtain ⟨p, stage⟩ := c
  cases stage with
  | outside => exact ⟨h, fun _ => rfl⟩
  | committing a next => exact ⟨⟨rfl, fun hout => by cases hout⟩, fun hnone => by cases hnone⟩
  | locating r =>
    rw [(effect_step e _).memory]
    simp only [step, locate] at h
    split at h
    · next hfound =>
      exact ⟨⟨rfl, fun hout => by cases hout⟩, fun _ => LiveMemory.lookUp_fst_of_none hfound⟩
    · cases h.1
  | asking q =>
    simp only [step] at h
    split at h
    · cases h.2 rfl
    · cases h.1
    · cases h.1
  | waiting q =>
    simp only [step] at h
    split at h
    · cases h.1
    · cases h.2 rfl
  | resting q =>
    simp only [step] at h
    split at h <;> cases h.1
  | reporting q reason => cases h.2 rfl
  | marking | counting => cases h.1
  | flagging q reason =>
    simp only [step, flag_eq] at h
    cases h.1
  | _ => exact ⟨⟨rfl, fun hout => by cases hout⟩, fun _ => (effect_step e _).memory⟩

/-! ### The whole hook -/

/-- Where a thread stands after `k` steps of a before-hook. -/
def stand (found : Nat → Engine) (p : Participant) (r : Request) : Nat → Caller
  | 0 => ⟨p, .announced r⟩
  | k + 1 => ((found k).step (stand found p r k)).2

/-- What it has done by then. -/
def deeds (found : Nat → Engine) (p : Participant) (r : Request) : Nat → Deeds
  | 0 => {}
  | k + 1 => (deeds found p r k).append ((found k).deed (stand found p r k))

/-- By how much it has changed the number of accesses in flight by then. -/
def flow (found : Nat → Engine) (p : Participant) (r : Request) : Nat → UInt64
  | 0 => 0
  | k + 1 => flow found p r k +
      (((found k).step (stand found p r k)).1.inFlight - (found k).inFlight)

variable {found : Nat → Engine}

theorem fits_stand (hb : ∀ k, (found k).budget = b) (p : Participant) (r : Request) (k : Nat) :
    Fits b p.pending r (deeds found p r k) (stand found p r k) := by
  induction k with
  | zero => exact .arriving (.inl rfl) rfl
  | succ k ih => exact fits_step (hb k) ih

theorem proper_stand (found : Nat → Engine) (p : Participant) (r : Request) (k : Nat) :
    (stand found p r k).Proper := by
  induction k with
  | zero => trivial
  | succ k ih => exact proper_step _ ih

theorem rank_stand (hb : ∀ k, (found k).budget = b) (p : Participant) (r : Request) (k : Nat) :
    (stand found p r k).stage.rank b.maxRetries ≤ (Stage.announced r).rank b.maxRetries - k := by
  induction k with
  | zero => exact Nat.le_refl _
  | succ k ih =>
    rw [stand]
    by_cases hout : (stand found p r k).stage = .outside
    · simp [step, hout, Stage.rank]
    · have hlt := rank_step_lt (found k) (stand found p r k) hout
      rw [hb k] at hlt
      omega

/-- **A before-hook ends**, whatever its thread finds. -/
theorem stage_stand (hb : ∀ k, (found k).budget = b) (p : Participant) (r : Request) :
    (stand found p r ((Stage.announced r).rank b.maxRetries)).stage = .outside := by
  by_contra hin
  have hrank := rank_stand hb p r ((Stage.announced r).rank b.maxRetries)
  have hlt := rank_step_lt (found 0) _ hin
  rw [hb 0] at hlt
  omega

/-- **The number in flight changes as the load of the thread.** -/
theorem flow_eq (found : Nat → Engine) (p : Participant) (r : Request) (k : Nat) :
    flow found p r k + .ofNat p.pending.toList.length = .ofNat (stand found p r k).load := by
  induction k with
  | zero => simp [flow, stand, Caller.load, Caller.stageLoad]
  | succ k ih =>
    have hstep := inFlight_step (found k) (proper_stand found p r k)
    rw [flow, stand]
    grind

/-- A thread that leaves no access open has left all locations as they were, but for the access
that it finished. -/
theorem memory_stand {n : Nat} (h : Unled (stand found p r n)) {k : Nat} (hk : k < n)
    (hcommits : (stand found p r k).commits = []) :
    ((found k).step (stand found p r k)).1.memory = (found k).memory := by
  induction n with
  | zero => exact absurd hk (Nat.not_lt_zero k)
  | succ n ih =>
    obtain ⟨hunled, hmemory⟩ := memory_step_of_unled h
    rcases Nat.lt_succ_iff_lt_or_eq.mp hk with hlt | rfl
    · exact ih hunled hlt
    · exact hmemory hcommits

/-- How a before-hook has ended of which the thread has done `x` and left `pending` open, when at
first it had `old` open. -/
structure Accounted (b : Budget) (old : Option OpenAccess) (x : Deeds)
    (pending : Option OpenAccess) : Prop where
  committed : x.committed = old.toList
  filed : x.filed = old.toList
  polls_le : x.answers.length ≤ b.maxRetries + 1
  /-- It ends in one of four ways. -/
  ends : (pending = none ∧ x.answers = [] ∧ x.reports = []) ∨
    ∃ a, pending = some a ∧ ((a.outcome = .granted ∧ x.reports = []) ∨
      (a.outcome = .forced ∧ x.reports.length = 1) ∨ (a.outcome = .forced ∧ x.reports = []))
  /-- Nothing is left open exactly if the access is not checked. -/
  unchecked_iff : pending = none ↔ x.endings = [.unchecked]
  /-- The access is granted exactly if the last answer says so. -/
  granted_iff : (∃ a, pending = some a ∧ a.outcome = .granted) ↔ x.answers.getLast? = some .grant
  /-- It is forced and reported exactly if the last answer is that it can never be matched, or the
  budget is used up. -/
  reported_iff : (∃ a, pending = some a ∧ a.outcome = .forced ∧ x.reports.length = 1) ↔
    (∃ reason, x.answers.getLast? = some (.diverged reason)) ∨ x.endings = [.outwaited]
  /-- It is forced and not reported exactly if the checks were stopped while it waited. -/
  stopped_iff : (∃ a, pending = some a ∧ a.outcome = .forced ∧ x.reports = []) ↔
    x.endings = [.stopped]
  /-- It was told to wait when it was given up for waiting. -/
  waited : x.endings = [.outwaited] ∨ x.endings = [.stopped] → x.answers.getLast? = some .wait
  pauses_le : x.pauses.length ≤ b.maxRetries
  retries_eq : ∀ a, pending = some a → a.retries = x.pauses.length
  reported_retries : ∀ d ∈ x.reports, d.retries = x.pauses.length ∧
    ∀ writer n, d.reason = .stalled writer n → d.retries = b.maxRetries

theorem accounted_of_fits (h : Fits b old r x ⟨p, .outside⟩) : Accounted b old x p.pending := by
  cases h with
  | arriving hstage _ => simp at hstage
  | choosing hstage _ => simp at hstage
  | waiting hstage _ _ => simp at hstage
  | giving hstage _ _ => simp at hstage
  | unchecked hp => constructor <;> simp [Deeds.finished, hp]
  | granted hp hout hretries hle =>
    constructor <;> simp [Deeds.finished, hp, hout, hretries] <;> omega
  | stopped hp hout hretries hle =>
    constructor <;> simp [Deeds.finished, hp, hout, hretries, List.getLast?_replicate] <;> omega
  | @forced _ a d answers pauses ending hp hout hretries hd hgiven =>
    generalize hreported : d.reason = reason at hgiven
    cases hgiven with
    | unmatched hle hreason =>
      constructor <;> simp [Deeds.finished, hp, hout, hretries, hd, hreported, hreason] <;> omega
    | outwaited hspent =>
      constructor <;>
        simp [Deeds.finished, hp, hout, hretries, hd, List.getLast?_replicate] <;> omega

/-- Nothing is asked or settled before the access that was still open is finished. -/
theorem finished_of_fits (h : Fits b old r x c) (hx : x.answers ≠ [] ∨ x.endings ≠ []) :
    x.committed = old.toList ∧ x.filed = old.toList := by
  cases h with
  | arriving _ _ => simp at hx
  | committing _ _ => simp at hx
  | filing _ _ => simp at hx
  | choosing _ _ => exact ⟨rfl, rfl⟩
  | asking _ _ => exact ⟨rfl, rfl⟩
  | waiting _ _ _ => exact ⟨rfl, rfl⟩
  | giving _ _ _ => exact ⟨rfl, rfl⟩
  | leaving _ => exact ⟨rfl, rfl⟩
  | unchecked _ => exact ⟨rfl, rfl⟩
  | granted _ _ _ _ => exact ⟨rfl, rfl⟩
  | forced _ _ _ _ _ => exact ⟨rfl, rfl⟩
  | stopped _ _ _ _ => exact ⟨rfl, rfl⟩

/-- **A before-hook is bounded and ends in exactly one accounted way.**  Whatever its thread finds
at each step, it has ended after as many steps as its first stage ranks:

* it has asked at most once more than it may back off, it has finished the access that was still
  open before it asked or settled anything, and it leaves nothing open, or the access granted, or
  forced and reported once, or forced and not reported, each exactly under its own condition
  (`Accounted`);
* what it commits is committed in memory, and what it files is added to its history;
* what it reports is what the observer is told, if there is one;
* if it leaves nothing open, no step but the one that commits the old access touches a location;
* it has changed the number of accesses in flight by what it has open more or less than before. -/
theorem before_hook_accounted (found : Nat → Engine) (b : Budget)
    (hb : ∀ k, (found k).budget = b) (p : Participant) (r : Request) :
    let n := (Stage.announced r).rank b.maxRetries
    let c := stand found p r n
    c.stage = .outside ∧ Accounted b p.pending (deeds found p r n) c.who.pending ∧
    (∀ k, (deeds found p r k).answers ≠ [] ∨ (deeds found p r k).endings ≠ [] →
      (deeds found p r k).committed = p.pending.toList ∧
        (deeds found p r k).filed = p.pending.toList) ∧
    (∀ k, ∀ a ∈ ((found k).deed (stand found p r k)).committed,
      ((found k).step (stand found p r k)).1.memory = (found k).memory.commit a) ∧
    (∀ k, ∀ a ∈ ((found k).deed (stand found p r k)).filed,
      (((found k).step (stand found p r k)).1.book, (stand found p r (k + 1)).who.history) =
        (stand found p r k).who.history.change (·.add a) (found k).book) ∧
    (∀ k, ((found k).step (stand found p r k)).1.reported =
      if (found k).observer.isSome then
        (found k).reported ++ ((found k).deed (stand found p r k)).reports.toArray
      else (found k).reported) ∧
    (c.who.pending = none → ∀ k < n, (stand found p r k).commits = [] →
      ((found k).step (stand found p r k)).1.memory = (found k).memory) ∧
    flow found p r n + .ofNat p.pending.toList.length = .ofNat c.who.pending.toList.length := by
  intro n c
  have hout : c.stage = .outside := stage_stand hb p r
  have hfits : Fits b p.pending r (deeds found p r n) c := fits_stand hb p r n
  have hflow := flow_eq found p r n
  refine ⟨hout, ?_, fun k => finished_of_fits (fits_stand hb p r k),
    fun k a ha => memory_step_of_committed ha, fun k a ha => files_step_of_filed ha,
    fun k => reported_step _ _, fun hnone k hk => memory_stand ⟨?_, fun _ => hnone⟩ hk, ?_⟩
  · obtain ⟨who, stage⟩ := c
    obtain rfl : stage = .outside := hout
    exact accounted_of_fits hfits
  · show c.stage.inquiry? = none
    rw [hout]
    rfl
  · rw [hflow]
    show UInt64.ofNat (c.who.pending.toList.length + Caller.stageLoad c.stage) = _
    rw [hout]
    rfl

/-- The engine that a thread finds at each step, when no other thread takes one, and where it
stands. -/
def alone (e : Engine) (c : Caller) : Nat → Engine × Caller
  | 0 => (e, c)
  | k + 1 => (alone e c k).1.step (alone e c k).2

theorem budget_alone (e : Engine) (c : Caller) (k : Nat) : (alone e c k).1.budget = e.budget := by
  induction k with
  | zero => rfl
  | succ k ih => exact (budget_step _ _).trans ih

/-- The root reads, and is to read once more when a thread has written that never starts. -/
def unwritten : Recording where
  root := .root 1
  others := [.child (.root 1) 2 0]
  catalogue := (∅ : Catalogue).insert "Box" ((∅ : Std.ExtTreeSet String).insert "value")
  accesses := (∅ : AccessLedger).insert ⟨⟨0⟩, "value"⟩
    ⟨"Box", [⟨1, .read, none⟩, ⟨2, .write, none⟩, ⟨1, .read, none⟩]⟩

/-- The root reads. -/
def readBox : Request := ⟨⟨100, "Box"⟩, "value", .read⟩

/-- The replay of `unwritten` once the first read was let through, and the root, which calls no
after-hook before it reads again. -/
def deserted : Engine × Participant :=
  let e := (Engine.start {} unwritten 0 ⟨7, "main"⟩ { maxRetries := 2 } none).objectCreated
    ⟨100, "Box"⟩
  e.before e.rootParticipant readBox

/-- The read that the root still has open. -/
def firstRead : OpenAccess := ⟨⟨1, ⟨⟨0⟩, "value"⟩⟩, 1, .read, .granted, 0⟩

/-- What the root finds at each step of its second read. -/
def foundAlone (k : Nat) : Engine := (alone deserted.1 ⟨deserted.2, .announced readBox⟩ k).1

theorem lone_reader_gives_up : (∀ k, (foundAlone k).budget = { maxRetries := 2 }) ∧
    deserted.2.pending = some firstRead ∧
    let n := (Stage.announced readBox).rank 2
    let c := stand foundAlone deserted.2 readBox n
    let x := deeds foundAlone deserted.2 readBox n
    c.stage = .outside ∧ Accounted { maxRetries := 2 } (some firstRead) x c.who.pending ∧
    x.committed = [firstRead] ∧ x.filed = [firstRead] ∧
    ((foundAlone n).memory.find? firstRead.location).map (·.reads.get 1) = some 1 ∧
    ((foundAlone n).historyOf c.who).accesses = #[firstRead] ∧
    c.who.pending.map (fun a => (a.outcome, a.retries)) = some (.forced, 2) ∧
    x.reports.map Divergence.reason = [.stalled (some 2) 0] := by
  have hb : ∀ k, (foundAlone k).budget = { maxRetries := 2 } := budget_alone _ _
  have hpending : deserted.2.pending = some firstRead := by decide +kernel
  obtain ⟨hout, haccounted, -⟩ := before_hook_accounted foundAlone _ hb deserted.2 readBox
  rw [hpending] at haccounted
  refine ⟨hb, hpending, hout, haccounted, haccounted.committed, haccounted.filed, ?_, ?_, ?_, ?_⟩ <;>
    decide +kernel

end Engine
end AccessReplay
