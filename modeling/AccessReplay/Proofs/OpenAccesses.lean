import AccessReplay.Proofs.FiledHistories
import AccessReplay.Proofs.GrantBalance

/-!
# Steps and open accesses

A thread asks for an access, has it open once it was let through, and commits it (`Inquiry`,
`Caller.opened`, `Caller.commits`).  A step leads an inquiry on or lets it through
(`inquiry_of_step`, `inquiry_of_admitted`), and what was open is committed or stays open
(`opened_step`).

What a step lets through and commits at a location is what the location's account has of it
(`turn_step`).
-/
namespace AccessReplay

/-- An open access as the recorded thread makes it. -/
def OpenAccess.access (a : OpenAccess) : Access := ⟨a.thread, a.kind⟩

/-- The accesses that were granted at a location, in order. -/
def grantsAt (ref : LocationRef) (as : List OpenAccess) : List Access :=
  (as.filter fun a => a.location = ref ∧ a.outcome = .granted).map OpenAccess.access

section GrantsAt
variable {ref : LocationRef} {as as' : List OpenAccess} {a : OpenAccess}

@[simp] theorem grantsAt_nil (ref : LocationRef) : grantsAt ref [] = [] := rfl

@[simp] theorem grantsAt_append (ref : LocationRef) (as as' : List OpenAccess) :
    grantsAt ref (as ++ as') = grantsAt ref as ++ grantsAt ref as' := by
  simp [grantsAt]

theorem grantsAt_singleton : grantsAt ref [a] =
    if a.location = ref ∧ a.outcome = .granted then [a.access] else [] := by
  unfold grantsAt
  by_cases h : a.location = ref ∧ a.outcome = .granted
  · simp [h]
  · simp [h]

theorem grantsAt_perm (ref : LocationRef) (h : as.Perm as') :
    (grantsAt ref as).Perm (grantsAt ref as') :=
  (h.filter _).map _

/-- Nothing is granted at a location that nothing was let through at. -/
theorem grantsAt_eq_nil (h : ∀ a ∈ as, a.location ≠ ref) : grantsAt ref as = [] := by
  simp only [grantsAt, List.map_eq_nil_iff, List.filter_eq_nil_iff, decide_eq_true_eq]
  intro a ha hboth
  exact h a ha hboth.1

theorem mem_grantsAt {x : Access} :
    x ∈ grantsAt ref as ↔ ∃ a ∈ as, a.location = ref ∧ a.outcome = .granted ∧ a.access = x := by
  simp [grantsAt, and_assoc]

end GrantsAt

/-! ## What a thread has asked for and has open -/

/-- The access that a thread has asked for and that was not let through yet. -/
def Stage.inquiry? : Stage → Option Inquiry
  | .asking q | .waiting q | .resting q => some q
  | .marking q _ | .flagging q _ | .counting q _ | .reporting q _ => some q
  | _ => none

namespace Caller

/-- The access that a thread has open: let through, and not committed yet. -/
def opened (c : Caller) : List OpenAccess :=
  match c.stage with
  | .committing a _ => [a]
  | _ => c.who.pending.toList

/-- The access that the next step commits. -/
def commits (c : Caller) : List OpenAccess :=
  match c.stage with
  | .committing a _ => [a]
  | _ => []

@[simp] theorem opened_outside (p : Participant) : opened ⟨p, .outside⟩ = p.pending.toList := rfl

@[simp] theorem opened_entry (p : Participant) (hook : Hook) :
    opened ⟨p, Stage.entry hook⟩ = p.pending.toList := by
  cases hook <;> rfl

theorem length_opened_le (c : Caller) : c.opened.length ≤ 1 := by
  obtain ⟨⟨live, recorded, pending, history⟩, stage⟩ := c
  cases stage <;> cases pending <;> simp [opened]

/-- Where a thread accesses something, asked for or open, and as which recorded thread. -/
def engagements (c : Caller) : List (LocationRef × RuntimeId) :=
  c.stage.inquiry?.toList.map (fun q => (q.location, q.thread)) ++
    c.opened.map fun a => (a.location, a.thread)

theorem mem_engagements_of_inquiry {c : Caller} {q : Inquiry} (h : c.stage.inquiry? = some q) :
    (q.location, q.thread) ∈ c.engagements := by
  simp [engagements, h]

theorem mem_engagements_of_opened {c : Caller} {a : OpenAccess} (h : a ∈ c.opened) :
    (a.location, a.thread) ∈ c.engagements :=
  List.mem_append_right _ (List.mem_map_of_mem h)

theorem engagements_entry (p : Participant) (hook : Hook) :
    engagements ⟨p, Stage.entry hook⟩ = engagements ⟨p, .outside⟩ := by
  cases hook <;> rfl

theorem mem_opened_of_commits {c : Caller} {a : OpenAccess} (h : a ∈ c.commits) : a ∈ c.opened := by
  obtain ⟨p, stage⟩ := c
  cases stage with
  | committing b next => exact h
  | _ => exact absurd h List.not_mem_nil

/-- What a thread holds is open, or committed and not in its history yet. -/
theorem held_eq {c : Caller} (h : c.Proper) : c.held = c.filed ++ c.opened := by
  obtain ⟨p, stage⟩ := c
  cases stage with
  | filing a next =>
    obtain h : p.pending = none := h
    simp [held, filed, opened, h]
  | _ => rfl

end Caller

namespace Engine

variable {e : Engine} {c : Caller} {ref : LocationRef} {l l' : Location}

/-- **What is open and what is let through is committed or stays open.** -/
theorem opened_step (e : Engine) (h : c.Proper) (hin : c.stage ≠ .outside) :
    c.opened ++ (e.step c).2.admitted = c.commits ++ (e.step c).2.opened := by
  obtain ⟨p, stage⟩ := c
  cases stage with
  | outside => exact absurd rfl hin
  | counted r =>
    simp only [step]
    split <;> simp [Caller.opened, Caller.admitted, Caller.commits, *]
  | concluding kind =>
    simp only [step]
    split <;> simp [Caller.opened, Caller.admitted, Caller.commits, *]
  | choosing r | locating r | waiting q | asking q | resting q =>
    obtain h : p.pending = none := h
    simp only [step]
    split <;> simp [Caller.opened, Caller.admitted, Caller.commits, letThrough, h]
  | filing a next =>
    obtain h : p.pending = none := h
    simp [step, file_eq, Caller.opened, Caller.admitted, Caller.commits, h]
  | flagging q reason =>
    obtain h : p.pending = none := h
    simp [step, flag_eq, Caller.opened, Caller.admitted, Caller.commits, h]
  | releasing next =>
    obtain h : p.pending = none := h
    cases next <;> simp [step, Caller.opened, Caller.admitted, Caller.commits, h]
  | committing | marking | counting | reporting | leaving =>
    obtain h : p.pending = none := h
    simp [step, Caller.opened, Caller.admitted, Caller.commits, letThrough, h]
  | announced r => simp [step, Caller.opened, Caller.admitted, Caller.commits]

/-- What is committed is filed next. -/
theorem filed_step (e : Engine) (hin : c.stage ≠ .outside) : (e.step c).2.filed = c.commits := by
  obtain ⟨p, stage⟩ := c
  cases stage with
  | outside => exact absurd rfl hin
  | counted r | concluding kind | choosing r | locating r | waiting q | asking q | resting q =>
    simp only [step]
    split <;> rfl
  | filing a next => simp [step, file_eq, Caller.filed, Caller.commits]
  | flagging q reason => simp [step, flag_eq, Caller.filed, Caller.commits]
  | releasing next => cases next <;> rfl
  | announced | committing | marking | counting | reporting | leaving => rfl

/-- What is let through was asked for.  It is granted if the location says so when it is asked. -/
theorem inquiry_of_admitted {a : OpenAccess} (h : c.Proper) (hin : c.stage ≠ .outside)
    (ha : a ∈ (e.step c).2.admitted) : ∃ q outcome, c.stage.inquiry? = some q ∧
      a = q.access outcome ∧ (outcome = .granted → c.stage = .asking q ∧
        (e.memory.poll q.location q.thread q.kind).2 = .grant) := by
  obtain ⟨p, stage⟩ := c
  cases stage with
  | outside => exact absurd rfl hin
  | asking q =>
    simp only [step] at ha
    split at ha
    · next hgrant =>
      obtain rfl : a = q.access .granted := by
        simpa [Caller.admitted, letThrough] using ha
      exact ⟨q, .granted, rfl, rfl, fun _ => ⟨rfl, hgrant⟩⟩
    · simp [Caller.admitted] at ha
    · simp [Caller.admitted] at ha
  | waiting q =>
    simp only [step] at ha
    split at ha
    · simp [Caller.admitted] at ha
    · obtain rfl : a = q.access .forced := by
        simpa [Caller.admitted, letThrough] using ha
      exact ⟨q, .forced, rfl, rfl, fun hgranted => by cases hgranted⟩
  | reporting q reason =>
    obtain rfl : a = q.access .forced := by
      simpa [step, Caller.admitted, letThrough] using ha
    exact ⟨q, .forced, rfl, rfl, fun hgranted => by cases hgranted⟩
  | counted r | concluding kind =>
    simp only [step] at ha
    split at ha <;> simp [Caller.admitted, *] at ha
  | choosing r | locating r | resting q =>
    simp only [step] at ha
    split at ha <;> simp [Caller.admitted] at ha
  | filing a next => simp [step, file_eq, Caller.admitted] at ha
  | flagging q reason => simp [step, flag_eq, Caller.admitted] at ha
  | releasing next =>
    obtain h : p.pending = none := h
    cases next <;> simp [step, Caller.admitted, h] at ha
  | announced | committing | marking | counting =>
    simp [step, Caller.admitted] at ha
  | leaving =>
    obtain h : p.pending = none := h
    simp [step, Caller.admitted, h] at ha

/-- A step goes on with an inquiry, or begins one: as the recorded thread that the thread
replays, and at a location that is there. -/
theorem inquiry_of_step {q' : Inquiry} (h : (e.step c).2.stage.inquiry? = some q') :
    (∃ q, c.stage.inquiry? = some q ∧ q'.location = q.location ∧ q'.thread = q.thread) ∨
    (q'.thread = e.actsAs c.who ∧ ∃ l, (e.step c).1.memory.find? q'.location = some l) := by
  obtain ⟨p, stage⟩ := c
  cases stage with
  | locating r =>
    simp only [step, locate] at h ⊢
    split at h
    · simp [Stage.inquiry?] at h
    · next ref href =>
      obtain rfl := Option.some.inj h
      obtain ⟨-, -, -, hfound⟩ := LiveMemory.lookUp_snd href
      exact .inr ⟨rfl, by simpa [notes, Archive.notes, href] using hfound⟩
  | asking q | waiting q =>
    simp only [step] at h
    split at h <;> simp [Stage.inquiry?, letThrough] at h
    all_goals exact .inl ⟨q, rfl, by rw [h], by rw [h]⟩
  | resting q =>
    simp only [step] at h
    split at h
    · obtain rfl := Option.some.inj h
      exact .inl ⟨q, rfl, rfl, rfl⟩
    · obtain rfl := Option.some.inj h
      exact .inl ⟨q, rfl, rfl, rfl⟩
  | marking q reason | counting q reason =>
    obtain rfl := Option.some.inj h
    exact .inl ⟨q, rfl, rfl, rfl⟩
  | flagging q reason =>
    simp only [step, flag_eq] at h
    obtain rfl := Option.some.inj h
    exact .inl ⟨q, rfl, rfl, rfl⟩
  | counted r | concluding kind | choosing r =>
    simp only [step] at h
    split at h <;> simp [Stage.inquiry?] at h
  | filing a next => simp [step, file_eq, Stage.inquiry?] at h
  | releasing next => cases next <;> simp [step, Stage.inquiry?] at h
  | outside | announced | committing | reporting | leaving =>
    simp [step, letThrough, Stage.inquiry?] at h

/-- **What a thread is engaged in was so before a step, or is new**: then it is done as the
recorded thread that the thread replays, and at a location that is there. -/
theorem engagement_of_step {x : LocationRef × RuntimeId} (h : c.Proper)
    (hin : c.stage ≠ .outside) (hx : x ∈ (e.step c).2.engagements) : x ∈ c.engagements ∨
      (x.2 = e.actsAs c.who ∧ ∃ l, (e.step c).1.memory.find? x.1 = some l) := by
  rcases List.mem_append.mp hx with hx | hx
  · obtain ⟨q', hq', rfl⟩ := List.mem_map.mp hx
    rcases inquiry_of_step (Option.mem_toList.mp hq') with ⟨q, hq, hloc, hthread⟩ | hnew
    · rw [hloc, hthread]
      exact .inl (Caller.mem_engagements_of_inquiry hq)
    · exact .inr hnew
  · obtain ⟨a, ha, rfl⟩ := List.mem_map.mp hx
    have hmem : a ∈ c.opened ++ (e.step c).2.admitted := by
      rw [opened_step e h hin]
      exact List.mem_append_right _ ha
    rcases List.mem_append.mp hmem with hopen | hadmitted
    · exact .inl (Caller.mem_engagements_of_opened hopen)
    · obtain ⟨q, outcome, hq, rfl, -⟩ := inquiry_of_admitted h hin hadmitted
      exact .inl (Caller.mem_engagements_of_inquiry hq)

/-! ## What a step does to a location -/

/-- A location after a step from a stage. -/
def locationNext (ref : LocationRef) (l : Location) : Stage → Location
  | .asking q => if q.location = ref then l.reserve q.thread q.kind else l
  | .committing a _ => if a.location = ref then l.commit a.thread a.kind a.outcome else l
  | .marking q _ => if q.location = ref then l.diverge else l
  | _ => l

theorem find?_memoryNext (hl : e.memory.find? ref = some l) (stage : Stage) :
    (e.memoryNext stage).find? ref = some (locationNext ref l stage) := by
  cases stage with
  | committing | marking => exact LiveMemory.find?_update_of_some hl _
  | asking => exact LiveMemory.find?_poll_of_some hl
  | locating => exact LiveMemory.find?_lookUp_of_some hl
  | _ => exact hl

theorem isDiverged_locationNext (h : l.isDiverged = true) (stage : Stage) :
    (locationNext ref l stage).isDiverged = true := by
  cases stage with
  | asking q | committing a next | marking q reason =>
    simp only [locationNext]
    split <;> simp [h, Location.diverge]
  | _ => exact h

/-- A location is made when a thread looks it up. -/
theorem locating_of_new {stage : Stage} (hnone : e.memory.find? ref = none)
    (hl : (e.memoryNext stage).find? ref = some l) : (∃ r, stage = .locating r) ∧
      ∃ schedule, e.memory.schedules[ref.key]? = some schedule ∧ l = { schedule } := by
  have hupdate : ∀ ref' f, (e.memory.update ref' f).find? ref = none := by
    intro ref' f
    rw [LiveMemory.find?_update]
    split
    · next he =>
      subst he
      rw [hnone]
      rfl
    · exact hnone
  cases stage with
  | locating r =>
    refine ⟨⟨r, rfl⟩, ?_⟩
    simp only [memoryNext] at hl
    rcases LiveMemory.lookUp_fst e.memory e.objects r.object r.field with hm |
      ⟨new, schedule, -, -, hschedule, hm⟩
    · rw [hm, hnone] at hl
      cases hl
    · by_cases he : new = ref
      · subst he
        exact ⟨schedule, hschedule, by simpa [hm, LiveMemory.find?] using hl.symm⟩
      · have hkeep : e.memory.find? ref = some l := by
          simpa [hm, LiveMemory.find?, Std.ExtTreeMap.getElem?_insert, he] using hl
        rw [hnone] at hkeep
        cases hkeep
  | committing a next =>
    rw [memoryNext, LiveMemory.commit, hupdate] at hl
    cases hl
  | marking q reason =>
    rw [memoryNext, LiveMemory.diverge, hupdate] at hl
    cases hl
  | asking q =>
    simp only [memoryNext, LiveMemory.poll] at hl
    split at hl
    · rw [hnone] at hl
      cases hl
    · rw [hupdate] at hl
      cases hl
  | _ =>
    rw [memoryNext, hnone] at hl
    · cases hl
    all_goals simp

@[simp] theorem schedules_memoryNext (e : Engine) (stage : Stage) :
    (e.memoryNext stage).schedules = e.memory.schedules := by
  cases stage with
  | asking => exact LiveMemory.schedules_poll
  | locating => exact LiveMemory.schedules_lookUp
  | _ => rfl

/-- A step grants something at a location only if it asks there. -/
theorem grantsAt_admitted_eq_nil (h : c.Proper) (hin : c.stage ≠ .outside)
    (hask : ∀ q, c.stage = .asking q → q.location = ref →
      (e.memory.poll q.location q.thread q.kind).2 ≠ .grant) :
    grantsAt ref (e.step c).2.admitted = [] := by
  simp only [grantsAt, List.map_eq_nil_iff, List.filter_eq_nil_iff, decide_eq_true_eq]
  rintro a ha ⟨hloc, hout⟩
  obtain ⟨q, outcome, -, rfl, hgrant⟩ := inquiry_of_admitted h hin ha
  obtain ⟨hstage, hpoll⟩ := hgrant hout
  exact hask q hstage hloc hpoll

theorem turn_asking {q : Inquiry} (hs : c.stage = .asking q)
    (h : c.Proper) (hl : e.memory.find? ref = some l) :
    Location.Turn l (grantsAt ref (e.step c).2.admitted) [] (locationNext ref l c.stage) := by
  obtain ⟨p, stage⟩ := c
  obtain rfl : stage = .asking q := hs
  by_cases hloc : q.location = ref
  · subst hloc
    have hverdict : (e.memory.poll q.location q.thread q.kind).2 = l.verdict q.thread q.kind := by
      simp [LiveMemory.poll, hl]
    rw [locationNext, if_pos rfl]
    by_cases hv : l.verdict q.thread q.kind = .grant
    · have hadmitted : (e.step ⟨p, .asking q⟩).2.admitted = [q.access .granted] := by
        simp [step, hverdict, hv, letThrough, Caller.admitted]
      rw [hadmitted, grantsAt_singleton, if_pos ⟨rfl, rfl⟩]
      exact .grant hv
    · rw [grantsAt_admitted_eq_nil h (by simp), Location.reserve_of_not_grant hv]
      · exact .kept
      · intro q' hq' _
        obtain rfl := Stage.asking.inj hq'
        rwa [hverdict]
  · rw [locationNext, if_neg hloc, grantsAt_admitted_eq_nil h (by simp)]
    · exact .kept
    · intro q' hq' hloc'
      obtain rfl := Stage.asking.inj hq'
      exact absurd hloc' hloc

theorem turn_committing (a : OpenAccess) (next : Option Request) :
    Location.Turn l [] (grantsAt ref [a]) (locationNext ref l (.committing a next)) := by
  rw [grantsAt_singleton, locationNext]
  by_cases hloc : a.location = ref
  · cases hout : a.outcome with
    | granted =>
      rw [if_pos ⟨hloc, rfl⟩, if_pos hloc]
      exact .commit
    | forced =>
      rw [if_neg (by simp), if_pos hloc]
      simpa [Location.commit] using Location.Turn.kept
  · rw [if_neg (by simp [hloc]), if_neg hloc]
    exact .kept

/-- **What a step does to a location**: it is asked and grants an access, or one that it granted
is committed, or it stays as it is. -/
theorem turn_step (h : c.Proper) (hin : c.stage ≠ .outside) (hl : e.memory.find? ref = some l)
    (hl' : (e.step c).1.memory.find? ref = some l') (hd : l'.isDiverged = false) :
    Location.Turn l (grantsAt ref (e.step c).2.admitted) (grantsAt ref c.commits) l' := by
  rw [(effect_step e c).memory, find?_memoryNext hl] at hl'
  obtain rfl := Option.some.inj hl'
  by_cases hask : ∃ q, c.stage = .asking q
  · obtain ⟨q, hs⟩ := hask
    have hcommits : c.commits = [] := by simp [Caller.commits, hs]
    rw [hcommits]
    exact turn_asking hs h hl
  · rw [grantsAt_admitted_eq_nil h hin fun q hs => absurd ⟨q, hs⟩ hask]
    obtain ⟨p, stage⟩ := c
    cases stage with
    | asking q => exact absurd ⟨q, rfl⟩ hask
    | committing a next => exact turn_committing a next
    | marking q reason =>
      simp only [locationNext] at hd ⊢
      split at hd
      · -- the location would be marked diverged
        simp [Location.diverge] at hd
      · next hloc =>
        rw [if_neg hloc]
        exact .kept
    | _ => exact .kept

end Engine
end AccessReplay
