import AccessReplay.Proofs.HookSteps
import AccessReplay.Proofs.LiveLocations

/-!
# What a whole hook does

While no other thread takes a step, a hook runs from its entry to its end (`complete`).  It
has at most two parts.  If the thread has an access open, that access is finished: it is
committed and filed (`Concluded`).  A before-hook then decides on the access that is
announced (`Decided`): it is not checked, or it is granted, or it goes ahead against the
recorded order, which happens at a location that is not marked diverged yet.

Asking again while no other thread moves gives the same answer, so an access that must wait
is given up when its budget is used up.
-/
namespace AccessReplay.Engine

variable {e e' : Engine} {p p' : Participant} {c : Caller}

/-! ## Running a hook to its end -/

/-- Runs a hook from wherever its thread stands to its end. -/
def complete (e : Engine) (c : Caller) : Engine × Caller :=
  run (c.stage.rank e.budget.maxRetries) e c

@[simp] theorem run_outside (fuel : Nat) : run fuel e ⟨p, .outside⟩ = (e, ⟨p, .outside⟩) := by
  cases fuel <;> rfl

theorem run_succ {fuel : Nat} (h : c.stage ≠ .outside) :
    run (fuel + 1) e c = run fuel (e.step c).1 (e.step c).2 := by
  rw [run, if_neg h]

/-- Beyond the rank of the stage, fuel makes no difference. -/
theorem run_eq_complete {fuel : Nat} (h : c.stage.rank e.budget.maxRetries ≤ fuel) :
    run fuel e c = complete e c := by
  -- one unit more than enough is of no use
  have hmore : ∀ fuel e c, c.stage.rank e.budget.maxRetries ≤ fuel →
      run (fuel + 1) e c = run fuel e c := by
    intro fuel
    induction fuel with
    | zero =>
      intro e c h
      by_cases hout : c.stage = .outside
      · simp [run, hout]
      · have := rank_step_lt e c hout
        omega
    | succ fuel ih =>
      intro e c h
      by_cases hout : c.stage = .outside
      · simp [run, hout]
      · have hlt := rank_step_lt e c hout
        rw [run_succ hout, run_succ hout]
        refine ih _ _ ?_
        rw [budget_step]
        omega
  induction h with
  | refl => rfl
  | step h ih => rw [hmore _ _ _ h, ih]

@[simp] theorem complete_outside : complete e ⟨p, .outside⟩ = (e, ⟨p, .outside⟩) :=
  run_outside _

/-- A hook goes on from where its next step leads. -/
theorem complete_step (h : c.stage ≠ .outside) :
    complete e c = complete (e.step c).1 (e.step c).2 := by
  have hlt := rank_step_lt e c h
  obtain ⟨fuel, hfuel⟩ := Nat.exists_eq_add_one_of_ne_zero (Nat.ne_of_gt (Nat.zero_lt_of_lt hlt))
  rw [complete, hfuel, run_succ h, run_eq_complete]
  rw [budget_step]
  omega

theorem complete_of_step {e₁ : Engine} {c₁ : Caller} (hs : e.step c = (e₁, c₁))
    (h : c.stage ≠ .outside) : complete e c = complete e₁ c₁ := by
  rw [complete_step h, hs]

/-- What every step keeps, a whole hook keeps. -/
theorem complete_keeps {P : Engine → Caller → Prop}
    (hstep : ∀ e c, c.stage ≠ .outside → P e c → P (e.step c).1 (e.step c).2) (h : P e c) :
    P (complete e c).1 (complete e c).2 := by
  have hrun : ∀ fuel e c, P e c → P (run fuel e c).1 (run fuel e c).2 := by
    intro fuel
    induction fuel with
    | zero => exact fun _ _ h => h
    | succ fuel ih =>
      intro e c h
      by_cases hout : c.stage = .outside
      · rw [run, if_pos hout]
        exact h
      · rw [run_succ hout]
        exact ih _ _ (hstep e c hout h)
  exact hrun _ e c h

theorem stage_complete : (complete e c).2.stage = .outside := stage_run _ _ _ (Nat.le_refl _)

theorem call_eq (hook : Hook) : e.call p hook =
    ((complete e ⟨p, .entry hook⟩).1, (complete e ⟨p, .entry hook⟩).2.who) := rfl

/-- **The count of accesses in flight** changes as the open access of the thread does. -/
theorem inFlight_call (hook : Hook) :
    (e.call p hook).1.inFlight + .ofNat p.pending.toList.length =
      e.inFlight + .ofNat (e.call p hook).2.pending.toList.length := by
  have h := complete_keeps (e := e) (c := ⟨p, .entry hook⟩)
    (P := fun e' c' => c'.Proper ∧
      e'.inFlight + .ofNat p.pending.toList.length = e.inFlight + .ofNat c'.load)
    (fun e₁ c₁ _ h => ⟨proper_step e₁ h.1, by
      have := inFlight_step e₁ h.1
      have := h.2
      grind⟩)
    ⟨Caller.proper_entry p hook, by simp⟩
  have hend := stage_complete (e := e) (c := ⟨p, .entry hook⟩)
  simpa [call_eq, Caller.load, hend, Caller.stageLoad] using h.2

/-! ## The parts of a hook -/

/-- The engine and the thread once its open access is finished. -/
structure Concluded (e : Engine) (p : Participant) (a : OpenAccess) (e' : Engine)
    (p' : Participant) : Prop where
  setting : e'.setting = e.setting
  memory : e'.memory = e.memory.commit a
  files : (e'.book, p'.history) = p.history.change (·.add a) e.book
  reported : e'.reported = e.reported
  divergences : e'.divergences = e.divergences
  live : p'.live = p.live
  recorded : p'.recorded = p.recorded
  pending : p'.pending = none

/-- The engine and the thread once it is decided how the announced access goes ahead. -/
inductive Decided (e : Engine) (p : Participant) (r : Request) (e' : Engine) :
    Participant → Prop
  /-- It is not checked. -/
  | unchecked : e'.setting = e.setting → e'.memory = e.memory → e'.book = e.book →
      e'.reported = e.reported → e'.divergences = e.divergences → Decided e p r e' p
  /-- Its location grants it. -/
  | granted {ref} : (e.memory.lookUp e.objects r.object r.field).2 = some ref →
      ((e.memory.lookUp e.objects r.object r.field).1.poll ref (e.actsAs p) r.kind).2 = .grant →
      e'.setting = e.setting →
      e'.memory =
        ((e.memory.lookUp e.objects r.object r.field).1.poll ref (e.actsAs p) r.kind).1 →
      e'.book = e.book → e'.reported = e.reported → e'.divergences = e.divergences →
      Decided e p r e' { p with pending := some ⟨ref, e.actsAs p, r.kind, .granted, 0⟩ }
  /-- Its location does not, and is marked diverged. -/
  | forced {ref reason retries} :
      (e.memory.lookUp e.objects r.object r.field).2 = some ref →
      ((e.memory.lookUp e.objects r.object r.field).1.poll ref (e.actsAs p) r.kind).2 ≠ .grant →
      e'.setting = e.setting →
      e'.memory = (e.memory.lookUp e.objects r.object r.field).1.diverge ref →
      e'.book = (p.history.change History.flag e.book).1 →
      e'.reported =
        e.told (divergence p ⟨ref, e.actsAs p, r.kind, retries⟩ reason) →
      e'.divergences = e.divergences + 1 →
      Decided e p r e'
        { p with
          pending := some ⟨ref, e.actsAs p, r.kind, .forced, retries⟩
          history := (p.history.change History.flag e.book).2 }

namespace Concluded

variable {a : OpenAccess} {ref : HistoryRef}

theorem book (h : Concluded e p a e' p') : e'.book = (p.history.change (·.add a) e.book).1 :=
  congrArg Prod.fst h.files

theorem history (h : Concluded e p a e' p') : p'.history = (p.history.change (·.add a) e.book).2 :=
  congrArg Prod.snd h.files

theorem filed_iff (h : Concluded e p a e' p') :
    p'.history = .filed ref ↔ p.history = .filed ref := by
  rw [h.history]
  exact HistoryPlace.change_eq_filed_iff

end Concluded

namespace Decided

variable {r : Request} {ref : HistoryRef}

theorem setting (h : Decided e p r e' p') : e'.setting = e.setting := by
  cases h <;> assumption

theorem edition (h : Decided e p r e' p') : e'.memory.edition = e.memory.edition := by
  cases h with
  | unchecked hs hm => rw [hm]
  | granted hf hv hs hm => simp [hm]
  | forced hf hv hs hm => simp [hm]

theorem bounded (h : Decided e p r e' p') (hb : e.memory.Bounded) : e'.memory.Bounded := by
  cases h with
  | unchecked hs hm => rwa [hm]
  | granted hf hv hs hm =>
    rw [hm]
    exact hb.lookUp.poll
  | forced hf hv hs hm =>
    rw [hm]
    exact hb.lookUp.diverge

/-- Of a history, only the flag is touched. -/
theorem map_book (h : Decided e p r e' p') (ref : HistoryRef) {α : Type} {g : History → α}
    (hg : ∀ h, g h.flag = g h) : e'.book[ref]?.map g = e.book[ref]?.map g := by
  cases h with
  | unchecked hs hm hb => rw [hb]
  | granted hf hv hs hm hb => rw [hb]
  | forced hf hv hs hm hb =>
    rw [hb]
    exact HistoryPlace.map_change hg

theorem filed_iff (h : Decided e p r e' p') :
    p'.history = .filed ref ↔ p.history = .filed ref := by
  cases h with
  | unchecked => exact Iff.rfl
  | granted => exact Iff.rfl
  | forced => exact HistoryPlace.change_eq_filed_iff

end Decided

/-- Finishing an access takes three steps, after which a before-hook goes on. -/
theorem complete_committing (a : OpenAccess) (next : Option Request) (hp : p.pending = none) :
    ∃ e₁ p₁, Concluded e p a e₁ p₁ ∧
      complete e ⟨p, .committing a next⟩ = complete e₁ ⟨p₁, next.elim .outside .choosing⟩ := by
  have hfile := complete_step (e := { e with memory := e.memory.commit a })
    (c := ⟨p, .filing a next⟩) (by simp)
  simp only [step, file_eq] at hfile
  refine ⟨_, _, ?_, (complete_step (c := ⟨p, .committing a next⟩) (by simp)).trans
    (hfile.trans (complete_step (c := ⟨_, .releasing next⟩) (by simp)))⟩
  exact ⟨rfl, rfl, rfl, rfl, rfl, rfl, rfl, hp⟩

/-- **An after-hook** finishes the access that its thread has open. -/
theorem after_of_open {a : OpenAccess} (hp : p.pending = some a) (kind : AccessKind) :
    Concluded e { p with pending := none } a (e.after p kind).1 (e.after p kind).2 := by
  by_cases hk : a.kind = kind
  · have hstep := complete_of_step (e := e) (c := ⟨p, .concluding kind⟩)
      (by simp [step, hp, hk]; exact ⟨rfl, rfl⟩) (by simp)
    obtain ⟨e₁, p₁, h, hrun⟩ := complete_committing (e := e)
      (p := { p with pending := none }) a none rfl
    rw [after, call_eq, Stage.entry, hstep, hrun, Option.elim_none, complete_outside]
    exact h
  · have hstep := complete_of_step (e := e) (c := ⟨p, .concluding kind⟩)
      (by simp [step, hp, hk]; exact ⟨rfl, rfl⟩) (by simp)
    obtain ⟨e₁, p₁, h, hrun⟩ := complete_committing (e := e.note (.kindMismatch kind a))
      (p := { p with pending := none }) a none rfl
    rw [after, call_eq, Stage.entry, hstep, hrun, Option.elim_none, complete_outside]
    exact ⟨h.setting, h.memory, h.files, h.reported, h.divergences, h.live, h.recorded, h.pending⟩

/-- An after-hook of a thread without an open access does nothing. -/
theorem after_of_idle (hp : p.pending = none) (kind : AccessKind) : e.after p kind = (e, p) := by
  have hstep := complete_step (e := e) (c := ⟨p, .concluding kind⟩) (by simp)
  simp only [step, hp] at hstep
  rw [after, call_eq, Stage.entry, hstep, complete_outside]

/-- A thread that must wait asks until its budget is used up. -/
theorem complete_asking_wait {q : Inquiry} (hc : e.checking = true)
    (hv : (e.memory.poll q.location q.thread q.kind).2 = .wait) :
    ∃ retries, complete e ⟨p, .asking q⟩ =
      complete e ⟨p, .marking { q with retries } (e.stall q)⟩ := by
  have hm : (e.memory.poll q.location q.thread q.kind).1 = e.memory :=
    LiveMemory.poll_of_not_grant (by simp [hv])
  have hask : ∀ retries, complete e ⟨p, .asking { q with retries }⟩ =
      complete e ⟨p, .resting { q with retries }⟩ := by
    intro retries
    have hwait : e.step ⟨p, .asking { q with retries }⟩ =
        (e, ⟨p, .waiting { q with retries }⟩) := by
      simp only [step, hv, hm]
    have hrest : e.step ⟨p, .waiting { q with retries }⟩ =
        (e, ⟨p, .resting { q with retries }⟩) := by
      simp only [step, hc, if_true]
    rw [complete_of_step hwait (by simp), complete_of_step hrest (by simp)]
  have hgo : ∀ left retries, left = e.budget.maxRetries - retries →
      ∃ used, complete e ⟨p, .asking { q with retries }⟩ =
        complete e ⟨p, .marking { q with retries := used } (e.stall q)⟩ := by
    -- the induction is on what is left of the budget
    intro left
    induction left with
    | zero =>
      intro retries hleft
      have hspent : e.budget.maxRetries ≤ retries := by omega
      have hgiven : e.step ⟨p, .resting { q with retries }⟩ =
          (e, ⟨p, .marking { q with retries } (e.stall q)⟩) := by
        simp [step, Patience.pause_of_spent (b := ⟨e.budget, retries⟩) hspent, stall]
      exact ⟨retries, by rw [hask, complete_of_step hgiven (by simp)]⟩
    | succ left ih =>
      intro retries hleft
      have hspare : retries < e.budget.maxRetries := by omega
      have hagain : e.step ⟨p, .resting { q with retries }⟩ =
          (e, ⟨p, .asking { q with retries := retries + 1 }⟩) := by
        simp [step, Patience.pause_of_left (b := ⟨e.budget, retries⟩) hspare]
      obtain ⟨used, hrun⟩ := ih (retries + 1) (by omega)
      exact ⟨used, by rw [hask, complete_of_step hagain (by simp), hrun]⟩
  exact hgo _ q.retries rfl

/-- The observer is told of a divergence, and the access goes ahead. -/
theorem complete_reporting (q : Inquiry) (reason : DivergenceReason) :
    ∃ journal, complete e ⟨p, .reporting q reason⟩ =
      ({ e with reported := e.told (divergence p q reason), journal },
        ⟨{ p with pending := some (q.access .forced) }, .outside⟩) := by
  obtain ⟨journal, hr⟩ := report_eq e (divergence p q reason)
  refine ⟨journal.push (.letThrough (q.access .forced)), ?_⟩
  rw [complete_step (c := ⟨p, .reporting q reason⟩) (by simp)]
  simp only [step, hr]
  exact complete_outside

/-- A divergence is noted, counted and reported. -/
theorem complete_flagging (q : Inquiry) (reason : DivergenceReason) :
    ∃ journal, complete e ⟨p, .flagging q reason⟩ =
      ({ e with
          book := (p.history.change History.flag e.book).1
          divergences := e.divergences + 1
          reported := e.told (divergence p q reason)
          journal },
        ⟨{ p with
            pending := some (q.access .forced)
            history := (p.history.change History.flag e.book).2 }, .outside⟩) := by
  have hflag := complete_step (e := e) (c := ⟨p, .flagging q reason⟩) (by simp)
  simp only [step, flag_eq] at hflag
  obtain ⟨journal, hr⟩ := complete_reporting
    (e := { e with
      book := (p.history.change History.flag e.book).1
      divergences := e.divergences + 1 })
    (p := { p with history := (p.history.change History.flag e.book).2 }) q reason
  exact ⟨journal, hflag.trans ((complete_step (c := ⟨_, .counting q reason⟩) (by simp)).trans hr)⟩

/-- An access whose location is marked diverged goes ahead all the same. -/
theorem complete_marking (q : Inquiry) (reason : DivergenceReason) :
    ∃ e₁, e₁.setting = e.setting ∧ e₁.memory = e.memory.diverge q.location ∧
      e₁.book = (p.history.change History.flag e.book).1 ∧
      e₁.reported = e.told (divergence p q reason) ∧ e₁.divergences = e.divergences + 1 ∧
      complete e ⟨p, .marking q reason⟩ = (e₁, ⟨{ p with
        pending := some (q.access .forced)
        history := (p.history.change History.flag e.book).2 }, .outside⟩) := by
  obtain ⟨journal, hr⟩ := complete_flagging
    (e := { e with memory := e.memory.diverge q.location }.notes (e.divergenceNotices p q reason))
    (p := p) q reason
  refine ⟨_, ?_, ?_, ?_, ?_, ?_,
    (complete_step (c := ⟨p, .marking q reason⟩) (by simp)).trans hr⟩ <;> rfl

/-- Asking a location, which is there, decides on the access. -/
theorem complete_asking {q : Inquiry} (hc : e.checking = true) :
    ((e.memory.poll q.location q.thread q.kind).2 = .grant ∧
      complete e ⟨p, .asking q⟩ =
        letThrough { e with memory := (e.memory.poll q.location q.thread q.kind).1 } p
          (q.access .granted)) ∨
    ((e.memory.poll q.location q.thread q.kind).2 ≠ .grant ∧ ∃ retries reason,
      complete e ⟨p, .asking q⟩ = complete e ⟨p, .marking { q with retries } reason⟩) := by
  cases hv : (e.memory.poll q.location q.thread q.kind).2 with
  | grant =>
    refine .inl ⟨rfl, ?_⟩
    have hgrant : e.step ⟨p, .asking q⟩ =
        letThrough { e with memory := (e.memory.poll q.location q.thread q.kind).1 } p
          (q.access .granted) := by
      simp only [step, hv]
    exact (complete_of_step hgrant (by simp)).trans complete_outside
  | wait =>
    obtain ⟨retries, hrun⟩ := complete_asking_wait (p := p) hc hv
    exact .inr ⟨by simp, retries, _, hrun⟩
  | diverged reason =>
    have hm : (e.memory.poll q.location q.thread q.kind).1 = e.memory :=
      LiveMemory.poll_of_not_grant (by simp [hv])
    have hmark : e.step ⟨p, .asking q⟩ = (e, ⟨p, .marking q reason⟩) := by
      simp only [step, hv, hm]
    exact .inr ⟨by simp, q.retries, reason, complete_of_step hmark (by simp)⟩

/-! ### Looking whether an access is checked -/

theorem complete_leaving :
    complete e ⟨p, .leaving⟩ = ({ e with inFlight := e.inFlight - 1 }, ⟨p, .outside⟩) :=
  (complete_step (c := ⟨p, .leaving⟩) (by simp)).trans complete_outside

variable {r : Request}

/-- An access to a field that is not shared is not checked. -/
theorem complete_choosing_of_unshared
    (h : ¬(e.checking && e.memory.isShared r.object r.field) = true) :
    complete e ⟨p, .choosing r⟩ = ({ e with inFlight := e.inFlight - 1 }, ⟨p, .outside⟩) := by
  have hleave : e.step ⟨p, .choosing r⟩ = (e, ⟨p, .leaving⟩) := by simp [step, h]
  rw [complete_of_step hleave (by simp), complete_leaving]

theorem complete_choosing_of_shared
    (h : (e.checking && e.memory.isShared r.object r.field) = true) :
    complete e ⟨p, .choosing r⟩ = complete e ⟨p, .locating r⟩ := by
  have hlook : e.step ⟨p, .choosing r⟩ = (e, ⟨p, .locating r⟩) := by
    simp only [step, h, if_true]
  exact complete_of_step hlook (by simp)

/-- An access without a location is not checked either. -/
theorem complete_locating_of_none
    (h : (e.memory.lookUp e.objects r.object r.field).2 = none) :
    complete e ⟨p, .locating r⟩ =
      ({ e.notes (e.memory.remarks e.objects r.object r.field) with inFlight := e.inFlight - 1 },
        ⟨p, .outside⟩) := by
  have hlocate := complete_step (e := e) (c := ⟨p, .locating r⟩) (by simp)
  simp only [step, locate, h, LiveMemory.lookUp_fst_of_none h] at hlocate
  exact hlocate.trans complete_leaving

/-- Any other access is asked for at its location. -/
theorem complete_locating_of_some {ref : LocationRef}
    (h : (e.memory.lookUp e.objects r.object r.field).2 = some ref) :
    complete e ⟨p, .locating r⟩ =
      complete ({ e with memory := (e.memory.lookUp e.objects r.object r.field).1 }.notes
        (e.memory.remarks e.objects r.object r.field))
        ⟨p, .asking ⟨ref, e.actsAs p, r.kind, 0⟩⟩ := by
  have hlocate := complete_step (e := e) (c := ⟨p, .locating r⟩) (by simp)
  simp only [step, locate, h] at hlocate
  exact hlocate

/-- What is decided on an access depends neither on what was said nor on what is in flight. -/
theorem Decided.of_alike {n : UInt64} {journal : Array Notice} {r : Request}
    (h : Decided { e with inFlight := n, journal } p r e' p') : Decided e p r e' p' := by
  cases h with
  | unchecked hs hm hb hr hd => exact .unchecked hs hm hb hr hd
  | granted hf hv hs hm hb hr hd => exact .granted hf hv hs hm hb hr hd
  | forced hf hv hs hm hb hr hd => exact .forced hf hv hs hm hb hr hd

/-- What happens from the moment that a before-hook looks whether the access is checked. -/
theorem decided_choosing (r : Request) :
    Decided e p r (complete e ⟨p, .choosing r⟩).1 (complete e ⟨p, .choosing r⟩).2.who := by
  by_cases hshared : (e.checking && e.memory.isShared r.object r.field) = true
  · have hc : e.checking = true := (Bool.and_eq_true_iff.mp hshared).1
    rw [complete_choosing_of_shared hshared]
    cases hfound : (e.memory.lookUp e.objects r.object r.field).2 with
    | none =>
      rw [complete_locating_of_none hfound]
      exact .unchecked rfl rfl rfl rfl rfl
    | some ref =>
      rw [complete_locating_of_some hfound]
      obtain ⟨hv, hrun⟩ | ⟨hv, retries, reason, hrun⟩ := complete_asking (p := p)
        (q := ⟨ref, e.actsAs p, r.kind, 0⟩)
        (e := { e with memory := (e.memory.lookUp e.objects r.object r.field).1 }.notes
          (e.memory.remarks e.objects r.object r.field)) hc
      · refine Eq.mpr (congrArg (fun x => Decided e p r x.1 x.2.who) hrun) ?_
        exact .granted hfound hv rfl rfl rfl rfl rfl
      · obtain ⟨e₁, hs, hm, hb, hr, hd, hend⟩ := complete_marking (p := p)
          (e := { e with memory := (e.memory.lookUp e.objects r.object r.field).1 }.notes
            (e.memory.remarks e.objects r.object r.field))
          ⟨ref, e.actsAs p, r.kind, retries⟩ reason
        refine Eq.mpr (congrArg (fun x => Decided e p r x.1 x.2.who) (hrun.trans hend)) ?_
        exact .forced hfound hv hs hm hb hr hd
  · rw [complete_choosing_of_unshared hshared]
    exact .unchecked rfl rfl rfl rfl rfl

/-- A thread without an open access is counted, and then looks whether the one that it announces
is checked. -/
theorem before_eq_choosing (hp : p.pending = none) (r : Request) : e.before p r =
    ((complete { e with inFlight := e.inFlight + 1 } ⟨p, .choosing r⟩).1,
      (complete { e with inFlight := e.inFlight + 1 } ⟨p, .choosing r⟩).2.who) := by
  have hcount := complete_step (e := e) (c := ⟨p, .announced r⟩) (by simp)
  have hopen := complete_step (e := { e with inFlight := e.inFlight + 1 })
    (c := ⟨p, .counted r⟩) (by simp)
  simp only [step, hp] at hcount hopen
  rw [before, call_eq, Stage.entry, hcount, hopen]

/-- **A before-hook** of a thread without an open access decides on the announced one. -/
theorem before_of_idle (hp : p.pending = none) (r : Request) :
    Decided e p r (e.before p r).1 (e.before p r).2 := by
  rw [before_eq_choosing hp]
  exact (decided_choosing r).of_alike

/-- A before-hook of a thread that has an access open finishes that one first. -/
theorem before_of_open {a : OpenAccess} (hp : p.pending = some a) (r : Request) :
    ∃ e₁ p₁, Concluded e { p with pending := none } a e₁ p₁ ∧
      Decided e₁ p₁ r (e.before p r).1 (e.before p r).2 := by
  have hcount := complete_step (e := e) (c := ⟨p, .announced r⟩) (by simp)
  have hopen := complete_step (e := { e with inFlight := e.inFlight + 1 })
    (c := ⟨p, .counted r⟩) (by simp)
  simp only [step, hp] at hcount hopen
  obtain ⟨e₁, p₁, h, hrun⟩ := complete_committing
    (e := { e with inFlight := e.inFlight + 1 }.note (.unfinished a))
    (p := { p with pending := none }) a (some r) rfl
  refine ⟨e₁, p₁, ⟨h.setting, h.memory, h.files, h.reported, h.divergences, h.live, h.recorded,
    h.pending⟩, ?_⟩
  rw [before, call_eq, Stage.entry, hcount, hopen, hrun]
  exact decided_choosing r

end AccessReplay.Engine
