import AccessReplay.Proofs.HarvestContents
import AccessReplay.Proofs.Traffic

/-!
# Shutting down misses no access

A thread counts itself before it looks whether accesses are checked, and the thread that ends
the replay looks at the count after it has stopped the checks.  So a thread that is not
counted then has not looked yet, or has left its hook: it is quiet (`Caller.Quiet`), and
stays so, since it will find the checks stopped.  Quiet threads change nothing but the count
(`Still`), and the harvest has every access that was ever let through.
-/
namespace AccessReplay

/-- A thread that holds no access, and has not found accesses checked in the hook it is in. -/
def Caller.Quiet (c : Caller) : Prop :=
  c.who.pending = none ∧
    match c.stage with
    | .outside | .announced _ | .counted _ | .concluding _ | .choosing _ | .leaving => True
    | _ => False

theorem Caller.quiet_of_load_eq_zero {c : Caller} (h : c.load = 0) : c.Quiet := by
  obtain ⟨⟨live, recorded, pending, history⟩, stage⟩ := c
  obtain ⟨hpending, hstage⟩ : pending.toList.length = 0 ∧ stageLoad stage = 0 :=
    Nat.add_eq_zero_iff.mp h
  obtain rfl : pending = none := by
    cases pending with
    | none => rfl
    | some a => simp at hpending
  refine ⟨rfl, ?_⟩
  cases stage with
  | committing a next | filing a next | releasing next => cases next <;> simp [stageLoad] at hstage
  | outside | announced | concluding => trivial
  | _ => simp [stageLoad] at hstage

theorem Caller.Quiet.held_eq_nil {c : Caller} (h : c.Quiet) : c.held = [] := by
  obtain ⟨p, stage⟩ := c
  have hp : p.pending = none := h.1
  cases stage <;> first | exact h.2.elim | simp [held, hp]

theorem Caller.Quiet.filed_eq_nil {c : Caller} (h : c.Quiet) : c.filed = [] := by
  obtain ⟨p, stage⟩ := c
  cases stage <;> first | exact h.2.elim | rfl

/-- Once the checks are stopped, a quiet thread only changes the count, and stays quiet. -/
theorem Engine.step_of_quiet {e : Engine} {c : Caller} (hc : e.checking = false) (h : c.Quiet) :
    ∃ n stage, e.step c = ({ e with inFlight := n }, ⟨c.who, stage⟩) ∧
      Caller.Quiet ⟨c.who, stage⟩ := by
  obtain ⟨p, stage⟩ := c
  have hp : p.pending = none := h.1
  cases stage with
  | outside => exact ⟨e.inFlight, .outside, rfl, hp, trivial⟩
  | announced r => exact ⟨e.inFlight + 1, .counted r, rfl, hp, trivial⟩
  | counted r =>
    refine ⟨e.inFlight, .choosing r, ?_, hp, trivial⟩
    simp only [step]
    rw [hp]
  | concluding kind =>
    refine ⟨e.inFlight, .outside, ?_, hp, trivial⟩
    simp only [step]
    rw [hp]
  | choosing r =>
    -- the thread looks whether accesses are checked, and finds that they are not
    have hleave : e.step ⟨p, .choosing r⟩ = (e, ⟨p, .leaving⟩) := by simp [step, hc]
    exact ⟨e.inFlight, .leaving, hleave, hp, trivial⟩
  | leaving => exact ⟨e.inFlight - 1, .outside, rfl, hp, trivial⟩
  | _ => exact h.2.elim

namespace Traffic

open Replay (Log accessesOf)

variable {t t' : Traffic} {adm fin : Log} {move : Move} {moves : List Move}

/-- No thread will have its access checked any more. -/
structure Quiet (t : Traffic) : Prop where
  checking : t.engine.checking = false
  callers : ∀ c ∈ t.callers, c.Quiet

/-- Nothing has changed since `t` that is recorded of accesses: locations, divergences, and
the histories that there were; and all contexts carry what they carried. -/
structure Still (t t' : Traffic) : Prop where
  memory : t'.engine.memory = t.engine.memory
  divergences : t'.engine.divergences = t.engine.divergences
  reported : t'.engine.reported = t.engine.reported
  book : ∀ ref : HistoryRef, t'.engine.book[ref]? = t.engine.book[ref]? ∨
    (t.engine.book[ref]? = none ∧ ∃ h, t'.engine.book[ref]? = some h ∧ h.Blank)
  callers : ∀ (i : Nat) (c : Caller), t.callers[i]? = some c →
    ∃ c', t'.callers[i]? = some c' ∧ c'.who = c.who

namespace Still

theorem refl (t : Traffic) : Still t t :=
  ⟨rfl, rfl, rfl, fun _ => .inl rfl, fun _ c hi => ⟨c, hi, rfl⟩⟩

theorem trans {t₁ t₂ t₃ : Traffic} (h : Still t₁ t₂) (h' : Still t₂ t₃) : Still t₁ t₃ where
  memory := h'.memory.trans h.memory
  divergences := h'.divergences.trans h.divergences
  reported := h'.reported.trans h.reported
  book ref := by
    rcases h.book ref with hsame | ⟨hnone, hist, hnew, hblank⟩
    · rw [← hsame]
      exact h'.book ref
    · refine .inr ⟨hnone, hist, ?_, hblank⟩
      rcases h'.book ref with hsame | ⟨hnone', -⟩
      · rw [hsame, hnew]
      · rw [hnew] at hnone'
        cases hnone'
  callers i c hi := by
    obtain ⟨c₂, hi₂, hwho₂⟩ := h.callers i c hi
    obtain ⟨c₃, hi₃, hwho₃⟩ := h'.callers i c₂ hi₂
    exact ⟨c₃, hi₃, hwho₃.trans hwho₂⟩

end Still

/-! ## Quiet threads stay quiet -/

namespace Quiet

/-- A thread goes on to another stage, and the count changes. -/
theorem set {i : Nat} {c : Caller} (h : t.Quiet) (hi : t.callers[i]? = some c) (n : UInt64)
    {stage : Stage} (hq : Caller.Quiet ⟨c.who, stage⟩) :
    Quiet { t with
      engine := { t.engine with inFlight := n }, callers := t.callers.set i ⟨c.who, stage⟩ } ∧
    Still t { t with
      engine := { t.engine with inFlight := n }, callers := t.callers.set i ⟨c.who, stage⟩ } := by
  have hlt := (List.getElem?_eq_some_iff.mp hi).1
  refine ⟨⟨h.checking, fun d hd => ?_⟩, rfl, rfl, rfl, fun _ => .inl rfl, fun j d hd => ?_⟩
  · rcases List.mem_or_eq_of_mem_set hd with hd | rfl
    · exact h.callers d hd
    · exact hq
  · rw [List.getElem?_set]
    split
    · next hij =>
      subst hij
      obtain rfl : c = d := Option.some.inj (hi.symm.trans hd)
      exact ⟨_, rfl, rfl⟩
    · exact ⟨d, hd, rfl⟩

theorem handsOut {e' : Engine} {p : Participant} (h : t.Quiet)
    (hs : Replay.HandsOut t.engine e' p) (hc : e'.checking = t.engine.checking) :
    Quiet { t with engine := e', callers := t.callers ++ [⟨p, .outside⟩] } ∧
    Still t { t with engine := e', callers := t.callers ++ [⟨p, .outside⟩] } := by
  refine ⟨⟨hc.trans h.checking, fun d hd => ?_⟩, hs.memory, hs.divergences, hs.reported,
    fun ref => ?_, fun j d hd => ?_⟩
  · rcases List.mem_append.mp hd with hd | hd
    · exact h.callers d hd
    · rw [List.mem_singleton.mp hd]
      exact ⟨hs.pending, trivial⟩
  · rcases hs.book ref with hsame | ⟨hnone, -, hist, hnew, hblank, -⟩
    · exact .inl hsame
    · exact .inr ⟨hnone, hist, hnew, hblank⟩
  · exact ⟨d, by rw [List.getElem?_append_left (List.getElem?_eq_some_iff.mp hd).1, hd], rfl⟩

theorem ofEngine {e' : Engine} (h : t.Quiet) (hs : Replay.SameRecords t.engine e')
    (closing : Closing) (hc : e'.checking = false) :
    Quiet { t with engine := e', closing } ∧ Still t { t with engine := e', closing } :=
  ⟨⟨hc, h.callers⟩, hs.memory, hs.divergences, hs.reported,
    fun ref => .inl (by rw [hs.book]), fun _ d hd => ⟨d, hd, rfl⟩⟩

/-- **No move of quiet threads lets anything through, files anything or changes anything.** -/
theorem perform (h : t.Quiet) (hs : Sound adm fin t) (move : Move) :
    (t.perform move).Quiet ∧ Still t (t.perform move) ∧
      t.admittedBy move = [] ∧ t.filedBy move = [] := by
  have hmoved := moved hs.wellFormed hs.checking move
  generalize t.admittedBy move = admitted, t.filedBy move = filed, t.perform move = t' at hmoved ⊢
  cases hmoved with
  | nothing => exact ⟨h, .refl t, rfl, rfl⟩
  | engine hsame hn hon hoff =>
    obtain ⟨hq, hstill⟩ := h.ofEngine hsame _ (hon.elim (·.trans h.checking) id)
    exact ⟨hq, hstill, rfl, rfl⟩
  | handsOut hnew hn hc =>
    obtain ⟨hq, hstill⟩ := h.handsOut hnew hc
    exact ⟨hq, hstill, rfl, rfl⟩
  | @enter i c hi hout hook =>
    have hentry : Caller.Quiet ⟨c.who, .entry hook⟩ :=
      ⟨(h.callers c (List.mem_of_getElem? hi)).1, by cases hook <;> trivial⟩
    obtain ⟨hq, hstill⟩ := h.set hi t.engine.inFlight hentry
    exact ⟨hq, hstill, rfl, rfl⟩
  | @step i c hi hin =>
    have hc := h.callers c (List.mem_of_getElem? hi)
    obtain ⟨n, stage, hstep, hquiet⟩ := Engine.step_of_quiet h.checking hc
    obtain ⟨hq, hstill⟩ := h.set hi n hquiet
    have hnone : Caller.admitted ⟨c.who, stage⟩ = [] := by simp [Caller.admitted, hc.1]
    rw [hstep, hnone, hc.filed_eq_nil]
    exact ⟨hq, hstill, rfl, rfl⟩

/-- Once all threads are quiet, nothing passes any more, and all stays still. -/
theorem run (h : t.Quiet) (hs : Sound adm fin t) (moves : List Move) :
    (t.run moves).Quiet ∧ Still t (t.run moves) ∧ t.admitted moves = [] ∧ t.filed moves = [] := by
  induction moves generalizing t adm fin with
  | nil => exact ⟨h, .refl t, rfl, rfl⟩
  | cons move moves ih =>
    obtain ⟨hquiet, hstill, hadmitted, hfiled⟩ := h.perform hs move
    obtain ⟨hquiet', hstill', hadmitted', hfiled'⟩ := ih hquiet (hs.perform move)
    exact ⟨hquiet', hstill.trans hstill', by simp [admitted, hadmitted, hadmitted'],
      by simp [filed, hfiled, hfiled']⟩

end Quiet

/-! ## What the ending thread finds -/

theorem weight_le (h : ∀ c ∈ t.callers, c.Proper) : t.weight ≤ 2 * t.callers.length := by
  unfold weight
  generalize t.callers = callers at h
  induction callers with
  | nil => simp
  | cons c callers ih =>
    have hload := c.load_le (h c List.mem_cons_self)
    have hrest := ih fun d hd => h d (List.mem_cons_of_mem c hd)
    simp only [List.foldr_cons, List.length_cons]
    omega

theorem load_eq_zero_of_weight (h : t.weight = 0) : ∀ c ∈ t.callers, c.load = 0 := by
  unfold weight at h
  generalize t.callers = callers at h
  induction callers with
  | nil => simp
  | cons c callers ih =>
    simp only [List.foldr_cons] at h
    intro d hd
    rcases List.mem_cons.mp hd with rfl | hd
    · omega
    · exact ih (by omega) d hd

/-- If the count is zero, no thread weighs anything.  The count is a machine word that wraps
around, and a thread weighs two at most, so this takes fewer contexts than half its values.
No address space has room for more. -/
theorem Sound.quiet (hs : Sound adm fin t) (hc : t.engine.checking = false)
    (hfew : 2 * t.callers.length < UInt64.size) (hn : t.engine.inFlight = 0) : t.Quiet := by
  have hsmall : t.weight < UInt64.size := Nat.lt_of_le_of_lt (weight_le hs.proper) hfew
  have hzero : t.weight = 0 := by
    have hcount := congrArg UInt64.toNat (hs.inFlight.symm.trans hn)
    rwa [UInt64.toNat_ofNat_of_lt' hsmall] at hcount
  exact ⟨hc, fun c hmem => c.quiet_of_load_eq_zero (load_eq_zero_of_weight hzero c hmem)⟩

/-- A harvest has every history that is not blank. -/
def Covers (harvest : Harvest) (t : Traffic) : Prop :=
  ∀ (ref : HistoryRef) (h : History), ref.edition = t.engine.memory.edition →
    t.engine.book[ref]? = some h → h.harvest ∈ harvest.threads ∨ h.Blank

theorem covers_harvest (t : Traffic) : Covers t.engine.harvest t := by
  intro ref h he hb
  exact .inl (List.mem_map_of_mem (Engine.mem_histories_iff.mpr ⟨ref, he, hb⟩))

theorem Covers.still {harvest : Harvest} (h : Covers harvest t) (hs : Still t t') :
    Covers harvest t' := by
  intro ref hist he hb
  rw [hs.memory] at he
  rcases hs.book ref with hsame | ⟨-, new, hnew, hblank⟩
  · exact h ref hist he (hsame.symm.trans hb)
  · obtain rfl := Option.some.inj (hnew.symm.trans hb)
    exact .inr hblank

/-- What is true from the time that the ending thread has found nothing in flight. -/
def Closed (t : Traffic) : Prop :=
  match t.closing with
  | .notBegun | .stopped => True
  | .settled => t.Quiet
  | .harvested harvest => t.Quiet ∧ Covers harvest t

theorem Closed.quiet (h : Closed t) (hs : t.closing.HasSettled) : t.Quiet := by
  unfold Closed at h
  cases hc : t.closing with
  | notBegun => simp [Closing.HasSettled, hc] at hs
  | stopped => simp [Closing.HasSettled, hc] at hs
  | settled => simpa [hc] using h
  | harvested harvest =>
    rw [hc] at h
    exact h.1

/-- Only the ending thread moves itself. -/
theorem closing_perform (hmove : ∀ timeout, move ≠ .close timeout) :
    (t.perform move).closing = t.closing := by
  cases move with
  | close timeout => exact absurd rfl (hmove timeout)
  | objectCreated | rootContext | detached => rfl
  | threadStarted i child =>
    simp only [perform]
    split <;> rfl
  | enter i hook | step i =>
    simp only [perform]
    split
    · rfl
    · split <;> rfl

theorem Closed.close (h : Closed t) (hs : Sound adm fin t)
    (hfew : 2 * t.callers.length < UInt64.size) (timeout : Duration) :
    Closed (t.perform (.close timeout)) := by
  have hquiet := h.quiet
  cases hc : t.closing with
  | notBegun => simp [Closed, perform, hc]
  | stopped =>
    have hoff : t.engine.checking = false := hs.checking (by simp [hc])
    by_cases hn : t.engine.inFlight = 0
    · -- the count is read once; that all threads are quiet is kept from here on
      have hq := hs.quiet hoff hfew hn
      simp only [Closed, perform, hc, Engine.settle, hn, if_true]
      exact ⟨hq.checking, hq.callers⟩
    · simp [Closed, perform, hc, Engine.settle, hn]
  | settled =>
    have hq : t.Quiet := hquiet (by rw [hc]; trivial)
    simp only [Closed, perform, hc]
    exact ⟨⟨hq.checking, hq.callers⟩, covers_harvest t⟩
  | harvested harvest => simpa [perform, hc] using h

theorem Closed.perform (h : Closed t) (hs : Sound adm fin t)
    (hfew : 2 * t.callers.length < UInt64.size) (move : Move) : Closed (t.perform move) := by
  by_cases hmove : ∃ timeout, move = .close timeout
  · obtain ⟨timeout, rfl⟩ := hmove
    exact h.close hs hfew timeout
  · have hclosing : (t.perform move).closing = t.closing :=
      closing_perform fun timeout he => hmove ⟨timeout, he⟩
    have hquiet := h.quiet
    unfold Closed at h ⊢
    rw [hclosing]
    cases hc : t.closing with
    | notBegun => trivial
    | stopped => trivial
    | settled => exact ((hquiet (by rw [hc]; trivial)).perform hs move).1
    | harvested harvest =>
      obtain ⟨hq, hstill, -⟩ := (hquiet (by rw [hc]; trivial)).perform hs move
      rw [hc] at h
      exact ⟨hq, h.2.still hstill⟩

/-! ## Whole runs -/

/-- Contexts that were handed out stay. -/
theorem Sound.length_le (hs : Sound adm fin t) (move : Move) :
    t.callers.length ≤ (t.perform move).callers.length := by
  have hmoved := moved hs.wellFormed hs.checking move
  generalize t.admittedBy move = admitted, t.filedBy move = filed, t.perform move = t' at hmoved ⊢
  cases hmoved <;> simp

/-- What was let through is filed when nothing is held any more. -/
theorem Sound.perm (hs : Sound adm fin t) (hq : t.Quiet) : adm.Perm fin := by
  have hheld : ∀ i, t.heldBy i = [] := by
    intro i
    unfold heldBy
    cases hi : t.callers[i]? with
    | none => rfl
    | some c => exact (hq.callers c (List.mem_of_getElem? hi)).held_eq_nil
  refine List.perm_iff_count.mpr fun x => ?_
  have hpassed := hs.passed x.1
  rw [hheld, List.append_nil] at hpassed
  rw [← Replay.count_accessesOf, ← Replay.count_accessesOf, hpassed]

theorem Closed.run (h : Closed t) (hs : Sound [] [] t) {moves : List Move}
    (hfew : 2 * (t.run moves).callers.length < UInt64.size) : Closed (t.run moves) := by
  induction moves using List.reverseRecOn with
  | nil => exact h
  | append_singleton moves move ih =>
    rw [run_concat] at hfew ⊢
    have hbefore := hs.run moves
    have hfew' := Nat.lt_of_le_of_lt (Nat.mul_le_mul_left 2 (hbefore.length_le move)) hfew
    exact (ih hfew').perform hbefore hfew' move

/-- The traffic when the replay has just begun. -/
def opening (past : Archive) (recording : Recording) (checksum : UInt32) (root : AnnouncedThread)
    (budget : Budget) (observer : Option Observer) : Traffic :=
  { engine := Engine.start past recording checksum root budget observer }

variable {past : Archive} {recording : Recording} {checksum : UInt32} {root : AnnouncedThread}
  {budget : Budget} {observer : Option Observer}

theorem sound_opening (hpast : past.Bounded) :
    Sound [] [] (opening past recording checksum root budget observer) where
  toListed := Replay.Listed.opening hpast ..
  wellFormed := Replay.wellFormed_opening hpast
  proper _ hc := absurd hc List.not_mem_nil
  inFlight := Replay.inFlight_start
  passed _ := rfl
  checking hne := absurd rfl hne

/-- **Shutting down misses no access.**  Threads move in any order.  Once the ending thread
has stopped the checks and then found nothing in flight, no move lets an access through or
files one, and none changes a location, a divergence or a history; and for every thread, the
harvest has all the accesses that were ever let through on its contexts. -/
theorem shutdown_misses_no_access (hpast : past.Bounded) (moves : List Move)
    (hfew : 2 * ((opening past recording checksum root budget observer).run
      moves).callers.length < UInt64.size) :
    let s := opening past recording checksum root budget observer
    let t := s.run moves
    (t.closing.HasSettled → ∀ moves',
      Still t (t.run moves') ∧ t.admitted moves' = [] ∧ t.filed moves' = []) ∧
    ∀ harvest, t.closing = .harvested harvest → ∀ ref : HistoryRef,
      accessesOf (s.admitted moves) (t.toReplay.FilesUnder ref) = [] ∨
      ∃ thread ∈ harvest.threads, thread.thread.raw = ref.thread ∧ thread.accesses.Perm
        ((accessesOf (s.admitted moves) (t.toReplay.FilesUnder ref)).map OpenAccess.harvest) := by
  intro s t
  have hs : Sound (s.admitted moves) (s.filed moves) t := (sound_opening hpast).run moves
  have hbegun : Closed s := by trivial
  have hclosed : Closed t := hbegun.run (sound_opening hpast) hfew
  refine ⟨fun hsettled moves' => ?_, fun harvest hharvest ref => ?_⟩
  · exact ((hclosed.quiet hsettled).run hs moves').2
  · have hq : t.Quiet := hclosed.quiet (by rw [hharvest]; trivial)
    have hcovers : Covers harvest t := by
      unfold Closed at hclosed
      rw [hharvest] at hclosed
      exact hclosed.2
    have hperm : (accessesOf (s.admitted moves) (t.toReplay.FilesUnder ref)).Perm
        (accessesOf (s.filed moves) (t.toReplay.FilesUnder ref)) :=
      Replay.accessesOf_perm (hs.perm hq)
    by_cases hknown : ∃ i, t.toReplay.FilesUnder ref i
    · obtain ⟨i, hi⟩ := hknown
      obtain ⟨p, hp, hfiled⟩ := Option.map_eq_some_iff.mp hi
      obtain ⟨hedition, h, hb⟩ := hs.wellFormed.registered i p ref hp hfiled
      have hlist := hs.toListed.filed ref h hedition hb
      -- a history that the harvest lacks was begun after it, and is blank
      rcases hcovers ref h hedition hb with hmem | hblank
      · refine .inr ⟨h.harvest, hmem, hs.wellFormed.raw_eq ref h hb hedition, ?_⟩
        rw [History.harvest, hlist]
        exact (hperm.map _).symm
      · rw [hblank.accesses] at hlist
        rw [← hlist] at hperm
        exact .inl hperm.eq_nil
    · exact .inl (Replay.accessesOf_eq_nil fun x _ hx => hknown ⟨x.1, hx⟩)

/-- A write is let through before the checks are stopped, and finished after; meanwhile the
ending thread finds it in flight.  A second hook is called before the harvest is taken. -/
def writeWhileStopping : List Move :=
  [.rootContext, .objectCreated ⟨100, "Box"⟩, .enter 0 (.before ⟨⟨100, "Box"⟩, "value", .write⟩),
    .step 0, .step 0, .step 0, .step 0, .step 0, .close ⟨0⟩, .close ⟨0⟩, .enter 0 (.after .write),
    .step 0, .step 0, .step 0, .close ⟨0⟩, .step 0, .close ⟨0⟩,
    .enter 0 (.before ⟨⟨100, "Box"⟩, "value", .read⟩), .close ⟨0⟩]

theorem write_harvested : ({} : Archive).Bounded ∧
    let t := (opening {} Replay.oneWrite 0 ⟨7, "main"⟩ {} none).run writeWhileStopping
    2 * t.callers.length < UInt64.size ∧ (∀ moves', Still t (t.run moves')) ∧
      ∃ harvest, t.closing = .harvested harvest ∧ ∃ thread ∈ harvest.threads,
        thread.thread.raw = 7 ∧ thread.accesses.Perm [⟨"obj#0.value", .write, .granted, 0⟩] := by
  have hfew : 2 * ((opening {} Replay.oneWrite 0 ⟨7, "main"⟩ {} none).run
      writeWhileStopping).callers.length < UInt64.size := by
    decide +kernel
  have hclosing : ((opening {} Replay.oneWrite 0 ⟨7, "main"⟩ {} none).run
      writeWhileStopping).closing = .harvested ⟨0, [], [⟨⟨7, "main"⟩, some 1, true, false,
        [⟨"obj#0.value", .write, .granted, 0⟩]⟩]⟩ := by
    decide +kernel
  have hadmitted : (accessesOf
      ((opening {} Replay.oneWrite 0 ⟨7, "main"⟩ {} none).admitted writeWhileStopping)
      (((opening {} Replay.oneWrite 0 ⟨7, "main"⟩ {} none).run
        writeWhileStopping).toReplay.FilesUnder ⟨1, 7⟩)).map OpenAccess.harvest =
      [⟨"obj#0.value", .write, .granted, 0⟩] := by
    decide +kernel
  obtain ⟨hstill, hharvest⟩ := shutdown_misses_no_access Archive.bounded_empty
    writeWhileStopping hfew
  refine ⟨Archive.bounded_empty, hfew, fun moves' => (hstill (by rw [hclosing]; trivial) moves').1,
    _, hclosing, ?_⟩
  rcases hharvest _ hclosing ⟨1, 7⟩ with hnone | hsome
  · rw [hnone] at hadmitted
    cases hadmitted
  · rwa [hadmitted] at hsome

end Traffic
end AccessReplay
