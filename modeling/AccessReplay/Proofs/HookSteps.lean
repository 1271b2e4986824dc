import AccessReplay.Engine.Progress

/-!
# What a step of a hook does

Each step of a hook has one effect on what the threads share (`effect_step`): the stage it
starts from says which.  All other parts of the engine stay as they are, whatever other
threads did before.

Two things are carried through a hook.  An access that is open is held by its thread until
it is filed, and what is let through is held afterwards (`held_step`).  A thread weighs on
the number of accesses in flight as long as it is in a before-hook or holds an access
(`inFlight_step`).
-/
namespace AccessReplay

/-- Changes the history at a place, in the book or with the thread itself. -/
def HistoryPlace.change (f : History → History) (book : HistoryBook) :
    HistoryPlace → HistoryBook × HistoryPlace
  | .filed ref => (book.modify ref f, .filed ref)
  | .own h => (book, .own (f h))

namespace HistoryPlace

variable {place : HistoryPlace} {f : History → History} {book : HistoryBook} {ref : HistoryRef}

theorem getElem?_change : (place.change f book).1[ref]? =
    if place = .filed ref then book[ref]?.map f else book[ref]? := by
  cases place with
  | filed ref' =>
    by_cases he : ref' = ref
    · subst he
      simp [change]
    · simp [change, Std.ExtTreeMap.getElem?_modify, he]
  | own h => simp [change]

/-- What a change leaves alone in each history, it leaves alone in the book. -/
theorem map_change {α : Type} {g : History → α} (h : ∀ h, g (f h) = g h) :
    (place.change f book).1[ref]?.map g = book[ref]?.map g := by
  rw [getElem?_change]
  split
  · cases book[ref]? <;> simp [h]
  · rfl

theorem change_eq_filed_iff : (place.change f book).2 = .filed ref ↔ place = .filed ref := by
  cases place <;> simp [change]

theorem change_eq_own_iff {h : History} :
    (place.change f book).2 = .own h ↔ ∃ old, place = .own old ∧ f old = h := by
  cases place <;> simp [change]

end HistoryPlace

/-! ## Callers -/

namespace Caller

/-- Once a hook has looked at the access its thread had open, none is open until the hook
ends. -/
def Proper (c : Caller) : Prop :=
  match c.stage with
  | .outside | .announced _ | .counted _ | .concluding _ => True
  | _ => c.who.pending = none

/-- The access that a thread holds: let through, and not yet in its history. -/
def held (c : Caller) : List OpenAccess :=
  match c.stage with
  | .committing a _ | .filing a _ => [a]
  | _ => c.who.pending.toList

/-- The access that the next step adds to the thread's history. -/
def filed (c : Caller) : List OpenAccess :=
  match c.stage with
  | .filing a _ => [a]
  | _ => []

/-- The access that a thread has open when its hook is over. -/
def admitted (c : Caller) : List OpenAccess :=
  if c.stage = .outside then c.who.pending.toList else []

/-- How much a stage weighs on the number of accesses in flight: a before-hook weighs one,
and so does an access that is being finished. -/
def stageLoad : Stage → Nat
  | .outside | .announced _ | .concluding _ => 0
  | .committing _ none | .filing _ none | .releasing none => 1
  | .committing _ (some _) | .filing _ (some _) | .releasing (some _) => 2
  | _ => 1

/-- How much a thread weighs on the number of accesses in flight. -/
def load (c : Caller) : Nat := c.who.pending.toList.length + stageLoad c.stage

@[simp] theorem proper_outside (p : Participant) : Proper ⟨p, .outside⟩ := trivial

@[simp] theorem proper_entry (p : Participant) (hook : Hook) : Proper ⟨p, Stage.entry hook⟩ := by
  cases hook <;> trivial

@[simp] theorem held_entry (p : Participant) (hook : Hook) :
    held ⟨p, Stage.entry hook⟩ = p.pending.toList := by
  cases hook <;> rfl

@[simp] theorem held_outside (p : Participant) : held ⟨p, .outside⟩ = p.pending.toList := rfl

@[simp] theorem load_entry (p : Participant) (hook : Hook) :
    load ⟨p, Stage.entry hook⟩ = p.pending.toList.length := by
  cases hook <;> rfl

@[simp] theorem load_outside (p : Participant) : load ⟨p, .outside⟩ = p.pending.toList.length := rfl

theorem load_le (c : Caller) (h : c.Proper) : c.load ≤ 2 := by
  obtain ⟨⟨live, recorded, pending, history⟩, stage⟩ := c
  cases stage with
  | committing a next | filing a next | releasing next =>
    obtain rfl : pending = none := h
    cases next <;> simp [load, stageLoad]
  | _ => cases pending <;> simp [load, stageLoad]

end Caller

namespace Engine

/-! ## The parts that a step changes -/

/-- The memory after a step from a stage. -/
def memoryNext (e : Engine) : Stage → LiveMemory
  | .committing a _ => e.memory.commit a
  | .locating r => (e.memory.lookUp e.objects r.object r.field).1
  | .asking q => (e.memory.poll q.location q.thread q.kind).1
  | .marking q _ => e.memory.diverge q.location
  | _ => e.memory

/-- The histories after a step from a stage: those that are filed, and the thread's own. -/
def filesNext (e : Engine) (p : Participant) : Stage → HistoryBook × HistoryPlace
  | .filing a _ => p.history.change (·.add a) e.book
  | .flagging _ _ => p.history.change History.flag e.book
  | _ => (e.book, p.history)

/-- What the observer was told, if there is one, when it is told of one more divergence. -/
def told (e : Engine) (d : Divergence) : Array Divergence :=
  if e.observer.isSome then e.reported.push d else e.reported

/-- The divergences told after a step from a stage. -/
def reportedNext (e : Engine) (p : Participant) : Stage → Array Divergence
  | .reporting q reason => e.told (divergence p q reason)
  | _ => e.reported

/-- The number of divergences after a step from a stage. -/
def divergencesNext (e : Engine) : Stage → Nat
  | .counting _ _ => e.divergences + 1
  | _ => e.divergences

/-- The parts of an engine that hooks leave alone. -/
structure Setting where
  checksum : UInt32
  recording : Recording
  objects : ObjectIds
  threads : SpawnTree
  budget : Budget
  observer : Option Observer
  checking : Bool

/-- What hooks leave alone. -/
def setting (e : Engine) : Setting :=
  ⟨e.checksum, e.recording, e.objects, e.threads, e.budget, e.observer, e.checking⟩

/-- All that a step of a caller does to what is shared and to its own history. -/
structure Effect (e : Engine) (c : Caller) (e' : Engine) (c' : Caller) : Prop where
  setting : e'.setting = e.setting
  memory : e'.memory = e.memoryNext c.stage
  files : (e'.book, c'.who.history) = e.filesNext c.who c.stage
  reported : e'.reported = e.reportedNext c.who c.stage
  divergences : e'.divergences = e.divergencesNext c.stage
  live : c'.who.live = c.who.live
  recorded : c'.who.recorded = c.who.recorded

/-- Filing an access changes the thread's history, wherever that is. -/
theorem file_eq (e : Engine) (p : Participant) (a : OpenAccess) :
    e.file p a = ({ e with book := (p.history.change (·.add a) e.book).1 },
      { p with history := (p.history.change (·.add a) e.book).2 }) := by
  obtain ⟨live, recorded, pending, history⟩ := p
  cases history <;> rfl

/-- So does noting a divergence. -/
theorem flag_eq (e : Engine) (p : Participant) :
    e.flag p = ({ e with book := (p.history.change History.flag e.book).1 },
      { p with history := (p.history.change History.flag e.book).2 }) := by
  obtain ⟨live, recorded, pending, history⟩ := p
  cases history <;> rfl

theorem report_eq (e : Engine) (d : Divergence) :
    ∃ journal, e.report d = { e with reported := e.told d, journal } := by
  unfold report told
  cases h : e.observer with
  | none => exact ⟨e.journal, by cases e; simp_all⟩
  | some observe =>
    by_cases hd : observe d = true
    · exact ⟨e.journal, by simp [hd]⟩
    · exact ⟨e.journal.push (.observerFailed d.location), by simp [hd, note]⟩

/-- An access that waited too long is given up for just that. -/
theorem stall_eq (e : Engine) (q : Inquiry) : ∃ writer n, e.stall q = .stalled writer n := by
  unfold stall
  cases e.memory.find? q.location with
  | none => exact ⟨none, 0, rfl⟩
  | some l => exact ⟨l.nextWriter?, l.committed, rfl⟩

/-- **What a step does.** -/
theorem effect_step (e : Engine) (c : Caller) : Effect e c (e.step c).1 (e.step c).2 := by
  obtain ⟨p, stage⟩ := c
  cases stage with
  | counted r | choosing r | waiting q | resting q | asking q =>
    simp only [step]
    split <;> exact ⟨rfl, rfl, rfl, rfl, rfl, rfl, rfl⟩
  | concluding kind =>
    simp only [step]
    split
    · exact ⟨rfl, rfl, rfl, rfl, rfl, rfl, rfl⟩
    · split <;> exact ⟨rfl, rfl, rfl, rfl, rfl, rfl, rfl⟩
  | filing a next =>
    simp only [step, file_eq]
    exact ⟨rfl, rfl, rfl, rfl, rfl, rfl, rfl⟩
  | flagging q reason =>
    simp only [step, flag_eq]
    exact ⟨rfl, rfl, rfl, rfl, rfl, rfl, rfl⟩
  | locating r =>
    simp only [step, locate]
    split <;> exact ⟨rfl, rfl, rfl, rfl, rfl, rfl, rfl⟩
  | reporting q reason =>
    obtain ⟨journal, h⟩ := report_eq e (divergence p q reason)
    simp only [step, h]
    exact ⟨rfl, rfl, rfl, rfl, rfl, rfl, rfl⟩
  | outside | announced | committing | releasing | marking | counting | leaving =>
    exact ⟨rfl, rfl, rfl, rfl, rfl, rfl, rfl⟩

/-! ## What a thread carries through a hook -/

theorem proper_step (e : Engine) {c : Caller} (h : c.Proper) : (e.step c).2.Proper := by
  obtain ⟨p, stage⟩ := c
  cases stage with
  | counted r =>
    simp only [step]
    split
    · assumption
    · rfl
  | concluding kind =>
    simp only [step]
    split
    · trivial
    · rfl
  | choosing r | waiting q | asking q | resting q | locating r =>
    simp only [step]
    split <;> first | exact h | trivial
  | filing a next =>
    simp only [step, file_eq]
    exact h
  | flagging q reason =>
    simp only [step, flag_eq]
    exact h
  | releasing next => cases next <;> first | exact h | trivial
  | committing | marking | counting => exact h
  | outside | announced | reporting | leaving => trivial

/-- **What is held and what is let through is filed or held.** -/
theorem held_step (e : Engine) {c : Caller} (h : c.Proper) (hin : c.stage ≠ .outside) :
    c.held ++ (e.step c).2.admitted = c.filed ++ (e.step c).2.held := by
  obtain ⟨p, stage⟩ := c
  cases stage with
  | outside => exact absurd rfl hin
  | counted r =>
    simp only [step]
    split <;> simp [Caller.held, Caller.admitted, Caller.filed, *]
  | concluding kind =>
    simp only [step]
    split <;> simp [Caller.held, Caller.admitted, Caller.filed, *]
  | choosing r | locating r | waiting q | asking q | resting q =>
    obtain h : p.pending = none := h
    simp only [step]
    split <;> simp [Caller.held, Caller.admitted, Caller.filed, letThrough, h]
  | filing a next =>
    obtain h : p.pending = none := h
    simp [step, file_eq, Caller.held, Caller.admitted, Caller.filed, h]
  | flagging q reason =>
    obtain h : p.pending = none := h
    simp [step, flag_eq, Caller.held, Caller.admitted, Caller.filed, h]
  | releasing next =>
    obtain h : p.pending = none := h
    cases next <;> simp [step, Caller.held, Caller.admitted, Caller.filed, h]
  | committing | marking | counting | reporting | leaving =>
    obtain h : p.pending = none := h
    simp [step, Caller.held, Caller.admitted, Caller.filed, letThrough, h]
  | announced r => simp [step, Caller.held, Caller.admitted, Caller.filed]

/-- **The count of accesses in flight follows the load.** -/
theorem inFlight_step (e : Engine) {c : Caller} (h : c.Proper) :
    (e.step c).1.inFlight + .ofNat c.load = e.inFlight + .ofNat (e.step c).2.load := by
  obtain ⟨p, stage⟩ := c
  cases stage with
  | announced r =>
    simp only [step, Caller.load, Caller.stageLoad, UInt64.ofNat_add]
    grind
  | counted r =>
    simp only [step]
    split <;> simp [Caller.load, Caller.stageLoad, note, *]
  | concluding kind =>
    simp only [step]
    split
    · rfl
    · split <;> simp [Caller.load, Caller.stageLoad, note, *]
  | choosing r | waiting q | resting q | locating r | asking q =>
    obtain h : p.pending = none := h
    simp only [step, locate]
    split <;> simp [Caller.load, Caller.stageLoad, letThrough, note, notes, h]
  | filing a next =>
    simp only [step, file_eq]
    cases next <;> rfl
  | flagging q reason =>
    simp only [step, flag_eq]
    rfl
  | releasing next =>
    obtain h : p.pending = none := h
    cases next <;> simp [step, Caller.load, Caller.stageLoad, h]
    grind
  | reporting q reason =>
    obtain h : p.pending = none := h
    obtain ⟨journal, hr⟩ := report_eq e (divergence p q reason)
    simp [step, Caller.load, Caller.stageLoad, letThrough, note, hr, h]
  | leaving =>
    obtain h : p.pending = none := h
    simp [step, Caller.load, Caller.stageLoad, h]
  | committing a next => cases next <;> rfl
  | outside | marking | counting => rfl

end Engine
end AccessReplay
