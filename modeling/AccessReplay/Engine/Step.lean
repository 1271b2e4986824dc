import AccessReplay.Engine.Basic

/-!
# Steps of a hook

A hook is a sequence of steps, each of them one effect on the engine.  A thread
counts itself before it looks whether accesses are still checked, and uncounts
itself last; an access stays counted while it is open.  The stages reached from a
call lead out of the hook after at most `Stage.rank` steps, whatever other
threads do in between.
-/

namespace AccessReplay
namespace Engine

/-- An access goes ahead. -/
def letThrough (e : Engine) (p : Participant) (a : OpenAccess) : Engine × Caller :=
  (e.note (.letThrough a), ⟨{ p with pending := some a }, .outside⟩)

/-- The divergence that an inquiry ended in. -/
def divergence (p : Participant) (q : Inquiry) (reason : DivergenceReason) : Divergence :=
  ⟨q.location.key, p.live.raw, q.thread, q.kind, reason, q.retries⟩

/-- What is said when a location is marked diverged. -/
def divergenceNotices (e : Engine) (p : Participant) (q : Inquiry) (reason : DivergenceReason) :
    List Notice :=
  let writers := ((e.memory.find? q.location).map Location.pendingWriters).getD []
  [.diverged (divergence p q reason), .writersExpected q.location.key writers]

/-- Tells the observer of a divergence. -/
def report (e : Engine) (d : Divergence) : Engine :=
  match e.observer with
  | none => e
  | some observe =>
    let e := { e with reported := e.reported.push d }
    if observe d then e else e.note (.observerFailed d.location)

/-- Why an inquiry whose budget is used up is given up. -/
def stall (e : Engine) (q : Inquiry) : DivergenceReason :=
  ((e.memory.find? q.location).map Location.stall).getD (.stalled none 0)

/-- Looks up the location that a request is about, if its field is shared. -/
def locate (e : Engine) (r : Request) : Engine × Option LocationRef :=
  let (memory, ref) := e.memory.lookUp e.objects r.object r.field
  ({ e with memory }.notes (e.memory.remarks e.objects r.object r.field), ref)

/-- The next step of a thread in a hook.  A thread in no hook stays where it is. -/
def step (e : Engine) (c : Caller) : Engine × Caller :=
  let p := c.who
  match c.stage with
  | .outside => (e, c)
  | .announced r => ({ e with inFlight := e.inFlight + 1 }, ⟨p, .counted r⟩)
  | .counted r =>
    match p.pending with
    | none => (e, ⟨p, .choosing r⟩)
    | some a => (e.note (.unfinished a), ⟨{ p with pending := none }, .committing a (some r)⟩)
  | .concluding kind =>
    match p.pending with
    | none => (e, ⟨p, .outside⟩)
    | some a =>
      let e := if a.kind = kind then e else e.note (.kindMismatch kind a)
      (e, ⟨{ p with pending := none }, .committing a none⟩)
  | .committing a next => ({ e with memory := e.memory.commit a }, ⟨p, .filing a next⟩)
  | .filing a next =>
    let (e, p) := e.file p a
    (e, ⟨p, .releasing next⟩)
  | .releasing next =>
    ({ e with inFlight := e.inFlight - 1 }, ⟨p, next.elim .outside .choosing⟩)
  | .choosing r =>
    if e.checking && e.memory.isShared r.object r.field then (e, ⟨p, .locating r⟩)
    else (e, ⟨p, .leaving⟩)
  | .locating r =>
    let (e, found) := e.locate r
    match found with
    | none => (e, ⟨p, .leaving⟩)
    | some ref => (e, ⟨p, .asking ⟨ref, e.actsAs p, r.kind, 0⟩⟩)
  | .asking q =>
    let (memory, verdict) := e.memory.poll q.location q.thread q.kind
    let e := { e with memory }
    match verdict with
    | .grant => e.letThrough p (q.access .granted)
    | .wait => (e, ⟨p, .waiting q⟩)
    | .diverged reason => (e, ⟨p, .marking q reason⟩)
  | .waiting q =>
    if e.checking then (e, ⟨p, .resting q⟩)
    else (e.note (.stopping q.kind q.location.key)).letThrough p (q.access .forced)
  | .resting q =>
    match (Patience.mk e.budget q.retries).pause with
    | (some _, b) => (e, ⟨p, .asking { q with retries := b.retries }⟩)
    | (none, _) => (e, ⟨p, .marking q (e.stall q)⟩)
  | .marking q reason =>
    ({ e with memory := e.memory.diverge q.location }.notes (e.divergenceNotices p q reason),
      ⟨p, .flagging q reason⟩)
  | .flagging q reason =>
    let (e, p) := e.flag p
    (e, ⟨p, .counting q reason⟩)
  | .counting q reason =>
    ({ e with divergences := e.divergences + 1 }, ⟨p, .reporting q reason⟩)
  | .reporting q reason => (e.report (divergence p q reason)).letThrough p (q.access .forced)
  | .leaving => ({ e with inFlight := e.inFlight - 1 }, ⟨p, .outside⟩)

/-- Takes steps of one thread until it is in no hook, but at most `fuel`. -/
def run : Nat → Engine → Caller → Engine × Caller
  | 0, e, c => (e, c)
  | fuel + 1, e, c =>
    if c.stage = .outside then (e, c)
    else
      let next := e.step c
      run fuel next.1 next.2

/-- A whole hook, while no other thread takes a step. -/
def call (e : Engine) (p : Participant) (hook : Hook) : Engine × Participant :=
  let stage := Stage.entry hook
  let ended := run (stage.rank e.budget.maxRetries) e ⟨p, stage⟩
  (ended.1, ended.2.who)

/-- The hook before an access. -/
def before (e : Engine) (p : Participant) (r : Request) : Engine × Participant :=
  e.call p (.before r)

/-- The hook after an access. -/
def after (e : Engine) (p : Participant) (kind : AccessKind) : Engine × Participant :=
  e.call p (.after kind)

end Engine
end AccessReplay
