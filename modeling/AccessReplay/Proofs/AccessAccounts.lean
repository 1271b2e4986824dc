import AccessReplay.Proofs.FiledHistories
import AccessReplay.Harvest

/-!
# No access is lost

The accesses that were let through on a context are those that were finished on it, and then
the one that is open (`Accounted`); each history lists the accesses that were finished on its
contexts.  The number of accesses in flight is the number of contexts with an access open.
-/
namespace AccessReplay.Replay

variable {s : Replay} {adm fin : Log} {i n : Nat} {p p' : Participant} {e' : Engine}
  {a : OpenAccess}

/-! ## Open accesses -/

theorem openOn_set_self (hi : i < s.contexts.length) :
    openOn ⟨e', s.contexts.set i p'⟩ i = p'.pending.toList :=
  openOn_of_getElem? (List.getElem?_set_self hi)

theorem openOn_set_of_ne {j : Nat} (h : i ≠ j) :
    openOn ⟨e', s.contexts.set i p'⟩ j = s.openOn j := by
  simp [openOn, List.getElem?_set_ne h]

theorem openOn_append (hp : p.pending = none) : openOn ⟨e', s.contexts ++ [p]⟩ i = s.openOn i := by
  unfold openOn
  rw [List.getElem?_append]
  split
  · rfl
  · next hge =>
    rw [List.getElem?_eq_none (Nat.not_lt.mp hge), List.getElem?_singleton]
    split <;> simp [hp]

/-! ## The accounts -/

/-- Every access that was let through on a context is finished once, or still open; and
histories list what was finished. -/
structure Accounted (adm fin : Log) (s : Replay) : Prop extends Listed fin s where
  /-- Only the last access of a context may be open. -/
  passed : ∀ i, accessesOf adm (· = i) = accessesOf fin (· = i) ++ s.openOn i

theorem Accounted.kept : Kept Accounted where
  sameRecords _ h hs := ⟨h.toListed.sameRecords hs, h.passed⟩
  handsOut hw h hs := by
    refine ⟨h.toListed.handsOut hw hs, fun i => ?_⟩
    rw [openOn_append hs.pending]
    exact h.passed i
  concluded {adm fin s i p a e' p'} _ h hi hp hc := by
    refine ⟨h.toListed.turn hi (by rw [hc.memory]; rfl) hc.adds, fun j => ?_⟩
    by_cases hij : i = j
    · subst hij
      rw [openOn_set_self (List.getElem?_eq_some_iff.mp hi).1, hc.pending, h.passed,
        openOn_of_getElem? hi, hp]
      simp [accessesOf_singleton]
    · rw [openOn_set_of_ne hij, h.passed]
      simp [accessesOf_singleton, hij]
  decided {adm fin s i p r e' p'} _ h hi hp hd := by
    have hlisted : Listed (fin ++ []) ⟨e', s.contexts.set i p'⟩ :=
      h.toListed.turn hi hd.edition hd.adds
    rw [List.append_nil] at hlisted
    refine ⟨hlisted, fun j => ?_⟩
    rw [accessesOf_append, accessesOf_map, h.passed]
    by_cases hij : i = j
    · subst hij
      have hidle : s.openOn i = [] := by simp [openOn_of_getElem? hi, hp]
      rw [openOn_set_self (List.getElem?_eq_some_iff.mp hi).1, hidle, if_pos rfl, List.append_nil]
    · rw [openOn_set_of_ne hij, if_neg hij, List.append_nil]

/-! ## What is let through -/

/-- The access that a context has open was asked for by its last before-hook. -/
def AskedBy (e : Engine) (p : Participant) (r : Request) (a : OpenAccess) : Prop :=
  a.kind = r.kind ∧ a.thread = e.actsAs p ∧ ∃ id,
    e.objects.find? r.object.handle = some id ∧ a.location = ⟨e.memory.edition, ⟨id, r.field⟩⟩

theorem askedBy_of_decided {e : Engine} {r : Request} (h : Engine.Decided e p r e' p')
    (hp : p.pending = none) (ha : p'.pending = some a) : AskedBy e p r a := by
  cases h with
  | unchecked =>
    rw [hp] at ha
    cases ha
  | granted hf =>
    cases ha
    obtain ⟨id, hid, rfl, -⟩ := LiveMemory.lookUp_snd hf
    exact ⟨rfl, rfl, id, hid, rfl⟩
  | forced hf =>
    cases ha
    obtain ⟨id, hid, rfl, -⟩ := LiveMemory.lookUp_snd hf
    exact ⟨rfl, rfl, id, hid, rfl⟩

/-- What a before-hook lets through is the access that it announces, whatever it finishes. -/
theorem askedBy_before {e : Engine} {r : Request} (ha : (e.before p r).2.pending = some a) :
    AskedBy e p r a := by
  cases hp : p.pending with
  | none => exact askedBy_of_decided (Engine.before_of_idle hp r) hp ha
  | some old =>
    obtain ⟨e₁, p₁, hc, hd⟩ := Engine.before_of_open (e := e) hp r
    have hasked := askedBy_of_decided hd hc.pending ha
    have hobjects : e₁.objects = e.objects := congrArg Engine.Setting.objects hc.setting
    have hrecording : e₁.recording = e.recording := congrArg Engine.Setting.recording hc.setting
    simpa [AskedBy, Engine.actsAs, hc.memory, hc.recorded, hobjects, hrecording] using hasked

/-- A context adds to a history of the replay, or has one of its own, which then lists just
what was finished on it. -/
structure FilesIn (e : Engine) (p : Participant) (done : List OpenAccess) : Prop where
  filed : ∀ ref, p.history = .filed ref →
    ref.edition = e.memory.edition ∧ ∃ h, e.book[ref]? = some h
  own : ∀ h, p.history = .own h → h.harvest.accesses = done.map OpenAccess.harvest

/-- What the next hook on a context does: an open access is committed and filed as it was
opened, and then it is decided on a new one. -/
structure SettlesNext (e : Engine) (p : Participant) : Prop where
  after : ∀ a, p.pending = some a → ∀ kind,
    Engine.Concluded e { p with pending := none } a (e.after p kind).1 (e.after p kind).2
  before : ∀ a, p.pending = some a → ∀ r, ∃ e₁ p₁,
    Engine.Concluded e { p with pending := none } a e₁ p₁ ∧
      Engine.Decided e₁ p₁ r (e.before p r).1 (e.before p r).2
  idle : p.pending = none → ∀ kind, e.after p kind = (e, p)
  asked : ∀ r a, (e.before p r).2.pending = some a → AskedBy e p r a

theorem settlesNext (e : Engine) (p : Participant) : SettlesNext e p where
  after _ hp kind := Engine.after_of_open hp kind
  before _ hp r := Engine.before_of_open hp r
  idle hp kind := Engine.after_of_idle hp kind
  asked _ _ ha := askedBy_before ha

/-! ## The count of accesses in flight -/

/-- The number of contexts with an access open. -/
def openCount (s : Replay) : Nat := s.contexts.countP Participant.hasOpenAccess

theorem openCount_append (hp : p.pending = none) :
    openCount ⟨e', s.contexts ++ [p]⟩ = s.openCount := by
  simp [openCount, Participant.hasOpenAccess, hp]

theorem openCount_set (hi : s.contexts[i]? = some p) (e' : Engine) (p' : Participant) :
    openCount ⟨e', s.contexts.set i p'⟩ + p.pending.toList.length =
      s.openCount + p'.pending.toList.length := by
  obtain ⟨hlt, rfl⟩ := List.getElem?_eq_some_iff.mp hi
  have hopen : ∀ q : Participant, q.pending.toList.length = if q.hasOpenAccess then 1 else 0 := by
    intro q
    cases hq : q.pending <;> simp [Participant.hasOpenAccess, hq]
  have hcounted : (s.contexts[i]).hasOpenAccess = true → 0 < s.openCount := fun ho =>
    List.countP_pos_iff.mpr ⟨_, List.getElem_mem hlt, ho⟩
  have hset : openCount ⟨e', s.contexts.set i p'⟩ =
      s.openCount - (if (s.contexts[i]).hasOpenAccess then 1 else 0) +
        if p'.hasOpenAccess then 1 else 0 := List.countP_set hlt
  rw [hopen, hopen, hset]
  by_cases hold : (s.contexts[i]).hasOpenAccess = true
  · have hpos := hcounted hold
    rw [if_pos hold]
    omega
  · rw [if_neg hold]
    omega

/-- **The count of accesses in flight** is the number of contexts with an access open. -/
theorem inFlight_perform (h : s.engine.inFlight = .ofNat s.openCount)
    (call : Call) :
    (s.perform call).engine.inFlight = .ofNat (s.perform call).openCount := by
  cases call with
  | objectCreated object =>
    obtain ⟨objects, journal, hobject⟩ := s.engine.objectCreated_eq object
    simp only [perform, hobject]
    exact h
  | stopChecking => exact h
  | rootContext => exact h.trans (congrArg _ (openCount_append rfl).symm)
  | detached thread => exact h.trans (congrArg _ (openCount_append rfl).symm)
  | threadStarted j child =>
    cases hj : s.contexts[j]? with
    | none => simpa [perform, hj] using h
    | some parent =>
      obtain ⟨counterparts, journal, recorded, hs⟩ :=
        s.engine.threadStarted_eq parent.live.raw child
      simp only [perform, hj, hs]
      exact h.trans (congrArg _ (openCount_append rfl).symm)
  | hook i hook =>
    cases hi : s.contexts[i]? with
    | none => simpa [perform, hi] using h
    | some p =>
      rw [perform_hook hi]
      have hcount := congrArg UInt64.ofNat
        (openCount_set hi (s.engine.call p hook).1 (s.engine.call p hook).2)
      have hcall := Engine.inFlight_call (e := s.engine) (p := p) hook
      -- the count and the number of open accesses change by the same, as machine words
      rw [UInt64.ofNat_add, UInt64.ofNat_add] at hcount
      grind

variable {past : Archive} {recording : Recording} {checksum : UInt32} {root : AnnouncedThread}
  {budget : Budget} {observer : Option Observer}

theorem inFlight_performAll (h : s.engine.inFlight = .ofNat s.openCount) (calls : List Call) :
    (s.performAll calls).engine.inFlight = .ofNat (s.performAll calls).openCount := by
  induction calls using List.reverseRecOn with
  | nil => exact h
  | append_singleton calls call ih =>
    rw [performAll_concat]
    exact inFlight_perform ih call

/-! ## Whole runs -/

theorem accounted_opening (hpast : past.Bounded) :
    Accounted [] [] (opening past recording checksum root budget observer) :=
  ⟨Listed.opening hpast .., fun _ => rfl⟩

/-- **No access is lost or recorded twice.**  Whatever is called, on whatever contexts: the
number of accesses in flight is exact; the accesses let through on a context are those
finished on it and the one that is open; each history lists the finished accesses of its
contexts, in order, as they were opened; and an open access is finished by the next hook on
its context. -/
theorem no_access_lost (hpast : past.Bounded) (calls : List Call) :
    let s := opening past recording checksum root budget observer
    let t := s.performAll calls
    t.engine.inFlight = .ofNat t.openCount ∧
    (t.contexts.length < UInt64.size → t.engine.inFlight.toNat = t.openCount) ∧
    (∀ i, accessesOf (s.admitted calls) (· = i) =
      accessesOf (s.finished calls) (· = i) ++ t.openOn i) ∧
    (∀ (ref : HistoryRef) (h : History), ref.edition = t.engine.memory.edition →
      t.engine.book[ref]? = some h → h.harvest.accesses =
        (accessesOf (s.finished calls) (t.FilesUnder ref)).map OpenAccess.harvest) ∧
    ∀ (i : Nat) (p : Participant), t.contexts[i]? = some p →
      FilesIn t.engine p (accessesOf (s.finished calls) (· = i)) ∧ SettlesNext t.engine p := by
  intro s t
  obtain ⟨hw, hacc⟩ := Accounted.kept.performAll (wellFormed_opening hpast)
    (accounted_opening hpast) calls
  have hcount : t.engine.inFlight = .ofNat t.openCount := inFlight_performAll inFlight_start calls
  refine ⟨hcount, fun hfew => ?_, hacc.passed, fun ref h he hb => ?_, fun i p hi =>
    ⟨⟨fun ref hfiled => hw.registered i p ref hi hfiled, fun h hown => ?_⟩, settlesNext ..⟩⟩
  · have hle : t.openCount ≤ t.contexts.length := List.countP_le_length
    rw [hcount]
    exact UInt64.toNat_ofNat_of_lt' (Nat.lt_of_le_of_lt hle hfew)
  · exact congrArg (List.map OpenAccess.harvest) (hacc.filed ref h he hb)
  · exact congrArg (List.map OpenAccess.harvest) (hacc.own i p h hi hown)

/-- The recorded write is made and never finished by its after-hook; the read that follows was
not recorded. -/
def writeThenRead : List Call :=
  [.rootContext, .objectCreated ⟨100, "Box"⟩, .hook 0 (.before ⟨⟨100, "Box"⟩, "value", .write⟩),
    .hook 0 (.before ⟨⟨100, "Box"⟩, "value", .read⟩), .stopChecking]

theorem write_filed_before_read : ({} : Archive).Bounded ∧
    (oneWriteReplay.performAll writeThenRead).engine.inFlight = 1 ∧
    ∃ h, (oneWriteReplay.performAll writeThenRead).engine.book[(⟨1, 7⟩ : HistoryRef)]? = some h ∧
      h.harvest.accesses = [⟨"obj#0.value", .write, .granted, 0⟩] := by
  obtain ⟨hcount, -, -, hfiled, -⟩ := @no_access_lost {} oneWrite 0 ⟨7, "main"⟩ { maxRetries := 1 }
    (some fun _ => true) Archive.bounded_empty writeThenRead
  have hopened :
      (oneWriteReplay.performAll writeThenRead).engine.book[(⟨1, 7⟩ : HistoryRef)]?.isSome := by
    decide +kernel
  obtain ⟨h, hb⟩ := Option.isSome_iff_exists.mp hopened
  refine ⟨Archive.bounded_empty, hcount.trans (by decide +kernel), h, hb, ?_⟩
  exact (hfiled _ h (by decide +kernel) hb).trans (by decide +kernel)

end AccessReplay.Replay
