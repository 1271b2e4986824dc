import AccessReplay.LiveMemory

/-!
# The live locations of a replay

A location is made when it is first looked up, and from then on it is changed by asking it,
by commits and by marking it diverged.  Once it is marked it stays so, with the writes,
the last write and the reads that it had (`Frozen`): it lets everything through, and what
is committed leaves no trace.
-/
namespace AccessReplay

/-! ## A diverged location -/

namespace Location

variable {l l' : Location}

@[simp] theorem isDiverged_reserve (l : Location) (t : RuntimeId) (k : AccessKind) :
    (l.reserve t k).isDiverged = l.isDiverged := by
  unfold reserve
  split <;> rfl

@[simp] theorem isDiverged_commit (l : Location) (t : RuntimeId) (k : AccessKind) (o : Outcome) :
    (l.commit t k o).isDiverged = l.isDiverged := by
  cases o <;> cases k <;> by_cases h : l.isDiverged = true <;> simp [commit, h]

theorem verdict_of_isDiverged (h : l.isDiverged = true) (t : RuntimeId) (k : AccessKind) :
    l.verdict t k = .grant := by
  simp [verdict, h]

/-- The later state of a location that is marked diverged: still marked, with the progress
it had. -/
structure Frozen (l l' : Location) : Prop where
  isDiverged : l'.isDiverged = true
  committed : l'.committed = l.committed
  lastWrite : l'.lastWrite = l.lastWrite
  reads : l'.reads = l.reads

namespace Frozen

theorem refl (h : l.isDiverged = true) : Frozen l l := ⟨h, rfl, rfl, rfl⟩

theorem trans {l₁ l₂ l₃ : Location} (h : Frozen l₁ l₂) (h' : Frozen l₂ l₃) : Frozen l₁ l₃ :=
  ⟨h'.isDiverged, h'.committed.trans h.committed, h'.lastWrite.trans h.lastWrite,
    h'.reads.trans h.reads⟩

theorem reserve (h : l.isDiverged = true) (t : RuntimeId) (k : AccessKind) :
    Frozen l (l.reserve t k) := by
  have hkeep : l.reserve t k = l := by simp [Location.reserve, h]
  rw [hkeep]
  exact .refl h

/-- Not even a write that was granted before the mark makes progress after it. -/
theorem commit (h : l.isDiverged = true) (t : RuntimeId) (k : AccessKind) (o : Outcome) :
    Frozen l (l.commit t k o) := by
  refine ⟨by rw [isDiverged_commit, h], ?_, ?_, ?_⟩ <;>
    cases o <;> cases k <;> simp [Location.commit, h]

theorem diverge : Frozen l l.diverge := ⟨rfl, rfl, rfl, rfl⟩

end Frozen
end Location

namespace LiveMemory

variable {m m' : LiveMemory} {ref ref' : LocationRef} {l : Location} {f : Location → Location}
  {objects : ObjectIds} {object : AnnouncedObject} {field : String} {t : RuntimeId}
  {k : AccessKind}

theorem find?_update : (m.update ref f).find? ref' =
    if ref = ref' then (m.find? ref).map f else m.find? ref' := by
  simp [find?, update, Std.ExtTreeMap.getElem?_modify]

@[simp] theorem find?_update_self : (m.update ref f).find? ref = (m.find? ref).map f := by
  rw [find?_update, if_pos rfl]

/-- A location that is there is changed by nothing but what is done to it. -/
theorem find?_update_of_some (hl : m.find? ref = some l) (f : Location → Location) :
    (m.update ref' f).find? ref = some (if ref' = ref then f l else l) := by
  rw [find?_update]
  split
  · next he =>
    subst he
    rw [hl]
    rfl
  · exact hl

theorem find?_poll_of_some (hl : m.find? ref = some l) :
    (m.poll ref' t k).1.find? ref = some (if ref' = ref then l.reserve t k else l) := by
  unfold poll
  split
  · next hnone =>
    have hne : ref' ≠ ref := by
      rintro rfl
      rw [hnone] at hl
      cases hl
    rw [if_neg hne]
    exact hl
  · exact find?_update_of_some hl _

theorem update_eq_self (h : ∀ l, m.find? ref = some l → f l = l) : m.update ref f = m := by
  have hsame : m.locations.modify ref f = m.locations := by
    refine Std.ExtTreeMap.ext_getElem? fun ref' => ?_
    have hfind : (m.update ref f).find? ref' = m.find? ref' := by
      rw [find?_update]
      split
      · next he =>
        subst he
        cases hl : m.find? ref with
        | none => rfl
        | some l => rw [Option.map_some, h l hl]
      · rfl
    exact hfind
  rw [update, hsame]

theorem schedules_poll : (m.poll ref t k).1.schedules = m.schedules := by
  unfold poll
  split <;> rfl

/-- Asking in vain leaves everything as it is. -/
theorem poll_of_not_grant (h : (m.poll ref t k).2 ≠ .grant) : (m.poll ref t k).1 = m := by
  unfold poll at h ⊢
  cases hl : m.find? ref with
  | none => rfl
  | some l =>
    rw [hl] at h
    refine update_eq_self fun l' hl' => ?_
    obtain rfl := Option.some.inj (hl.symm.trans hl')
    exact Location.reserve_of_not_grant h

/-- A location that does not grant an access is there, and is not marked diverged. -/
theorem exists_of_not_grant (h : (m.poll ref t k).2 ≠ .grant) :
    ∃ l, m.find? ref = some l ∧ l.isDiverged = false := by
  unfold poll at h
  cases hl : m.find? ref with
  | none => simp [hl] at h
  | some l =>
    rw [hl] at h
    refine ⟨l, rfl, Bool.eq_false_iff.mpr fun hd => h ?_⟩
    exact Location.verdict_of_isDiverged hd t k

/-- A location that is marked diverged grants everything. -/
theorem poll_of_isDiverged (h : m.find? ref = some l) (hd : l.isDiverged = true) :
    (m.poll ref t k).2 = .grant := by
  rw [poll, h]
  exact Location.verdict_of_isDiverged hd t k

/-! ## Looking a location up -/

/-- A look-up leaves the memory as it is, or adds a location for which accesses were
recorded. -/
theorem lookUp_fst (m : LiveMemory) (objects : ObjectIds) (object : AnnouncedObject)
    (field : String) : (m.lookUp objects object field).1 = m ∨
      ∃ ref schedule, ref ∉ m.locations ∧ ref.edition = m.edition ∧
        m.schedules[ref.key]? = some schedule ∧
        (m.lookUp objects object field).1 =
          { m with locations := m.locations.insert ref { schedule } } := by
  unfold lookUp
  split
  · exact .inl rfl
  · dsimp only
    split
    · exact .inl rfl
    · next hnew =>
      split
      · exact .inl rfl
      · next schedule hs => exact .inr ⟨_, schedule, hnew, rfl, hs, rfl⟩

theorem find?_lookUp_of_some (hl : m.find? ref = some l) :
    (m.lookUp objects object field).1.find? ref = some l := by
  rcases lookUp_fst m objects object field with hm | ⟨new, schedule, hnew, -, -, hm⟩
  · rwa [hm]
  · have hne : new ≠ ref := by
      rintro rfl
      rw [find?, Std.ExtTreeMap.getElem?_eq_none hnew] at hl
      cases hl
    rw [hm]
    simpa [find?, Std.ExtTreeMap.getElem?_insert, hne] using hl

theorem schedules_lookUp : (m.lookUp objects object field).1.schedules = m.schedules := by
  rcases lookUp_fst m objects object field with hm | ⟨new, schedule, -, -, -, hm⟩ <;> rw [hm]

/-- A look-up that finds nothing changes nothing. -/
theorem lookUp_fst_of_none (h : (m.lookUp objects object field).2 = none) :
    (m.lookUp objects object field).1 = m := by
  unfold lookUp at h ⊢
  split
  · rfl
  · next id hid =>
    simp only [hid] at h ⊢
    split
    · rfl
    · next hnew =>
      split
      · rfl
      · next schedule hs => simp [hnew, hs] at h

/-- What a look-up finds is the place of the object's field, and it is there afterwards. -/
theorem lookUp_snd (h : (m.lookUp objects object field).2 = some ref) :
    ∃ id, objects.find? object.handle = some id ∧ ref = ⟨m.edition, ⟨id, field⟩⟩ ∧
      ∃ l, (m.lookUp objects object field).1.find? ref = some l := by
  unfold lookUp at h ⊢
  cases hid : objects.find? object.handle with
  | none => simp [hid] at h
  | some id =>
    simp only [hid] at h ⊢
    split at h
    · next hmem =>
      obtain rfl := Option.some.inj h
      rw [if_pos hmem]
      exact ⟨id, rfl, rfl, Option.isSome_iff_exists.mp
        (Std.ExtTreeMap.mem_iff_isSome_getElem?.mp hmem)⟩
    · next hnew =>
      rw [if_neg hnew]
      split at h
      · cases h
      · next schedule hs =>
        obtain rfl := Option.some.inj h
        exact ⟨id, rfl, rfl, by simp [find?]⟩

/-! ## The edition in force -/

/-- Locations of one edition are listed in the order of their keys. -/
theorem pairwise_current (m : LiveMemory) :
    m.current.Pairwise fun a b => compare a.1.key b.1.key = .lt := by
  have hedition : ∀ entry ∈ m.current, entry.1.edition = m.edition := fun entry hentry =>
    beq_iff_eq.mp (List.mem_filter.mp hentry).2
  refine (m.locations.ordered_keys_toList.filter _).imp_of_mem fun {a b} ha hb hlt => ?_
  have hsame : a.1.edition = b.1.edition := (hedition a ha).trans (hedition b hb).symm
  have hlt : (compare a.1.edition b.1.edition).then (compare a.1.key b.1.key) = .lt := hlt
  rwa [hsame, Std.compare_self, Ordering.eq_then] at hlt

/-! ## The locations that are marked diverged -/

/-- Is the location marked diverged? -/
def DivergedAt (m : LiveMemory) (ref : LocationRef) : Prop :=
  ∃ l, m.find? ref = some l ∧ l.isDiverged = true

theorem divergedAt_update_iff (h : ∀ l, (f l).isDiverged = l.isDiverged) :
    (m.update ref f).DivergedAt ref' ↔ m.DivergedAt ref' := by
  unfold DivergedAt
  rw [find?_update]
  split
  · next he =>
    subst he
    cases m.find? ref <;> simp [h]
  · rfl

theorem divergedAt_commit_iff (a : OpenAccess) :
    (m.commit a).DivergedAt ref ↔ m.DivergedAt ref :=
  divergedAt_update_iff fun l => l.isDiverged_commit ..

theorem divergedAt_poll_iff : (m.poll ref t k).1.DivergedAt ref' ↔ m.DivergedAt ref' := by
  unfold poll
  split
  · rfl
  · exact divergedAt_update_iff fun l => l.isDiverged_reserve ..

theorem divergedAt_diverge_iff (h : m.find? ref = some l) :
    (m.diverge ref).DivergedAt ref' ↔ ref' = ref ∨ m.DivergedAt ref' := by
  unfold DivergedAt diverge
  rw [find?_update]
  split
  · next he =>
    subst he
    simp [h, Location.diverge]
  · next he => simp [Ne.symm he]

theorem divergedAt_lookUp_iff :
    (m.lookUp objects object field).1.DivergedAt ref ↔ m.DivergedAt ref := by
  rcases lookUp_fst m objects object field with hm | ⟨new, schedule, hnew, -, -, hm⟩
  · rw [hm]
  · -- the new location is not marked, and was not there before
    rw [hm]
    by_cases he : new = ref
    · subst he
      have hnone : m.find? new = none := Std.ExtTreeMap.getElem?_eq_none hnew
      simp only [DivergedAt, hnone]
      simp [find?]
    · simp [DivergedAt, find?, Std.ExtTreeMap.getElem?_insert, he]

/-! ## What stays -/

/-- All that is marked diverged in `m` is so in `m'`, with its progress. -/
def KeepsDiverged (m m' : LiveMemory) : Prop :=
  ∀ ref l, m.find? ref = some l → l.isDiverged = true →
    ∃ l', m'.find? ref = some l' ∧ Location.Frozen l l'

namespace KeepsDiverged

theorem refl (m : LiveMemory) : KeepsDiverged m m := fun _ l hl hd => ⟨l, hl, .refl hd⟩

theorem trans {m₁ m₂ m₃ : LiveMemory} (h : KeepsDiverged m₁ m₂) (h' : KeepsDiverged m₂ m₃) :
    KeepsDiverged m₁ m₃ := by
  intro ref l hl hd
  obtain ⟨l₂, hl₂, hf⟩ := h ref l hl hd
  obtain ⟨l₃, hl₃, hf'⟩ := h' ref l₂ hl₂ hf.isDiverged
  exact ⟨l₃, hl₃, hf.trans hf'⟩

theorem update (h : ∀ l, l.isDiverged = true → Location.Frozen l (f l)) :
    KeepsDiverged m (m.update ref f) := by
  intro ref' l hl hd
  by_cases he : ref = ref'
  · subst he
    exact ⟨f l, by simp [hl], h l hd⟩
  · exact ⟨l, by rw [find?_update, if_neg he, hl], .refl hd⟩

theorem commit (a : OpenAccess) : KeepsDiverged m (m.commit a) :=
  update fun _ hd => .commit hd ..

theorem poll : KeepsDiverged m (m.poll ref t k).1 := by
  unfold LiveMemory.poll
  split
  · exact .refl m
  · exact update fun _ hd => .reserve hd ..

theorem diverge : KeepsDiverged m (m.diverge ref) := update fun _ _ => .diverge

theorem lookUp : KeepsDiverged m (m.lookUp objects object field).1 := by
  rcases lookUp_fst m objects object field with hm | ⟨new, schedule, hnew, -, -, hm⟩
  · rw [hm]
    exact .refl m
  · rw [hm]
    intro ref l hl hd
    have hne : new ≠ ref := by
      rintro rfl
      exact hnew (Std.ExtTreeMap.mem_iff_isSome_getElem?.mpr (Option.isSome_iff_exists.mpr ⟨l, hl⟩))
    exact ⟨l, by simpa [find?, Std.ExtTreeMap.getElem?_insert, hne] using hl, .refl hd⟩

end KeepsDiverged

/-! ## Editions -/

@[simp] theorem edition_commit (a : OpenAccess) : (m.commit a).edition = m.edition := rfl

@[simp] theorem edition_diverge : (m.diverge ref).edition = m.edition := rfl

@[simp] theorem edition_poll : (m.poll ref t k).1.edition = m.edition := by
  unfold poll
  split <;> rfl

@[simp] theorem edition_lookUp : (m.lookUp objects object field).1.edition = m.edition := by
  rcases lookUp_fst m objects object field with hm | ⟨new, schedule, -, -, -, hm⟩ <;> rw [hm]

/-- No location belongs to an edition that has not begun. -/
def Bounded (m : LiveMemory) : Prop := ∀ ref l, m.find? ref = some l → ref.edition ≤ m.edition

namespace Bounded

theorem update (h : m.Bounded) : (m.update ref f).Bounded := by
  intro ref' l hl
  rw [find?_update] at hl
  split at hl
  · next he =>
    subst he
    obtain ⟨old, hold, -⟩ := Option.map_eq_some_iff.mp hl
    exact h ref old hold
  · exact h ref' l hl

theorem commit (h : m.Bounded) (a : OpenAccess) : (m.commit a).Bounded := h.update

theorem diverge (h : m.Bounded) : (m.diverge ref).Bounded := h.update

theorem poll (h : m.Bounded) : (m.poll ref t k).1.Bounded := by
  unfold LiveMemory.poll
  split
  · exact h
  · exact h.update

theorem lookUp (h : m.Bounded) : (m.lookUp objects object field).1.Bounded := by
  rcases lookUp_fst m objects object field with hm | ⟨new, schedule, -, he, -, hm⟩
  · rwa [hm]
  · rw [hm]
    intro ref l hl
    by_cases hne : new = ref
    · exact Nat.le_of_eq (hne ▸ he)
    · exact h ref l (by simpa [find?, Std.ExtTreeMap.getElem?_insert, hne] using hl)

end Bounded
end LiveMemory
end AccessReplay
