import AccessReplay.Proofs.AccessAccounts
import AccessReplay.Proofs.HarvestContents
import Mathlib.Data.List.Nodup

/-!
# Divergences are counted once

That the recorded order was violated is kept in four places: a location is marked, the
history of the thread is flagged, the divergence is counted, and the access goes ahead as
forced.  An access is forced at a location that is not marked yet and marks it, so the four
agree (`Agreed`).  A location that is marked stays so, with the progress it had, and grants
whatever is asked.
-/
namespace AccessReplay.Replay

variable {s : Replay} {adm fin : Log} {i : Nat} {p p' : Participant} {e' : Engine}
  {ref : HistoryRef} {a : OpenAccess}

/-- Where the forced accesses of a log went ahead, in order. -/
def forcedAt (log : Log) : List LocationRef :=
  (log.filter (·.2.isForced)).map (·.2.location)

@[simp] theorem forcedAt_nil : forcedAt [] = [] := rfl

@[simp] theorem forcedAt_append (log log' : Log) :
    forcedAt (log ++ log') = forcedAt log ++ forcedAt log' := by
  simp [forcedAt]

theorem forcedAt_eq_nil_iff {log : Log} :
    forcedAt log = [] ↔ ∀ x ∈ log, x.2.isForced = false := by
  simp [forcedAt]

theorem admitted_append (calls calls' : List Call) : s.admitted (calls ++ calls') =
    s.admitted calls ++ (s.performAll calls).admitted calls' := by
  induction calls generalizing s with
  | nil => rfl
  | cons call calls ih => simp [admitted, performAll, ih]

/-! ## The four places agree -/

/-- What is kept of divergences agrees with the accesses that were forced. -/
structure Agreed (adm : Log) (s : Replay) : Prop where
  nodup : (forcedAt adm).Nodup
  marked : ∀ ref, ref ∈ forcedAt adm ↔
    ref.edition = s.engine.memory.edition ∧ s.engine.memory.DivergedAt ref
  counted : s.engine.divergences = (forcedAt adm).length
  reported : s.engine.reported.toList.map Divergence.location =
    if s.engine.observer.isSome then (forcedAt adm).map LocationRef.key else []
  flagged : ∀ (ref : HistoryRef) (h : History), ref.edition = s.engine.memory.edition →
    s.engine.book[ref]? = some h →
    (h.diverged = true ↔ ∃ x ∈ adm, s.FilesUnder ref x.1 ∧ x.2.isForced = true)
  handedOut : ∀ x ∈ adm, x.1 < s.contexts.length

namespace Agreed

theorem handsOut (hw : s.WellFormed) (h : Agreed adm s) (hs : HandsOut s.engine e' p) :
    Agreed adm ⟨e', s.contexts ++ [p]⟩ where
  nodup := h.nodup
  marked := by
    rw [hs.memory]
    exact h.marked
  counted := hs.divergences.trans h.counted
  reported := by
    rw [hs.reported, hs.observer]
    exact h.reported
  flagged ref hist he hb := by
    have hfiles : (∃ x ∈ adm, FilesUnder ⟨e', s.contexts ++ [p]⟩ ref x.1 ∧ x.2.isForced = true) ↔
        ∃ x ∈ adm, s.FilesUnder ref x.1 ∧ x.2.isForced = true := by
      refine exists_congr fun x => and_congr_right fun hx => ?_
      rw [filesUnder_append (h.handedOut x hx)]
    rw [hfiles]
    rw [hs.memory] at he
    rcases hs.book ref with hsame | ⟨hnone, -, new, hnew, hblank, -⟩
    · exact h.flagged ref hist he (hsame.symm.trans hb)
    · obtain rfl := Option.some.inj (hnew.symm.trans hb)
      rw [hblank.diverged]
      refine iff_of_false Bool.false_ne_true ?_
      rintro ⟨x, -, hx, -⟩
      exact hw.not_filesUnder hnone hx
  handedOut x hx := by
    have hlt := h.handedOut x hx
    simp only [List.length_append]
    omega

theorem sameRecords (h : Agreed adm s) (hs : SameRecords s.engine e') :
    Agreed adm { s with engine := e' } where
  nodup := h.nodup
  marked := by
    rw [hs.memory]
    exact h.marked
  counted := hs.divergences.trans h.counted
  reported := by
    rw [hs.reported, hs.observer]
    exact h.reported
  flagged ref hist := by
    rw [hs.memory, hs.book]
    exact h.flagged ref hist
  handedOut := h.handedOut

/-- Nothing of a divergence happens in a turn that marks and flags nothing, and forces no
access. -/
theorem undisturbed {log : Log} (h : Agreed adm s) (hi : s.contexts[i]? = some p)
    (hlog : ∀ x ∈ log, x.1 = i ∧ x.2.isForced = false)
    (hs : e'.setting = s.engine.setting) (he : e'.memory.edition = s.engine.memory.edition)
    (hm : ∀ ref, e'.memory.DivergedAt ref ↔ s.engine.memory.DivergedAt ref)
    (hb : ∀ ref : HistoryRef,
      e'.book[ref]?.map History.diverged = s.engine.book[ref]?.map History.diverged)
    (hr : e'.reported = s.engine.reported) (hd : e'.divergences = s.engine.divergences)
    (hp : ∀ ref, p'.history = .filed ref ↔ p.history = .filed ref) :
    Agreed (adm ++ log) ⟨e', s.contexts.set i p'⟩ := by
  have hnone : forcedAt log = [] := forcedAt_eq_nil_iff.mpr fun x hx => (hlog x hx).2
  have hobserver : e'.observer = s.engine.observer := congrArg Engine.Setting.observer hs
  refine ⟨?_, fun ref => ?_, ?_, ?_, fun ref hist heq hbook => ?_, fun x hx => ?_⟩
  · rw [forcedAt_append, hnone, List.append_nil]
    exact h.nodup
  · rw [forcedAt_append, hnone, List.append_nil, he, hm]
    exact h.marked ref
  · rw [forcedAt_append, hnone, List.append_nil, hd]
    exact h.counted
  · rw [forcedAt_append, hnone, List.append_nil, hr, hobserver]
    exact h.reported
  · have hkeep := hb ref
    rw [hbook] at hkeep
    obtain ⟨old, hold, hdiv⟩ := Option.map_eq_some_iff.mp hkeep.symm
    rw [← hdiv, h.flagged ref old (heq.trans he) hold]
    refine exists_congr fun x => ?_
    rw [filesUnder_set hi (hp ref), List.mem_append]
    constructor
    · exact fun ⟨hx, hf⟩ => ⟨.inl hx, hf⟩
    · rintro ⟨hx | hx, hf⟩
      · exact ⟨hx, hf⟩
      · rw [(hlog x hx).2] at hf
        exact absurd hf.2 Bool.false_ne_true
  · rw [List.length_set]
    rcases List.mem_append.mp hx with hx | hx
    · exact h.handedOut x hx
    · rw [(hlog x hx).1]
      exact (List.getElem?_eq_some_iff.mp hi).1

theorem concluded (h : Agreed adm s) (hi : s.contexts[i]? = some p)
    (hc : Engine.Concluded s.engine { p with pending := none } a e' p') :
    Agreed adm ⟨e', s.contexts.set i p'⟩ := by
  have hmemory : ∀ ref, e'.memory.DivergedAt ref ↔ s.engine.memory.DivergedAt ref := by
    intro ref
    rw [hc.memory, LiveMemory.divergedAt_commit_iff]
  have hbook : ∀ ref : HistoryRef,
      e'.book[ref]?.map History.diverged = s.engine.book[ref]?.map History.diverged := by
    intro ref
    rw [hc.book]
    exact HistoryPlace.map_change fun _ => rfl
  have hturn : Agreed (adm ++ []) ⟨e', s.contexts.set i p'⟩ :=
    h.undisturbed hi (by simp) hc.setting (by rw [hc.memory]; rfl) hmemory hbook hc.reported
      hc.divergences fun _ => hc.filed_iff
  rwa [List.append_nil] at hturn

/-- An access is forced at a location that was not marked, and marks it. -/
theorem forced {d : Divergence} (h : Agreed adm s) (hi : s.contexts[i]? = some p)
    (ha : a.isForced = true) (hedition : a.location.edition = s.engine.memory.edition)
    (hfresh : ¬s.engine.memory.DivergedAt a.location) (hs : e'.setting = s.engine.setting)
    (he : e'.memory.edition = s.engine.memory.edition)
    (hm : ∀ ref, e'.memory.DivergedAt ref ↔ ref = a.location ∨ s.engine.memory.DivergedAt ref)
    (hb : e'.book = (p.history.change History.flag s.engine.book).1)
    (hr : e'.reported = s.engine.told d) (hd : d.location = a.location.key)
    (hcount : e'.divergences = s.engine.divergences + 1)
    (hp : ∀ ref, p'.history = .filed ref ↔ p.history = .filed ref) :
    Agreed (adm ++ [(i, a)]) ⟨e', s.contexts.set i p'⟩ := by
  have hnew : forcedAt [(i, a)] = [a.location] := by simp [forcedAt, ha]
  have hobserver : e'.observer = s.engine.observer := congrArg Engine.Setting.observer hs
  refine ⟨?_, fun ref => ?_, ?_, ?_, fun ref hist heq hbook => ?_, fun x hx => ?_⟩
  · -- had an access been forced here before, the location would be marked
    rw [forcedAt_append, hnew]
    refine List.nodup_append.mpr ⟨h.nodup, by simp, fun ref hmem ref' hmem' => ?_⟩
    rw [List.mem_singleton.mp hmem']
    rintro rfl
    exact hfresh ((h.marked _).mp hmem).2
  · rw [forcedAt_append, hnew, List.mem_append, List.mem_singleton, h.marked, he, hm]
    constructor
    · rintro (⟨hed, hmark⟩ | rfl)
      · exact ⟨hed, .inr hmark⟩
      · exact ⟨hedition, .inl rfl⟩
    · rintro ⟨hed, rfl | hmark⟩
      · exact .inr rfl
      · exact .inl ⟨hed, hmark⟩
  · rw [hcount, h.counted, forcedAt_append, hnew, List.length_append, List.length_singleton]
  · have hold := h.reported
    rw [forcedAt_append, hnew, hobserver, hr, Engine.told]
    split
    · next hsome => simp [hsome] at hold ⊢; exact ⟨hold, hd⟩
    · next hsome => simpa [hsome] using hold
  · have hfiles : ∀ j, FilesUnder ⟨e', s.contexts.set i p'⟩ ref j ↔ s.FilesUnder ref j :=
      filesUnder_set hi (hp ref)
    have hadds : s.FilesUnder ref i ↔ p.history = .filed ref := by simp [FilesUnder, hi]
    rw [hb, HistoryPlace.getElem?_change] at hbook
    split at hbook
    · -- the history of this thread, which is flagged
      next hpl =>
      obtain ⟨old, -, rfl⟩ := Option.map_eq_some_iff.mp hbook
      refine iff_of_true rfl ⟨(i, a), by simp, ?_, ha⟩
      exact (hfiles i).mpr (hadds.mpr hpl)
    · next hpl =>
      rw [h.flagged ref hist (heq.trans he) hbook]
      refine exists_congr fun x => ?_
      rw [hfiles, List.mem_append, List.mem_singleton]
      constructor
      · exact fun ⟨hx, hf⟩ => ⟨.inl hx, hf⟩
      · rintro ⟨hx | rfl, hf⟩
        · exact ⟨hx, hf⟩
        · exact absurd (hadds.mp hf.1) hpl
  · rw [List.length_set]
    rcases List.mem_append.mp hx with hx | hx
    · exact h.handedOut x hx
    · rw [List.mem_singleton.mp hx]
      exact (List.getElem?_eq_some_iff.mp hi).1

theorem decided {r : Request} (h : Agreed adm s) (hi : s.contexts[i]? = some p)
    (hp : p.pending = none) (hd : Engine.Decided s.engine p r e' p') :
    Agreed (adm ++ p'.pending.toList.map (i, ·)) ⟨e', s.contexts.set i p'⟩ := by
  have hplace : ∀ ref, p'.history = .filed ref ↔ p.history = .filed ref := fun _ => hd.filed_iff
  have hedition := hd.edition
  cases hd with
  | unchecked hs hm hb hr hcount =>
    rw [hp]
    exact h.undisturbed hi (by simp) hs hedition (fun _ => by rw [hm]) (fun _ => by rw [hb]) hr
      hcount hplace
  | granted hf hv hs hm hb hr hcount =>
    refine h.undisturbed hi ?_ hs hedition (fun ref => ?_) (fun _ => by rw [hb]) hr hcount hplace
    · intro x hx
      obtain rfl := List.mem_singleton.mp hx
      exact ⟨rfl, rfl⟩
    · rw [hm, LiveMemory.divergedAt_poll_iff, LiveMemory.divergedAt_lookUp_iff]
  | forced hf hv hs hm hb hr hcount =>
    obtain ⟨id, hid, hloc, -⟩ := LiveMemory.lookUp_snd hf
    obtain ⟨l, hl, hunmarked⟩ := LiveMemory.exists_of_not_grant hv
    refine h.forced hi rfl (by rw [hloc]) ?_ hs hedition (fun ref => ?_) hb hr rfl hcount hplace
    · rw [← LiveMemory.divergedAt_lookUp_iff]
      rintro ⟨l', hl', hmarked⟩
      obtain rfl := Option.some.inj (hl.symm.trans hl')
      rw [hunmarked] at hmarked
      cases hmarked
    · rw [hm, LiveMemory.divergedAt_diverge_iff hl, LiveMemory.divergedAt_lookUp_iff]

theorem kept : Kept fun adm _ s => Agreed adm s where
  sameRecords _ h hs := h.sameRecords hs
  handsOut hw h hs := h.handsOut hw hs
  concluded _ h hi _ hc := h.concluded hi hc
  decided _ h hi hp hd := h.decided hi hp hd

end Agreed

/-! ## Marked locations -/

/-- A marked location stays marked, with its progress, whatever is called. -/
theorem kept_keepsDiverged (m : LiveMemory) :
    Kept fun _ _ s => LiveMemory.KeepsDiverged m s.engine.memory where
  sameRecords _ h hs := by
    rw [hs.memory]
    exact h
  handsOut _ h hs := by
    rw [hs.memory]
    exact h
  concluded _ h _ _ hc := by
    rw [hc.memory]
    exact h.trans (.commit _)
  decided _ h _ _ hd := by
    cases hd with
    | unchecked hs hm => rwa [hm]
    | granted hf hv hs hm =>
      rw [hm]
      exact (h.trans .lookUp).trans .poll
    | forced hf hv hs hm =>
      rw [hm]
      exact (h.trans .lookUp).trans .diverge

/-- Calls change neither the observer nor the edition. -/
theorem kept_observer (observer : Option Observer) (edition : Nat) :
    Kept fun _ _ s => s.engine.observer = observer ∧ s.engine.memory.edition = edition where
  sameRecords _ h hs := ⟨hs.observer.trans h.1, by rw [hs.memory, h.2]⟩
  handsOut _ h hs := ⟨hs.observer.trans h.1, by rw [hs.memory, h.2]⟩
  concluded _ h _ _ hc :=
    ⟨(congrArg Engine.Setting.observer hc.setting).trans h.1, by rw [hc.memory]; exact h.2⟩
  decided _ h _ _ hd :=
    ⟨(congrArg Engine.Setting.observer hd.setting).trans h.1, hd.edition.trans h.2⟩

/-! ## What the harvest says -/

namespace Agreed

/-- The marked locations are those at which an access was forced. -/
theorem perm_divergedKeys (h : Agreed adm s) :
    s.engine.divergedKeys.Perm ((forcedAt adm).map LocationRef.key) := by
  refine (List.perm_ext_iff_of_nodup s.engine.nodup_divergedKeys ?_).mpr fun key => ?_
  · refine List.pairwise_map.mpr (h.nodup.imp_of_mem fun {ref ref'} hm hm' hne hkey => hne ?_)
    have hsame : ref.edition = ref'.edition :=
      ((h.marked ref).mp hm).1.trans ((h.marked ref').mp hm').1.symm
    rcases ref with ⟨edition, key⟩
    rcases ref' with ⟨edition', key'⟩
    obtain rfl : edition = edition' := hsame
    obtain rfl : key = key' := hkey
    rfl
  · rw [Engine.mem_divergedKeys_iff, List.mem_map]
    constructor
    · exact fun hmark => ⟨_, (h.marked _).mpr ⟨rfl, hmark⟩, rfl⟩
    · rintro ⟨⟨edition, key⟩, hm, rfl⟩
      obtain ⟨he, hmark⟩ := (h.marked _).mp hm
      obtain rfl : edition = s.engine.memory.edition := he
      exact hmark

theorem divergences_eq (h : Agreed adm s) :
    s.engine.divergences = s.engine.divergedKeys.length := by
  rw [h.counted, h.perm_divergedKeys.length_eq, List.length_map]

theorem diverged_harvest_iff (h : Agreed adm s) :
    s.engine.harvest.diverged = true ↔ 0 < s.engine.divergences := by
  have hkeys : s.engine.divergedKeys ≠ [] ↔ 0 < s.engine.divergences := by
    rw [h.divergences_eq, List.length_pos_iff]
  rw [Engine.diverged_harvest_iff, hkeys]
  refine or_iff_left_of_imp ?_
  rintro ⟨hist, hmem, hflag⟩
  obtain ⟨ref, he, hb⟩ := Engine.mem_histories_iff.mp hmem
  obtain ⟨x, hx, -, hforced⟩ := (h.flagged ref hist he hb).mp hflag
  have hat : x.2.location ∈ forcedAt adm :=
    List.mem_map.mpr ⟨x, List.mem_filter.mpr ⟨hx, hforced⟩, rfl⟩
  rw [h.counted]
  exact List.length_pos_of_mem hat

end Agreed

/-! ## Whole runs -/

variable {past : Archive} {recording : Recording} {checksum : UInt32} {root : AnnouncedThread}
  {budget : Budget} {observer : Option Observer}

theorem agreed_opening (hpast : past.Bounded) :
    Agreed [] (opening past recording checksum root budget observer) := by
  obtain ⟨counterparts, journal, recorded, hstart⟩ :=
    Engine.start_eq past recording checksum root budget observer
  refine ⟨List.nodup_nil, fun ref => ?_, ?_, ?_, fun ref h he hb => ?_, ?_⟩
  · refine iff_of_false List.not_mem_nil ?_
    rintro ⟨he, l, hl, -⟩
    rw [opening] at he hl
    rw [edition_start] at he
    have hold : past.memory.find? ref = some l := by rwa [hstart] at hl
    exact absurd (hpast.memory ref l hold) (by omega)
  · rw [opening, hstart]
    rfl
  · rw [opening, hstart]
    simp
  · rw [(blank_start hpast (he.trans edition_start) hb).1.diverged]
    simp
  · exact fun x hx => absurd hx List.not_mem_nil

/-- **Divergence reports, flags and output agree.**  Whatever is called: the number of
divergences is the number of marked locations, and of the accesses that were forced; the
observer is told once of each marked location; the history of a thread is flagged just if one
of its accesses was forced; and the harvest says so just if the number is not zero.  A
location that is marked keeps its progress, grants everything, and is never reported again,
whatever is called from then on. -/
theorem divergences_agree (hpast : past.Bounded) (calls : List Call) :
    let s := opening past recording checksum root budget observer
    let t := s.performAll calls
    t.engine.divergences = t.engine.divergedKeys.length ∧ t.engine.divergedKeys.Nodup ∧
    t.engine.divergences = (s.admitted calls).countP (·.2.isForced) ∧
    (observer.isSome → (t.engine.reported.toList.map Divergence.location).Perm
      t.engine.divergedKeys) ∧
    (∀ (ref : HistoryRef) (h : History), ref.edition = t.engine.memory.edition →
      t.engine.book[ref]? = some h → (h.harvest.diverged = true ↔
        ∃ x ∈ s.admitted calls, t.FilesUnder ref x.1 ∧ x.2.isForced = true)) ∧
    (t.engine.harvest.diverged = true ↔ 0 < t.engine.divergences) ∧
    ∀ (ref : LocationRef) (l : Location), ref.edition = t.engine.memory.edition →
      t.engine.memory.find? ref = some l → l.isDiverged = true → ∀ calls',
      let t' := t.performAll calls'
      (∃ l', t'.engine.memory.find? ref = some l' ∧ Location.Frozen l l') ∧
      (∀ thread kind, (t'.engine.memory.poll ref thread kind).2 = .grant) ∧
      ref ∉ forcedAt (t.admitted calls') ∧
      (observer.isSome →
        (t'.engine.reported.toList.map Divergence.location).count ref.key = 1) := by
  intro s t
  have hw : s.WellFormed := wellFormed_opening hpast
  have hagreed : ∀ calls, Agreed (s.admitted calls) (s.performAll calls) := fun calls =>
    (Agreed.kept.performAll hw (agreed_opening hpast) calls).2
  have hkeeps : ∀ calls, (s.performAll calls).engine.observer = observer ∧
      (s.performAll calls).engine.memory.edition = past.memory.edition + 1 := fun calls =>
    ((kept_observer _ _).performAll hw ⟨observer_start, edition_start⟩ calls).2
  have hreported : ∀ calls, observer.isSome →
      ((s.performAll calls).engine.reported.toList.map Divergence.location).Perm
        (s.performAll calls).engine.divergedKeys := by
    intro calls hsome
    rw [(hagreed calls).reported, (hkeeps calls).1, if_pos hsome]
    exact (hagreed calls).perm_divergedKeys.symm
  have h := hagreed calls
  refine ⟨h.divergences_eq, t.engine.nodup_divergedKeys, ?_, hreported calls, h.flagged,
    h.diverged_harvest_iff, fun ref l he hl hd calls' => ?_⟩
  · rw [h.counted, forcedAt, List.length_map, List.countP_eq_length_filter]
  · have ht : t.WellFormed := (Agreed.kept.performAll hw (agreed_opening hpast) calls).1
    obtain ⟨l', hl', hfrozen⟩ :=
      ((kept_keepsDiverged t.engine.memory).performAll ht (.refl _) calls').2 ref l hl hd
    have hmarked : ref ∈ forcedAt (s.admitted calls) := (h.marked ref).mpr ⟨he, l, hl, hd⟩
    refine ⟨⟨l', hl', hfrozen⟩, fun thread kind => ?_, fun hagain => ?_, fun hsome => ?_⟩
    · exact LiveMemory.poll_of_isDiverged hl' hfrozen.isDiverged
    · -- the accesses forced in the whole run are forced at different locations
      have hnodup := (hagreed (calls ++ calls')).nodup
      rw [admitted_append, forcedAt_append] at hnodup
      exact (List.nodup_append.mp hnodup).2.2 ref hmarked ref hagain rfl
    · have hperm := hreported (calls ++ calls') hsome
      rw [performAll_append] at hperm
      rw [hperm.count_eq]
      refine List.count_eq_one_of_mem (Engine.nodup_divergedKeys _) ?_
      rw [Engine.mem_divergedKeys_iff]
      have hedition := (hkeeps (calls ++ calls')).2
      rw [performAll_append] at hedition
      have hsame : ref = ⟨(t.performAll calls').engine.memory.edition, ref.key⟩ := by
        rw [hedition, ← (hkeeps calls).2, ← he]
      exact hsame ▸ ⟨l', hl', hfrozen.isDiverged⟩

theorem unrecorded_read_diverges : ({} : Archive).Bounded ∧
    (oneWriteReplay.performAll writeThenRead).engine.harvest.diverged = true ∧
    ((oneWriteReplay.performAll writeThenRead).engine.reported.toList.map
      Divergence.location).Perm [⟨⟨0⟩, "value"⟩] ∧
    ∃ l, (oneWriteReplay.performAll writeThenRead).engine.memory.find? ⟨1, ⟨⟨0⟩, "value"⟩⟩ =
        some l ∧ l.isDiverged = true ∧
      ∀ calls' thread kind, (((oneWriteReplay.performAll writeThenRead).performAll
        calls').engine.memory.poll ⟨1, ⟨⟨0⟩, "value"⟩⟩ thread kind).2 = .grant := by
  obtain ⟨-, -, -, hreported, -, hharvest, hmarked⟩ := @divergences_agree {} oneWrite 0
    ⟨7, "main"⟩ { maxRetries := 1 } (some fun _ => true) Archive.bounded_empty writeThenRead
  have hthere : ((oneWriteReplay.performAll writeThenRead).engine.memory.find?
      ⟨1, ⟨⟨0⟩, "value"⟩⟩).map Location.isDiverged = some true := by
    decide +kernel
  obtain ⟨l, hl, hd⟩ := Option.map_eq_some_iff.mp hthere
  refine ⟨Archive.bounded_empty, hharvest.mpr (by decide +kernel), ?_, l, hl, hd,
    fun calls' thread kind => ?_⟩
  · exact (hreported rfl).trans (.of_eq (by decide +kernel))
  · exact (hmarked _ l (by decide +kernel) hl hd calls').2.1 thread kind

end AccessReplay.Replay
