import AccessReplay.Proofs.HarvestContents
import AccessReplay.Proofs.LiveThreads
import AccessReplay.Proofs.Numerals
import AccessReplay.Proofs.Traffic
import Mathlib.Data.List.Nodup

/-!
# What a harvest lists

A thread is registered when it is announced as started, and the main thread when the replay begins;
a context that the replay does not know registers nothing.  The registrations of a run are read off
its calls (`registered`), and the histories of the replay are those of the registered runtime ids,
each as it was registered first (`Records`).  So the harvest has one of each, the main thread's
first and the others by runtime id; and it has the diverged locations in key order, named by texts
that tell locations apart (`harvest_complete`).
-/
namespace AccessReplay

/-! ## Locations are told apart by their texts -/

namespace LocationKey

/-- Objects come before others by their number, and the fields of one object by their name. -/
def Before (k k' : LocationKey) : Prop :=
  k.object.number < k'.object.number ∨ k.object = k'.object ∧ k.field < k'.field

theorem compare_eq_lt_iff {k k' : LocationKey} : compare k k' = .lt ↔ k.Before k' := by
  have hfield : compare k.field k'.field = .lt ↔ k.field < k'.field := compareOfLessAndEq_eq_lt
  have hobject : k.object.number = k'.object.number ↔ k.object = k'.object := by
    rcases k with ⟨⟨number⟩, field⟩
    rcases k' with ⟨⟨number'⟩, field'⟩
    simp
  show (compare k.object.number k'.object.number).then (compare k.field k'.field) = .lt ↔ _
  rw [Ordering.then_eq_lt, Std.compare_eq_lt, Std.compare_eq_iff_eq, hfield, hobject, Before]

theorem toList_text (k : LocationKey) : k.text.toList =
    "obj#".toList ++ (Nat.toDigits 10 k.object.number.toNat ++ '.' :: k.field.toList) := by
  simp only [text, ObjectId.text, toString, String.toList_append, List.append_assoc]
  rw [← Text.toList_toString]
  rfl

/-- **A text names one location.**  The number ends with the first dot, whatever the field is. -/
theorem text_injective {k k' : LocationKey} (h : k.text = k'.text) : k = k' := by
  have hdot : ∀ n : Nat, '.' ∉ Nat.toDigits 10 n := by
    intro n hmem
    have hdigit := Nat.isDigit_of_mem_toDigits (by decide) (Nat.le_refl 10) hmem
    revert hdigit
    decide
  have hlist := congrArg String.toList h
  rw [toList_text, toList_text] at hlist
  have hrest := List.append_cancel_left hlist
  obtain ⟨htake, hdrop⟩ := Text.split_at_first (hdot k.object.number.toNat) k.field.toList
  obtain ⟨htake', hdrop'⟩ := Text.split_at_first (hdot k'.object.number.toNat) k'.field.toList
  rw [hrest] at htake hdrop
  have hdigits := htake.symm.trans htake'
  have hfield : k.field = k'.field :=
    String.toList_inj.mp (List.cons.inj (hdrop.symm.trans hdrop')).2
  have hread := Text.readDigits_toDigits k.object.number.toNat_lt
  rw [hdigits, Text.readDigits_toDigits k'.object.number.toNat_lt] at hread
  have hnumber : k.object.number = k'.object.number :=
    UInt64.toNat_inj.mp (Except.ok.inj hread).symm
  rcases k with ⟨⟨number⟩, field⟩
  rcases k' with ⟨⟨number'⟩, field'⟩
  obtain rfl : number = number' := hnumber
  obtain rfl : field = field' := hfield
  rfl

end LocationKey

/-! ## Registrations -/

/-- What is registered of a thread: its runtime id and name, the recorded thread that its context
was given, and whether it is the main thread. -/
structure Registration where
  thread : AnnouncedThread
  recorded : Option RuntimeId
  isMain : Bool
deriving DecidableEq, Repr

/-- The registration that a harvested history shows. -/
def HarvestedThread.registration (t : HarvestedThread) : Registration :=
  ⟨t.thread, t.recorded, t.isMain⟩

/-- The registration that a history was opened with. -/
def History.registration (h : History) : Registration := h.harvest.registration

namespace Replay

/-- What a call registers: the thread that it starts. -/
def registeredBy (s : Replay) : Call → List Registration
  | .threadStarted i child =>
    match s.contexts[i]? with
    | none => []
    | some parent => [⟨child, (s.engine.threadStarted parent.live.raw child).2.recorded, false⟩]
  | _ => []

/-- What calls register, in order. -/
def registered (s : Replay) : List Call → List Registration
  | [] => []
  | call :: calls => s.registeredBy call ++ (s.perform call).registered calls

/-- What a replay registers when it begins. -/
def rootRegistration (s : Replay) (root : AnnouncedThread) : Registration :=
  ⟨root, s.engine.rootParticipant.recorded, true⟩

/-- The first registration of a runtime id. -/
def firstOf (regs : List Registration) (raw : RuntimeId) : Option Registration :=
  regs.find? (·.thread.raw == raw)

variable {s : Replay} {regs : List Registration} {call : Call} {calls : List Call}
  {raw : RuntimeId} {root : AnnouncedThread}

theorem registered_concat : s.registered (calls ++ [call]) =
    s.registered calls ++ (s.performAll calls).registeredBy call := by
  induction calls generalizing s with
  | nil => simp [registered, performAll]
  | cons c calls ih => simp [registered, performAll, ih]

theorem firstOf_append_singleton (reg : Registration) : firstOf (regs ++ [reg]) raw =
    if reg.thread.raw = raw then some ((firstOf regs raw).getD reg) else firstOf regs raw := by
  unfold firstOf
  rw [List.find?_append]
  split
  · next hraw => cases regs.find? (·.thread.raw == raw) <;> simp [hraw]
  · next hraw => simp [hraw]

/-- Only the main thread is registered as the main one. -/
theorem isMain_of_mem_registered {reg : Registration} (h : reg ∈ s.registered calls) :
    reg.isMain = false := by
  induction calls generalizing s with
  | nil => cases h
  | cons call calls ih =>
    rcases List.mem_append.mp h with hmem | hmem
    · unfold registeredBy at hmem
      split at hmem
      · split at hmem
        · cases hmem
        · rw [List.mem_singleton.mp hmem]
      · cases hmem
    · exact ih hmem

/-! ## Histories are opened as threads are registered -/

/-- The histories of the replay are those of the registered runtime ids, each as it was registered
first. -/
def Records (regs : List Registration) (s : Replay) : Prop :=
  ∀ raw, s.engine.book[s.engine.historyRef raw]?.map History.registration = firstOf regs raw

/-- No hook touches what a history was opened with. -/
theorem registration_call (e : Engine) (p : Participant) (hook : Hook) :
    (e.call p hook).1.memory.edition = e.memory.edition ∧ ∀ ref : HistoryRef,
      (e.call p hook).1.book[ref]?.map History.registration =
        e.book[ref]?.map History.registration := by
  refine Engine.complete_keeps (e := e) (c := ⟨p, .entry hook⟩)
    (P := fun e' _ => e'.memory.edition = e.memory.edition ∧ ∀ ref : HistoryRef,
      e'.book[ref]?.map History.registration = e.book[ref]?.map History.registration)
    (fun e₁ c₁ _ ⟨hedition, hbook⟩ => ?_) ⟨rfl, fun _ => rfl⟩
  have heffect := Engine.effect_step e₁ c₁
  refine ⟨by rw [heffect.memory, Traffic.edition_memoryNext, hedition], fun ref => ?_⟩
  have hfiles : (e₁.step c₁).1.book = (e₁.filesNext c₁.who c₁.stage).1 :=
    congrArg Prod.fst heffect.files
  rw [hfiles, ← hbook ref]
  cases c₁.stage with
  | filing a next => exact HistoryPlace.map_change fun _ => rfl
  | flagging q reason => exact HistoryPlace.map_change fun _ => rfl
  | _ => rfl

namespace Records

/-- What leaves the edition and the openings of the histories alone keeps the records. -/
theorem same {s' : Replay} (h : Records regs s)
    (hedition : s'.engine.memory.edition = s.engine.memory.edition)
    (hbook : ∀ ref : HistoryRef, s'.engine.book[ref]?.map History.registration =
      s.engine.book[ref]?.map History.registration) : Records regs s' := by
  intro raw
  rw [Engine.historyRef, hedition, hbook]
  exact h raw

/-- **Every call registers what it is to register.** -/
theorem perform (h : Records regs s) (call : Call) :
    Records (regs ++ s.registeredBy call) (s.perform call) := by
  cases call with
  | objectCreated object =>
    obtain ⟨objects, journal, heq⟩ := s.engine.objectCreated_eq object
    show Records (regs ++ []) { s with engine := s.engine.objectCreated object }
    rw [List.append_nil, heq]
    exact h.same rfl fun _ => rfl
  | rootContext | detached thread | stopChecking =>
    show Records (regs ++ []) _
    rw [List.append_nil]
    exact h.same rfl fun _ => rfl
  | hook i hook =>
    show Records (regs ++ []) _
    rw [List.append_nil]
    cases hi : s.contexts[i]? with
    | none => simpa [Replay.perform, hi] using h
    | some p =>
      rw [perform_hook hi]
      exact h.same (registration_call s.engine p hook).1 (registration_call s.engine p hook).2
  | threadStarted i child =>
    cases hi : s.contexts[i]? with
    | none => simpa [registeredBy, Replay.perform, hi] using h
    | some parent =>
      obtain ⟨counterparts, journal, recorded, heq⟩ :=
        s.engine.threadStarted_eq parent.live.raw child
      simp only [registeredBy, Replay.perform, hi, heq]
      intro raw
      rw [firstOf_append_singleton, ← h raw]
      show (s.engine.book.opened (s.engine.historyRef child.raw) _)[s.engine.historyRef raw]?.map
        History.registration = _
      rw [HistoryBook.getElem?_opened]
      by_cases hraw : child.raw = raw
      · -- a runtime id that is known keeps the history it has
        subst hraw
        rw [if_pos rfl, if_pos rfl]
        cases s.engine.book[s.engine.historyRef child.raw]? <;> rfl
      · rw [if_neg (fun hsame => hraw (congrArg HistoryRef.thread hsame)), if_neg hraw]

theorem performAll (h : Records regs s) (calls : List Call) :
    Records (regs ++ s.registered calls) (s.performAll calls) := by
  induction calls using List.reverseRecOn with
  | nil =>
    rw [registered, List.append_nil]
    exact h
  | append_singleton calls call ih =>
    rw [registered_concat, performAll_concat, ← List.append_assoc]
    exact ih.perform call

end Records

/-! ## The beginning -/

variable {past : Archive} {recording : Recording} {checksum : UInt32} {budget : Budget}
  {observer : Option Observer}

/-- A replay begins with the history of the main thread. -/
theorem records_opening (hpast : past.Bounded) :
    let s := opening past recording checksum root budget observer
    Records [s.rootRegistration root] s := by
  intro s raw
  have hnew : past.book[(⟨past.memory.edition + 1, raw⟩ : HistoryRef)]? = none := by
    cases hold : past.book[(⟨past.memory.edition + 1, raw⟩ : HistoryRef)]? with
    | none => rfl
    | some old => exact absurd (hpast.book _ old hold) (by simp)
  have hrecorded : ((SpawnTree.ofRoot root.raw).matchRecorded recording
      (SpawnTree.ofRoot root.raw).rootId).2 = s.engine.rootParticipant.recorded := by
    obtain ⟨counterparts, journal, recorded, hstart⟩ :=
      Engine.start_eq past recording checksum root budget observer
    have hlive : s.engine.rootParticipant.live = (SpawnTree.ofRoot root.raw).rootId := by
      show s.engine.threads.rootId = _
      rw [show s.engine = _ from hstart]
      rfl
    rw [SpawnTree.matchRecorded_snd, (embedded_opening recording).placed_root.recorded, hlive]
  have hedition : s.engine.historyRef raw = ⟨past.memory.edition + 1, raw⟩ :=
    congrArg (HistoryRef.mk · raw) edition_start
  have hbook : s.engine.book = past.book.opened ⟨past.memory.edition + 1, root.raw⟩
      { thread := root
        recorded := ((SpawnTree.ofRoot root.raw).matchRecorded recording
          (SpawnTree.ofRoot root.raw).rootId).2
        isMain := true } := rfl
  rw [hedition, hbook, hrecorded, HistoryBook.getElem?_opened]
  by_cases hraw : root.raw = raw
  · subst hraw
    rw [if_pos rfl, hnew]
    simp [firstOf, rootRegistration, History.registration, History.harvest,
      HarvestedThread.registration]
  · rw [if_neg fun hsame => hraw (congrArg HistoryRef.thread hsame), hnew]
    simp [firstOf, rootRegistration, hraw]

/-! ## The order of the harvest -/

/-- The histories of one edition are listed by runtime id. -/
theorem pairwise_ofEdition (hw : s.WellFormed) :
    (s.engine.book.ofEdition s.engine.memory.edition).Pairwise
      fun h h' => h.thread.raw < h'.thread.raw := by
  refine List.pairwise_map.mpr
    ((s.engine.book.ordered_keys_toList.filter _).imp_of_mem fun {a b} ha hb hlt => ?_)
  obtain ⟨ha, hea⟩ := List.mem_filter.mp ha
  obtain ⟨hb, heb⟩ := List.mem_filter.mp hb
  have hea := beq_iff_eq.mp hea
  have heb := beq_iff_eq.mp heb
  rw [hw.raw_eq a.1 a.2 (Std.ExtTreeMap.mem_toList_iff_getElem?_eq_some.mp ha) hea,
    hw.raw_eq b.1 b.2 (Std.ExtTreeMap.mem_toList_iff_getElem?_eq_some.mp hb) heb]
  have hlt : (compare a.1.edition b.1.edition).then (compare a.1.thread b.1.thread) = .lt := hlt
  rw [hea, heb, Std.compare_self, Ordering.eq_then] at hlt
  exact Std.compare_eq_lt.mp hlt

/-- A list that is in strict order and has one element has no other. -/
theorem eq_singleton_of_pairwise {l : List History} {main : History}
    (hl : l.Pairwise fun h h' => h.thread.raw < h'.thread.raw) (hmem : main ∈ l)
    (hall : ∀ h ∈ l, h.thread.raw = main.thread.raw) : l = [main] := by
  cases hl with
  | nil => cases hmem
  | @cons h l hlt hrest =>
    cases l with
    | nil => rw [List.mem_singleton.mp hmem]
    | cons h' l =>
      have hless := hlt h' List.mem_cons_self
      rw [hall h List.mem_cons_self, hall h' (List.mem_cons_of_mem h List.mem_cons_self)] at hless
      exact absurd hless (UInt64.lt_irrefl _)

namespace Records

/-- What a history shows is the first registration of its runtime id. -/
theorem of_mem_histories {h : History} (hrec : Records regs s) (hw : s.WellFormed)
    (hmem : h ∈ s.engine.histories) : firstOf regs h.thread.raw = some h.registration := by
  obtain ⟨⟨edition, raw⟩, rfl, hb⟩ := Engine.mem_histories_iff.mp hmem
  rw [hw.raw_eq _ h hb rfl, ← hrec raw]
  show (s.engine.book[(⟨s.engine.memory.edition, raw⟩ : HistoryRef)]?).map _ = _
  rw [hb]
  rfl

/-- Each registered runtime id has a history. -/
theorem exists_of_firstOf {reg : Registration} (hrec : Records regs s)
    (hreg : firstOf regs raw = some reg) : ∃ h ∈ s.engine.histories, h.registration = reg := by
  rw [← hrec raw] at hreg
  obtain ⟨h, hb, hh⟩ := Option.map_eq_some_iff.mp hreg
  exact ⟨h, Engine.mem_histories_iff.mpr ⟨_, rfl, hb⟩, hh⟩

end Records

/-- The main history comes first, and no other history is a main one. -/
theorem histories_eq_cons {main : Registration} {rest : List Registration}
    (hrec : Records (main :: rest) s) (hw : s.WellFormed) (hmain : main.isMain = true)
    (hrest : ∀ reg ∈ rest, reg.isMain = false) :
    ∃ first others, s.engine.histories = first :: others ∧ first.registration = main ∧
      (∀ h ∈ others, h.isMain = false) ∧
      others.Pairwise fun h h' => h.thread.raw < h'.thread.raw := by
  have hpairwise := pairwise_ofEdition hw
  have hfirst : firstOf (main :: rest) main.thread.raw = some main := by simp [firstOf]
  obtain ⟨first, hmem, hreg⟩ := hrec.exists_of_firstOf hfirst
  have hthread : first.thread = main.thread := congrArg Registration.thread hreg
  -- the main registration is the only one that a main history can show
  have honly : ∀ h ∈ s.engine.histories, h.isMain = true → h.thread.raw = first.thread.raw := by
    intro h hh hflag
    have hshown := List.mem_of_find?_eq_some (hrec.of_mem_histories hw hh)
    rcases List.mem_cons.mp hshown with hsame | hlater
    · rw [hthread, ← hsame]
      rfl
    · have hnot : h.isMain = false := hrest _ hlater
      rw [hnot] at hflag
      cases hflag
  have hflag : first.isMain = true := by
    have hshown : first.isMain = main.isMain := congrArg Registration.isMain hreg
    rw [hshown, hmain]
  have hlisted : ∀ h, h ∈ s.engine.book.ofEdition s.engine.memory.edition ↔
      h ∈ s.engine.histories := fun h =>
    HistoryBook.mem_ofEdition_iff.trans Engine.mem_histories_iff.symm
  have hmains : (s.engine.book.ofEdition s.engine.memory.edition).filter (·.isMain) = [first] := by
    apply eq_singleton_of_pairwise (hpairwise.filter _)
    · exact List.mem_filter.mpr ⟨(hlisted first).mpr hmem, hflag⟩
    · intro h hh
      obtain ⟨hh, hm⟩ := List.mem_filter.mp hh
      exact honly h ((hlisted h).mp hh) hm
  refine ⟨first, (s.engine.book.ofEdition s.engine.memory.edition).filter (!·.isMain), ?_, hreg,
    fun h hh => ?_, hpairwise.filter _⟩
  · rw [Engine.histories, hmains]
    rfl
  · simpa using (List.mem_filter.mp hh).2

/-- No runtime id has two histories. -/
theorem nodup_histories (hw : s.WellFormed) : (s.engine.histories.map (·.thread.raw)).Nodup := by
  have hperm : s.engine.histories.Perm (s.engine.book.ofEdition s.engine.memory.edition) :=
    List.filter_append_perm _ _
  rw [(hperm.map _).nodup_iff]
  exact List.pairwise_map.mpr ((pairwise_ofEdition hw).imp fun hlt => UInt64.ne_of_lt hlt)

end Replay

/-- Diverged locations are listed in key order. -/
theorem Engine.pairwise_divergedKeys (e : Engine) : e.divergedKeys.Pairwise LocationKey.Before :=
  List.pairwise_map.mpr ((e.memory.pairwise_current.filter _).imp fun hlt =>
    LocationKey.compare_eq_lt_iff.mp hlt)

namespace Replay

variable {past : Archive} {recording : Recording} {checksum : UInt32} {root : AnnouncedThread}
  {budget : Budget} {observer : Option Observer}

/-- **A harvest is complete, ordered and unambiguous.**  Whatever is called: the harvest has one
history for each registered runtime id, and no other; the main thread's comes first and is the only
one marked as such, and the others follow by ascending runtime id; each has the name and the
recorded thread of the first registration of its runtime id.  The diverged locations are listed by
object number and then by field, each once, and their texts tell them apart. -/
theorem harvest_complete (hpast : past.Bounded) (calls : List Call) :
    let s := opening past recording checksum root budget observer
    let regs := s.rootRegistration root :: s.registered calls
    let t := s.performAll calls
    let harvest := t.engine.harvest
    (∃ main others, harvest.threads = main :: others ∧
      main.registration = s.rootRegistration root ∧ (∀ other ∈ others, other.isMain = false) ∧
      others.Pairwise fun a b => a.thread.raw < b.thread.raw) ∧
    (harvest.threads.map (·.thread.raw)).Nodup ∧
    (∀ raw, (∃ shown ∈ harvest.threads, shown.thread.raw = raw) ↔
      ∃ reg ∈ regs, reg.thread.raw = raw) ∧
    (∀ shown ∈ harvest.threads, firstOf regs shown.thread.raw = some shown.registration) ∧
    (∃ keys : List LocationKey, harvest.divergedLocations = keys.map LocationKey.text ∧
      keys.Pairwise LocationKey.Before ∧
      ∀ key, key ∈ keys ↔ t.engine.memory.DivergedAt ⟨t.engine.memory.edition, key⟩) ∧
    harvest.divergedLocations.Nodup ∧
    ∀ k k' : LocationKey, k.text = k'.text ↔ k = k' := by
  intro s regs t harvest
  have hw : t.WellFormed :=
    (Kept.wellFormed.performAll (wellFormed_opening hpast) (wellFormed_opening hpast) calls).1
  have hrec : Records regs t := (records_opening hpast).performAll calls
  have hshown : ∀ shown ∈ harvest.threads,
      firstOf regs shown.thread.raw = some shown.registration := by
    intro shown hmem
    obtain ⟨h, hh, rfl⟩ := List.mem_map.mp hmem
    exact hrec.of_mem_histories hw hh
  refine ⟨?_, ?_, fun raw => ⟨?_, ?_⟩, hshown, ?_, ?_, fun k k' => ⟨LocationKey.text_injective, ?_⟩⟩
  · obtain ⟨first, others, heq, hreg, hothers, hpairwise⟩ :=
      histories_eq_cons hrec hw rfl fun reg => isMain_of_mem_registered
    refine ⟨first.harvest, others.map History.harvest, congrArg (List.map History.harvest) heq,
      hreg, ?_, List.pairwise_map.mpr hpairwise⟩
    intro other hother
    obtain ⟨h, hh, rfl⟩ := List.mem_map.mp hother
    exact hothers h hh
  · show ((t.engine.histories.map History.harvest).map (·.thread.raw)).Nodup
    rw [List.map_map]
    exact nodup_histories hw
  · rintro ⟨shown, hmem, rfl⟩
    exact ⟨_, List.mem_of_find?_eq_some (hshown shown hmem), rfl⟩
  · rintro ⟨reg, hmem, rfl⟩
    have hsome : (firstOf regs reg.thread.raw).isSome :=
      List.find?_isSome.mpr ⟨reg, hmem, by simp⟩
    obtain ⟨first, hfirst⟩ := Option.isSome_iff_exists.mp hsome
    have hraw : first.thread.raw = reg.thread.raw := by simpa using List.find?_some hfirst
    obtain ⟨h, hh, rfl⟩ := hrec.exists_of_firstOf hfirst
    exact ⟨h.harvest, List.mem_map_of_mem hh, hraw⟩
  · exact ⟨t.engine.divergedKeys, rfl, t.engine.pairwise_divergedKeys, fun key =>
      Engine.mem_divergedKeys_iff⟩
  · exact t.engine.nodup_divergedKeys.map fun k k' => LocationKey.text_injective
  · rintro rfl
    rfl

/-- The recording of a lineage, of which the first thread writes a box. -/
def writingLineage : Recording :=
  { recordedLineage with catalogue := oneWrite.catalogue, accesses := oneWrite.accesses }

/-- The child is started twice under different names, the main thread is announced as a child, a
context of another thread is made, and the main thread reads what it is to write. -/
def renamings : List Call :=
  [.rootContext, .objectCreated ⟨100, "Box"⟩, .threadStarted 0 ⟨20, "child"⟩,
    .threadStarted 1 ⟨9, "grandchild"⟩, .threadStarted 2 ⟨20, "renamed"⟩,
    .threadStarted 2 ⟨7, "main as child"⟩, .detached ⟨3, "unknown"⟩,
    .hook 0 (.before ⟨⟨100, "Box"⟩, "value", .read⟩)]

theorem renamed_threads_harvested_once : ({} : Archive).Bounded ∧
    let harvest := ((opening {} writingLineage 0 ⟨7, "main"⟩ {} none).performAll
      renamings).engine.harvest
    (∃ main others, harvest.threads = main :: others ∧
      main.registration = ⟨⟨7, "main"⟩, some 1, true⟩ ∧
      ∀ other ∈ others, other.isMain = false) ∧
    (∃ shown ∈ harvest.threads, shown.registration = ⟨⟨20, "child"⟩, some 2, false⟩) ∧
    (∃ shown ∈ harvest.threads, shown.registration = ⟨⟨9, "grandchild"⟩, some 3, false⟩) ∧
    (∀ shown ∈ harvest.threads, shown.thread.raw ≠ 3) ∧
    (harvest.threads.map (·.thread.raw)).Nodup ∧ harvest.divergedLocations = ["obj#0.value"] := by
  obtain ⟨⟨main, others, hthreads, hmain, hothers, -⟩, hnodup, hregistered, hfirst, -, -, -⟩ :=
    @harvest_complete {} writingLineage 0 ⟨7, "main"⟩ {} none Archive.bounded_empty renamings
  have hregistrations : (opening {} writingLineage 0 ⟨7, "main"⟩ {} none).rootRegistration
        ⟨7, "main"⟩ :: (opening {} writingLineage 0 ⟨7, "main"⟩ {} none).registered renamings =
      [⟨⟨7, "main"⟩, some 1, true⟩, ⟨⟨20, "child"⟩, some 2, false⟩,
        ⟨⟨9, "grandchild"⟩, some 3, false⟩, ⟨⟨20, "renamed"⟩, some 2, false⟩,
        ⟨⟨7, "main as child"⟩, some 1, false⟩] := by
    decide +kernel
  rw [hregistrations] at hregistered hfirst
  refine ⟨Archive.bounded_empty, ⟨main, others, hthreads, hmain.trans (by decide +kernel), hothers⟩,
    ?_, ?_, ?_, hnodup, by decide +kernel⟩
  · obtain ⟨shown, hmem, hraw⟩ := (hregistered 20).mpr ⟨_, .tail _ (.head _), rfl⟩
    have hshown := hfirst shown hmem
    rw [hraw] at hshown
    exact ⟨shown, hmem, (Option.some.inj hshown).symm⟩
  · obtain ⟨shown, hmem, hraw⟩ := (hregistered 9).mpr ⟨_, .tail _ (.tail _ (.head _)), rfl⟩
    have hshown := hfirst shown hmem
    rw [hraw] at hshown
    exact ⟨shown, hmem, (Option.some.inj hshown).symm⟩
  · intro shown hmem hraw
    obtain ⟨reg, hreg, hother⟩ := (hregistered 3).mp ⟨shown, hmem, hraw⟩
    revert reg
    decide

end Replay
end AccessReplay
