import AccessReplay.Proofs.GrantedTraffic

/-!
# Granted records can be trusted

If every thread has a counterpart and makes one access at a time, then no two threads read as one
recorded thread (`count_reads_opened_le`).  So what is granted at a location follows the recorded
order, as long as the location is not marked diverged, and what goes ahead otherwise is recorded as
forced.  Once the location is marked, everything is recorded as granted, whatever was recorded.
-/
namespace AccessReplay

theorem grantsAt_flatMap {α : Type} {ref : LocationRef} (xs : List α) (f : α → List OpenAccess) :
    grantsAt ref (xs.flatMap f) = xs.flatMap fun x => grantsAt ref (f x) := by
  simp [grantsAt, List.filter_flatMap, List.map_flatMap]

/-- What at most one part has, and has once, the whole has once. -/
theorem count_flatMap_le_one {α β : Type} [BEq β] [LawfulBEq β] {f : α → List β} {b : β}
    {xs : List α} (hone : ∀ x ∈ xs, (f x).count b ≤ 1)
    (hapart : xs.Pairwise fun x y => b ∈ f x → b ∉ f y) : (xs.flatMap f).count b ≤ 1 := by
  induction xs with
  | nil => simp
  | cons x xs ih =>
    obtain ⟨hfirst, hrest⟩ := List.pairwise_cons.mp hapart
    rw [List.flatMap_cons, List.count_append]
    by_cases hx : b ∈ f x
    · have hnone : (xs.flatMap f).count b = 0 := by
        rw [List.count_eq_zero, List.mem_flatMap]
        rintro ⟨y, hy, hb⟩
        exact hfirst y hy hx hb
      have hlast := hone x List.mem_cons_self
      omega
    · have hnone : (f x).count b = 0 := List.count_eq_zero.mpr hx
      have hlast := ih (fun y hy => hone y (List.mem_cons_of_mem x hy)) hrest
      omega

namespace Traffic

open Replay (Log accessesOf)

variable {t t' : Traffic} {adm fin com : Log} {i : Nat} {c c' : Caller} {move : Move}
  {moves moves' : List Move} {r : Recording} {ref : LocationRef}

/-! ## Contexts in traffic -/

theorem embedded_perform (h : Replay.Embedded r t.toReplay) (move : Move) :
    Replay.Embedded r (t.perform move).toReplay := by
  cases move with
  | objectCreated object =>
    obtain ⟨objects, journal, hobject⟩ := t.engine.objectCreated_eq object
    rw [perform, hobject]
    exact h.sameThreads rfl rfl
  | close timeout =>
    simp only [perform]
    split
    · exact h.sameThreads rfl rfl
    · obtain ⟨journal, hsettle⟩ := t.engine.settle_eq timeout
      rw [hsettle]
      exact h.sameThreads rfl rfl
    · exact h
    · exact h
  | rootContext =>
    rw [perform, toReplay_append]
    exact h.rootContext
  | detached thread =>
    rw [perform, toReplay_append]
    exact h.detached thread
  | threadStarted i child =>
    simp only [perform]
    split
    · exact h
    · next parent hi =>
      rw [toReplay_append]
      exact h.threadStarted parent.who.live.raw child
  | enter i hook =>
    simp only [perform]
    split
    · exact h
    · next c hi =>
      split
      · rw [toReplay_set]
        exact h.turn (getElem?_contexts hi) rfl rfl rfl fun _ => Iff.rfl
      · exact h
  | step i =>
    simp only [perform]
    split
    · exact h
    · next c hi =>
      split
      · exact h
      · have heffect := Engine.effect_step t.engine c
        rw [toReplay_set]
        exact h.turn (getElem?_contexts hi) heffect.setting heffect.live heffect.recorded
          heffect.adds.filed_iff

theorem embedded_run (h : Replay.Embedded r t.toReplay) (moves : List Move) :
    Replay.Embedded r (t.run moves).toReplay := by
  induction moves using List.reverseRecOn with
  | nil => exact h
  | append_singleton moves move ih =>
    rw [run_concat]
    exact embedded_perform ih move

/-- Contexts keep their threads and counterparts. -/
def KeepsContexts (t t' : Traffic) : Prop :=
  ∀ (i : Nat) (c : Caller), t.callers[i]? = some c →
    ∃ c', t'.callers[i]? = some c' ∧ c'.who.live = c.who.live ∧ c'.who.recorded = c.who.recorded

theorem KeepsContexts.refl (t : Traffic) : KeepsContexts t t := fun _ c hi => ⟨c, hi, rfl, rfl⟩

theorem KeepsContexts.of_mem (h : KeepsContexts t t') (hc : c ∈ t.callers) :
    ∃ c' ∈ t'.callers, c'.who.live = c.who.live ∧ c'.who.recorded = c.who.recorded := by
  obtain ⟨i, hi⟩ := List.mem_iff_getElem?.mp hc
  obtain ⟨c', hi', hkept⟩ := h i c hi
  exact ⟨c', List.mem_of_getElem? hi', hkept⟩

theorem keepsContexts_set (hi : t.callers[i]? = some c) (e' : Engine) (c' : Caller)
    (hl : c'.who.live = c.who.live) (hr : c'.who.recorded = c.who.recorded) :
    KeepsContexts t { t with engine := e', callers := t.callers.set i c' } := by
  intro j d hj
  rw [List.getElem?_set]
  split
  · next hij =>
    subst hij
    obtain rfl := Option.some.inj (hi.symm.trans hj)
    exact ⟨c', by rw [if_pos (List.getElem?_eq_some_iff.mp hi).1], hl, hr⟩
  · exact ⟨d, hj, rfl, rfl⟩

theorem keepsContexts_perform (hs : Sound adm fin t) (move : Move) :
    KeepsContexts t (t.perform move) := by
  have hmoved := moved hs.wellFormed hs.checking move
  generalize t.admittedBy move = admitted, t.filedBy move = filed, t.perform move = t' at hmoved ⊢
  cases hmoved with
  | nothing => exact .refl t
  | engine => exact .refl t
  | handsOut =>
    intro j d hj
    exact ⟨d, by rw [List.getElem?_append_left (List.getElem?_eq_some_iff.mp hj).1, hj], rfl, rfl⟩
  | enter hi hout hook => exact keepsContexts_set hi t.engine ⟨_, .entry hook⟩ rfl rfl
  | @step i c hi hin =>
    have heffect := Engine.effect_step t.engine c
    exact keepsContexts_set hi _ _ heffect.live heffect.recorded

/-- What is kept by each move is kept from any time of a run to its end. -/
theorem keepsContexts_run (hs : Sound [] [] t) (h : moves' <+: moves) :
    KeepsContexts (t.run moves') (t.run moves) := by
  obtain ⟨rest, rfl⟩ := h
  induction rest using List.reverseRecOn with
  | nil =>
    rw [List.append_nil]
    exact .refl _
  | append_singleton rest move ih =>
    intro j d hj
    obtain ⟨d₁, hj₁, hl₁, hr₁⟩ := ih j d hj
    have hlast := keepsContexts_perform (hs.run (moves' ++ rest)) move
    obtain ⟨d₂, hj₂, hl₂, hr₂⟩ := hlast j d₁ hj₁
    rw [← List.append_assoc, run_concat]
    exact ⟨d₂, hj₂, hl₂.trans hl₁, hr₂.trans hr₁⟩

/-! ## Reads that are open -/

/-- No thread has accesses open on two of its contexts. -/
def OneAtATime (t : Traffic) : Prop :=
  t.callers.Pairwise fun c d => c.who.live.raw = d.who.live.raw → c.opened = [] ∨ d.opened = []

instance (t : Traffic) : Decidable t.OneAtATime :=
  inferInstanceAs (Decidable (t.callers.Pairwise fun c d =>
    c.who.live.raw = d.who.live.raw → c.opened = [] ∨ d.opened = []))

/-- **No two reads as one recorded thread are open**, if threads with one counterpart are one
thread, which makes one access at a time. -/
theorem count_reads_opened_le (ht : Tallied r adm com t) (hone : t.OneAtATime)
    (hcounterparts : ∀ c ∈ t.callers, c.who.recorded.isSome)
    (hdistinct : ∀ c ∈ t.callers, ∀ d ∈ t.callers, ∀ x, c.who.recorded = some x →
      d.who.recorded = some x → c.who.live.raw = d.who.live.raw) (u : RuntimeId) :
    (grantsAt ref t.opened).count ⟨u, .read⟩ ≤ 1 := by
  have hacts : ∀ c ∈ t.callers, (⟨u, .read⟩ : Access) ∈ grantsAt ref c.opened →
      c.who.recorded = some u ∧ c.opened ≠ [] := by
    intro c hc hmem
    obtain ⟨a, ha, -, -, haccess⟩ := mem_grantsAt.mp hmem
    obtain ⟨x, hx⟩ := Option.isSome_iff_exists.mp (hcounterparts c hc)
    have hthread := (ht.engaged c hc _ (Caller.mem_engagements_of_opened ha)).1
    have hu : a.thread = u := congrArg Access.thread haccess
    simp only [Engine.actsAs, hx, Option.getD_some, hu] at hthread
    exact ⟨hthread ▸ hx, List.ne_nil_of_mem ha⟩
  unfold opened
  rw [grantsAt_flatMap]
  apply count_flatMap_le_one
  · intro c hc
    refine Nat.le_trans List.count_le_length (Nat.le_trans ?_ c.length_opened_le)
    simpa [grantsAt] using List.length_filter_le ..
  · refine hone.imp_of_mem fun {c d} hc hd hapart hmem hmem' => ?_
    obtain ⟨hcu, hcopen⟩ := hacts c hc hmem
    obtain ⟨hdu, hdopen⟩ := hacts d hd hmem'
    rcases hapart (hdistinct c hc d hd u hcu hdu) with hnone | hnone
    · exact hcopen hnone
    · exact hdopen hnone

/-- So it is at any time of a run that ends with a counterpart for every thread. -/
theorem count_reads_opened_run_le (hs : Sound [] [] t) (ht : Tallied r [] [] t)
    (he : Replay.Embedded r t.toReplay) (ha : r.Accepted)
    (hfew : (t.run moves).engine.threads.FewChildren)
    (hcounterparts : ∀ c ∈ (t.run moves).callers, c.who.recorded.isSome)
    (hbegin : moves' <+: moves) (hone : (t.run moves').OneAtATime) (u : RuntimeId) :
    (grantsAt ref (t.run moves').opened).count ⟨u, .read⟩ ≤ 1 := by
  have hembedded : Replay.Embedded r (t.run moves).toReplay := embedded_run he moves
  have hplaced : ∀ c ∈ (t.run moves).callers,
      Replay.Placed r (t.run moves).engine.threads c.who := fun c hc =>
    hembedded.placed _ (List.mem_map_of_mem hc)
      (hembedded.registered _ (List.mem_map_of_mem hc) (hcounterparts c hc))
  have hkeeps := keepsContexts_run hs hbegin
  apply count_reads_opened_le (ht.run hs moves') hone
  · intro c hc
    obtain ⟨c', hc', -, hr⟩ := hkeeps.of_mem hc
    exact hr ▸ hcounterparts c' hc'
  · intro c hc d hd x hcx hdx
    obtain ⟨c', hc', hcl, hcr⟩ := hkeeps.of_mem hc
    obtain ⟨d', hd', hdl, hdr⟩ := hkeeps.of_mem hd
    rw [← hcl, ← hdl]
    exact hembedded.raw_eq_of_recorded ha hfew (hplaced c' hc') (hplaced d' hd') (hcr.trans hcx)
      (hdr.trans hdx)

/-! ## Records of what was finished -/

/-- The access that a thread has open. -/
def openedOn (t : Traffic) (i : Nat) : List OpenAccess := (t.callers[i]?).elim [] Caller.opened

/-- The access that a thread has committed and not filed yet. -/
def filingOn (t : Traffic) (i : Nat) : List OpenAccess := (t.callers[i]?).elim [] Caller.filed

theorem heldBy_eq (h : ∀ c ∈ t.callers, c.Proper) (i : Nat) :
    t.heldBy i = t.filingOn i ++ t.openedOn i := by
  unfold heldBy filingOn openedOn
  cases hi : t.callers[i]? with
  | none => rfl
  | some c => exact Caller.held_eq (h c (List.mem_of_getElem? hi))

theorem filingOn_append (p : Participant) (e' : Engine) :
    filingOn { t with engine := e', callers := t.callers ++ [⟨p, .outside⟩] } i = t.filingOn i := by
  unfold filingOn
  rw [List.getElem?_append]
  split
  · rfl
  · next hge =>
    rw [List.getElem?_eq_none (Nat.not_lt.mp hge), List.getElem?_singleton]
    split <;> rfl

theorem filingOn_set {j : Nat} (hi : t.callers[i]? = some c) (e' : Engine) (c' : Caller) :
    filingOn { t with engine := e', callers := t.callers.set i c' } j =
      if i = j then c'.filed else t.filingOn j := by
  unfold filingOn
  rw [List.getElem?_set]
  split
  · next hij =>
    subst hij
    rw [if_pos (List.getElem?_eq_some_iff.mp hi).1]
    rfl
  · rfl

/-- Between commit and record, a thread does nothing else. -/
theorem filingOn_perform (t : Traffic) (move : Move) (j : Nat) :
    t.filingOn j ++ accessesOf (t.committedBy move) (· = j) =
      accessesOf (t.filedBy move) (· = j) ++ (t.perform move).filingOn j := by
  have hidle : ∀ callers, t.filingOn j = filingOn { t with callers } j →
      t.filingOn j ++ accessesOf [] (· = j) =
        accessesOf [] (· = j) ++ filingOn { t with callers } j := by
    intro callers h
    simpa [accessesOf] using h
  cases move with
  | objectCreated object => exact hidle t.callers rfl
  | rootContext => exact hidle _ (filingOn_append ..).symm
  | detached thread => exact hidle _ (filingOn_append ..).symm
  | close timeout =>
    simp only [perform]
    split <;> exact hidle t.callers rfl
  | threadStarted i child =>
    simp only [perform]
    split
    · exact hidle t.callers rfl
    · exact hidle _ (filingOn_append ..).symm
  | enter i hook =>
    simp only [perform]
    split
    · exact hidle t.callers rfl
    · next c hi =>
      split
      · next hout =>
        refine hidle _ ?_
        rw [filingOn_set hi t.engine]
        split
        · next hij =>
          have hnone : c.filed = [] := by simp [Caller.filed, hout]
          subst hij
          simp [filingOn, hi, hnone]
          cases hook <;> rfl
        · rfl
      · exact hidle t.callers rfl
  | step i =>
    simp only [perform, committedBy, filedBy]
    cases hi : t.callers[i]? with
    | none => exact hidle t.callers rfl
    | some c =>
      by_cases hout : c.stage = .outside
      · have hnone : c.commits = [] := by simp [Caller.commits, hout]
        simp only [hout, if_true, Option.elim_some, hnone]
        exact hidle t.callers rfl
      · simp only [hout, if_false, Option.elim_some]
        rw [filingOn_set hi, Engine.filed_step _ hout, Replay.accessesOf_map, Replay.accessesOf_map]
        split
        · next hij =>
          subst hij
          simp [filingOn, hi]
        · rw [List.nil_append, List.append_nil]

/-- **The histories record what was finished**: on each context, what was committed is recorded in
the same order, but for the access that is about to be. -/
theorem committed_eq_filed (h : ∀ i, t.filingOn i = []) (moves : List Move) (i : Nat) :
    accessesOf (t.committed moves) (· = i) =
      accessesOf (t.filed moves) (· = i) ++ (t.run moves).filingOn i := by
  induction moves using List.reverseRecOn with
  | nil => exact (h i).symm
  | append_singleton moves move ih =>
    have hmove := filingOn_perform (t.run moves) move i
    rw [committed_concat, filed_concat, run_concat, Replay.accessesOf_append,
      Replay.accessesOf_append, ih, List.append_assoc, List.append_assoc, hmove]

/-! ## Locations that are not marked -/

/-- What is marked diverged stays so. -/
theorem isDiverged_perform (hs : Sound adm fin t) (move : Move) {l : Location}
    (hl : t.engine.memory.find? ref = some l) (hd : l.isDiverged = true) :
    ∃ l', (t.perform move).engine.memory.find? ref = some l' ∧ l'.isDiverged = true := by
  have hacted := acted hs.wellFormed move
  generalize t.admittedBy move = admitted, t.committedBy move = committed, t.perform move = t'
    at hacted ⊢
  cases hacted with
  | idle hidle =>
    rw [hidle.memory]
    exact ⟨l, hl, hd⟩
  | @step i c hi hin =>
    rw [(Engine.effect_step t.engine c).memory, Engine.find?_memoryNext hl]
    exact ⟨_, rfl, Engine.isDiverged_locationNext hd c.stage⟩

/-- A location that is not marked at the end of a run never was. -/
theorem isDiverged_eq_false_of_beginning (hs : Sound [] [] t) (h : moves' <+: moves)
    {l l' : Location} (hl : (t.run moves).engine.memory.find? ref = some l)
    (hd : l.isDiverged = false) (hl' : (t.run moves').engine.memory.find? ref = some l') :
    l'.isDiverged = false := by
  by_contra hmarked
  obtain ⟨rest, rfl⟩ := h
  have hstays : ∃ l, (t.run (moves' ++ rest)).engine.memory.find? ref = some l ∧
      l.isDiverged = true := by
    clear hl
    induction rest using List.reverseRecOn with
    | nil => exact ⟨l', by rw [List.append_nil, hl'], by simpa using hmarked⟩
    | append_singleton rest move ih =>
      obtain ⟨l₁, hl₁, hd₁⟩ := ih
      rw [← List.append_assoc, run_concat]
      exact isDiverged_perform (hs.run _) move hl₁ hd₁
  obtain ⟨l₁, hl₁, hd₁⟩ := hstays
  obtain rfl := Option.some.inj (hl.symm.trans hl₁)
  rw [hd] at hd₁
  cases hd₁

/-- What a move lets through as granted was asked for at a location that there is, and the move
commits nothing. -/
theorem granted_by_move (ht : Tallied r adm com t) (hs : Sound adm fin t) {x : Nat × OpenAccess}
    (hx : x ∈ t.admittedBy move) (hgranted : x.2.outcome = .granted) :
    (grantsAt x.2.location (t.perform move).opened).Perm
        (grantsAt x.2.location t.opened ++ [x.2.access]) ∧ t.committedBy move = [] ∧
      ∃ l, (t.perform move).engine.memory.find? x.2.location = some l := by
  have hacted := acted hs.wellFormed move
  generalize t.admittedBy move = admitted, t.committedBy move = committed, t.perform move = t'
    at hacted hx ⊢
  cases hacted with
  | idle hidle => exact absurd hx List.not_mem_nil
  | @step i c hi hin =>
    have hmem := List.mem_of_getElem? hi
    have hproper := hs.proper c hmem
    obtain ⟨a, ha, rfl⟩ := List.mem_map.mp hx
    obtain ⟨q, outcome, hq, rfl, hasked⟩ := Engine.inquiry_of_admitted hproper hin ha
    obtain ⟨hstage, hpoll⟩ := hasked hgranted
    have hcommits : c.commits = [] := by simp [Caller.commits, hstage]
    have hone : (t.engine.step c).2.admitted = [q.access outcome] := by
      have hlength : (t.engine.step c).2.admitted.length ≤ 1 := by
        unfold Caller.admitted
        split
        · cases (t.engine.step c).2.who.pending <;> simp
        · simp
      obtain ⟨b, hb⟩ := List.length_eq_one_iff.mp
        (Nat.le_antisymm hlength (List.length_pos_of_mem ha))
      rw [hb] at ha ⊢
      rw [List.mem_singleton.mp ha]
    have hopened := grantsAt_perm q.location (Tallied.opened_perm hproper hi hin)
    obtain ⟨-, l, hl⟩ := ht.engaged c hmem _ (Caller.mem_engagements_of_inquiry hq)
    refine ⟨?_, by rw [hcommits]; rfl, ?_⟩
    · rw [hcommits, List.append_nil, hone, grantsAt_append, grantsAt_singleton,
        if_pos ⟨rfl, hgranted⟩] at hopened
      exact hopened
    · show ∃ l, (t.engine.step c).1.memory.find? q.location = some l
      rw [(Engine.effect_step t.engine c).memory, Engine.find?_memoryNext hl]
      exact ⟨_, rfl⟩

section Opening
variable {past : Archive} {checksum : UInt32} {root : AnnouncedThread} {budget : Budget}
  {observer : Option Observer}

/-- **Granted records can be trusted** at a location of the replay that is not marked diverged, if
every thread has a counterpart and makes one access at a time.

* What was granted there, in the order it was finished, leads a rearrangement of the recorded
  order; so it does with the open accesses finished in any order.
* What goes ahead without that order being satisfied is forced.
* What was let through on a context is what was finished on it and what is open; and the
  histories record what was finished, in this order, but for the access that is about to be
  recorded. -/
theorem granted_records_trusted {d : Dump} (hpast : past.Bounded)
    (hd : Recording.ofDump d = .ok r) (moves : List Move)
    (hfew : ((opening past r checksum root budget observer).run
      moves).engine.threads.FewChildren)
    (hcounterparts : ∀ c ∈ ((opening past r checksum root budget observer).run moves).callers,
      c.who.recorded.isSome)
    (hone : ∀ moves', moves' <+: moves →
      ((opening past r checksum root budget observer).run moves').OneAtATime)
    {l : Location}
    (he : ref.edition = (opening past r checksum root budget observer).engine.memory.edition)
    (hl : ((opening past r checksum root budget observer).run moves).engine.memory.find? ref =
      some l) (hu : l.isDiverged = false) :
    let s := opening past r checksum root budget observer
    let t := s.run moves
    Leads (r.orderAt ref.key) (grantsAt ref ((s.committed moves).map Prod.snd)) ∧
    (∀ o, (grantsAt ref t.opened).Perm o →
      Leads (r.orderAt ref.key) (grantsAt ref ((s.committed moves).map Prod.snd) ++ o)) ∧
    (∀ moves' move, moves' ++ [move] <+: moves → ∀ x ∈ (s.run moves').admittedBy move,
      x.2.location = ref →
      ¬Leads (r.orderAt ref.key) (grantsAt ref ((s.committed moves').map Prod.snd) ++
        grantsAt ref (s.run moves').opened ++ [x.2.access]) → x.2.outcome = .forced) ∧
    (∀ i, accessesOf (s.admitted moves) (· = i) =
      accessesOf (s.committed moves) (· = i) ++ t.openedOn i) ∧
    (∀ i, accessesOf (s.committed moves) (· = i) =
      accessesOf (s.filed moves) (· = i) ++ t.filingOn i) ∧
    ∀ (place : HistoryRef) (h : History), place.edition = t.engine.memory.edition →
      t.engine.book[place]? = some h →
      h.accesses.toList = accessesOf (s.filed moves) (t.toReplay.FilesUnder place) := by
  intro s t
  have hs : Sound [] [] s := sound_opening hpast
  have hsound : Sound (s.admitted moves) (s.filed moves) t := hs.run moves
  have halone : ∀ moves', moves' <+: moves → ∀ u,
      (grantsAt ref (s.run moves').opened).count ⟨u, .read⟩ ≤ 1 := fun moves' hbegin =>
    count_reads_opened_run_le hs .opening (Replay.embedded_opening r)
      (Recording.accepted_ofDump hd) hfew hcounterparts hbegin (hone moves' hbegin)
  have hleads : ∀ moves', moves' <+: moves → ∀ l,
      (s.run moves').engine.memory.find? ref = some l →
      ∀ o, (grantsAt ref (s.run moves').opened).Perm o →
        Leads (r.orderAt ref.key) (grantsAt ref ((s.committed moves').map Prod.snd) ++ o) := by
    intro moves' hbegin l' hl' o ho
    have hd' := isDiverged_eq_false_of_beginning hs hbegin hl hu hl'
    have hcourse := course_opening (P := fun o => ∀ u, o.count ⟨u, .read⟩ ≤ 1) hpast he
      (fun m hm => halone m (hm.trans hbegin)) hl' hd'
    exact hcourse.leads (fun o ho => ho) ho
  have hfinished := committed_eq_filed (t := s) (fun _ => rfl) moves
  have hnow := hleads moves (List.prefix_refl _) l hl
  refine ⟨(hnow _ .rfl).of_beginning (List.prefix_append ..), hnow, ?_, ?_, hfinished,
    hsound.toListed.filed⟩
  · rintro moves' move hbegin x hx rfl hnot
    cases hout : x.2.outcome with
    | forced => rfl
    | granted =>
      -- what is granted is the next access of a rearrangement
      obtain ⟨hopened, hnone, l', hl'⟩ := granted_by_move (Tallied.opening.run hs moves')
        (hs.run moves') hx hout
      rw [← run_concat] at hopened hl'
      have hnext := hleads _ hbegin l' hl' _ hopened
      rw [committed_concat, hnone, List.append_nil, ← List.append_assoc] at hnext
      exact absurd hnext hnot
  · intro i
    rw [hfinished i, hsound.passed i, heldBy_eq hsound.proper, List.append_assoc]

end Opening

/-- A thread writes a field, and the thread that it started reads it. -/
def passOn : Dump where
  threads := [⟨1, []⟩, ⟨2, [0]⟩]
  sharedFields := (∅ : Catalogue).insert "Box" ((∅ : Std.ExtTreeSet String).insert "value")
  locations := [⟨⟨0⟩, "Box", "value", [⟨1, .write, none⟩, ⟨2, .read, none⟩]⟩]

/-- The recording of `passOn`. -/
def passedOn : Recording where
  root := .root 1
  others := [(ThreadId.root 1).child 2 0]
  catalogue := (∅ : Catalogue).insert "Box" ((∅ : Std.ExtTreeSet String).insert "value")
  accesses := (∅ : AccessLedger).insert ⟨⟨0⟩, "value"⟩
    ⟨"Box", [⟨1, .write, none⟩, ⟨2, .read, none⟩]⟩

theorem ofDump_passOn : Recording.ofDump passOn = .ok passedOn := by
  rw [Recording.ofDump, Recording.growTree_of_pairwise (by decide)]
  rfl

/-- The replay of `passedOn` when it begins. -/
def passOnTraffic : Traffic := opening {} passedOn 0 ⟨7, "main"⟩ { maxRetries := 0 } none

/-- The threads access the field in the recorded order. -/
def inOrder : List Move :=
  beginning ++ opens 0 .write ++ ends 0 .write ++ opens 1 .read ++ ends 1 .read

theorem inOrder_trusted : ({} : Archive).Bounded ∧ Recording.ofDump passOn = .ok passedOn ∧
    (passOnTraffic.run inOrder).engine.threads.FewChildren ∧
    (∀ c ∈ (passOnTraffic.run inOrder).callers, c.who.recorded.isSome) ∧
    (∀ moves', moves' <+: inOrder → (passOnTraffic.run moves').OneAtATime) ∧
    ((passOnTraffic.run inOrder).engine.memory.find? box).map Location.isDiverged = some false ∧
    grantsAt box ((passOnTraffic.committed inOrder).map Prod.snd) = [⟨1, .write⟩, ⟨2, .read⟩] ∧
    Leads (passedOn.orderAt box.key) [⟨1, .write⟩, ⟨2, .read⟩] := by
  have hfew : (passOnTraffic.run inOrder).engine.threads.FewChildren :=
    SpawnTree.fewChildren_of_size (by decide +kernel)
  have hcounterparts : ∀ c ∈ (passOnTraffic.run inOrder).callers, c.who.recorded.isSome := by
    decide +kernel
  have hone : ∀ moves', moves' <+: inOrder → (passOnTraffic.run moves').OneAtATime := by
    simp only [← List.mem_inits]
    decide +kernel
  have hmarked : ((passOnTraffic.run inOrder).engine.memory.find? box).map Location.isDiverged =
      some false := by
    decide +kernel
  have hfinished : grantsAt box ((passOnTraffic.committed inOrder).map Prod.snd) =
      [⟨1, .write⟩, ⟨2, .read⟩] := by
    decide +kernel
  obtain ⟨l, hl, hd⟩ := Option.map_eq_some_iff.mp hmarked
  unfold passOnTraffic at *
  obtain ⟨hleads, -⟩ := granted_records_trusted Archive.bounded_empty ofDump_passOn inOrder hfew
    hcounterparts hone rfl hl hd
  exact ⟨Archive.bounded_empty, ofDump_passOn, hfew, hcounterparts, hone, hmarked, hfinished,
    hfinished ▸ hleads⟩

/-- The second thread reads twice, before anything was written. -/
def outOfOrder : List Move :=
  beginning ++ opens 1 .read ++ ends 1 .read ++ opens 1 .read ++ ends 1 .read

/-- **A location that is marked diverged grants what was not recorded.**  The first read is
forced and marks the location; the second one is recorded as granted, although the order has a
write before any read. -/
theorem unordered_read_granted : Recording.ofDump passOn = .ok passedOn ∧
    (∀ c ∈ (passOnTraffic.run outOfOrder).callers, c.who.recorded.isSome) ∧
    (∀ moves', moves' <+: outOfOrder → (passOnTraffic.run moves').OneAtATime) ∧
    ((passOnTraffic.run outOfOrder).engine.book[(⟨1, 20⟩ : HistoryRef)]?).map
        (fun h => h.accesses.toList) =
      some [⟨box, 2, .read, .forced, 0⟩, ⟨box, 2, .read, .granted, 0⟩] ∧
    ¬Leads (passedOn.orderAt box.key)
      (grantsAt box ((passOnTraffic.committed outOfOrder).map Prod.snd)) := by
  have hone : ∀ moves', moves' <+: outOfOrder → (passOnTraffic.run moves').OneAtATime := by
    simp only [← List.mem_inits]
    decide +kernel
  have hfinished : grantsAt box ((passOnTraffic.committed outOfOrder).map Prod.snd) =
      [] ++ [⟨2, .read⟩] := by
    decide +kernel
  have horder : passedOn.orderAt box.key = [⟨1, .write⟩, ⟨2, .read⟩] := by
    decide +kernel
  refine ⟨ofDump_passOn, by decide +kernel, hone, by decide +kernel, ?_⟩
  rw [hfinished, horder, leads_concat_iff]
  rintro ⟨-, hadmits⟩
  simp [Admits] at hadmits

end Traffic
end AccessReplay
