import AccessReplay.Proofs.SequentialCalls

/-!
# Histories list what was filed

Each history of a replay lists the accesses that its contexts filed, in the order they were
filed (`Listed`).  A turn of a context adds what is filed in it to the history that the
context files in, and nothing to any other (`Adds`).
-/
namespace AccessReplay

/-- A turn adds accesses to the history at a place, and nothing to any other one. -/
structure Adds (as : List OpenAccess) (book : HistoryBook) (place : HistoryPlace)
    (book' : HistoryBook) (place' : HistoryPlace) : Prop where
  filed_iff : ∀ ref, place' = .filed ref ↔ place = .filed ref
  book : ∀ (ref : HistoryRef) (h' : History), book'[ref]? = some h' → ∃ h, book[ref]? = some h ∧
    h'.accesses.toList = h.accesses.toList ++ if place = .filed ref then as else []
  own : ∀ h', place' = .own h' → ∃ h, place = .own h ∧
    h'.accesses.toList = h.accesses.toList ++ as

namespace Adds

variable {as : List OpenAccess} {book : HistoryBook} {place : HistoryPlace}
  {f : History → History}

theorem nothing : Adds [] book place book place where
  filed_iff _ := Iff.rfl
  book _ h hb := ⟨h, hb, by simp⟩
  own h ho := ⟨h, ho, by simp⟩

theorem of_change (hf : ∀ h, (f h).accesses.toList = h.accesses.toList ++ as) :
    Adds as book place (place.change f book).1 (place.change f book).2 where
  filed_iff _ := HistoryPlace.change_eq_filed_iff
  book ref h' hb := by
    rw [HistoryPlace.getElem?_change] at hb
    split at hb
    · next hpl =>
      obtain ⟨h, hold, rfl⟩ := Option.map_eq_some_iff.mp hb
      exact ⟨h, hold, by rw [if_pos hpl, hf]⟩
    · next hpl => exact ⟨h', hb, by rw [if_neg hpl, List.append_nil]⟩
  own h' ho := by
    obtain ⟨h, hold, rfl⟩ := HistoryPlace.change_eq_own_iff.mp ho
    exact ⟨h, hold, hf h⟩

end Adds

/-! ## What hooks add -/

namespace Engine

variable {e e' : Engine} {p p' : Participant} {a : OpenAccess}

theorem Concluded.adds (h : Concluded e p a e' p') :
    Adds [a] e.book p.history e'.book p'.history := by
  rw [h.book, h.history]
  exact .of_change fun _ => by simp [History.add]

theorem Decided.adds {r : Request} (h : Decided e p r e' p') :
    Adds [] e.book p.history e'.book p'.history := by
  cases h with
  | unchecked hs hm hb =>
    rw [hb]
    exact .nothing
  | granted hf hv hs hm hb =>
    rw [hb]
    exact .nothing
  | forced hf hv hs hm hb =>
    rw [hb]
    exact .of_change fun _ => by simp [History.flag]

theorem Effect.adds {c c' : Caller} (h : Effect e c e' c') :
    Adds c.filed e.book c.who.history e'.book c'.who.history := by
  obtain ⟨hbook, hplace⟩ : e'.book = (e.filesNext c.who c.stage).1 ∧
      c'.who.history = (e.filesNext c.who c.stage).2 := Prod.mk.inj h.files
  rw [hbook, hplace]
  obtain ⟨p, stage⟩ := c
  cases stage with
  | filing a next => exact .of_change fun _ => by simp [History.add, Caller.filed]
  | flagging q reason => exact .of_change fun _ => by simp [History.flag, Caller.filed]
  | _ => exact .nothing

end Engine

namespace Replay

variable {s : Replay} {fin : Log} {i : Nat} {p p' : Participant} {e' : Engine}
  {ref : HistoryRef} {a : OpenAccess} {P Q : Nat → Prop} [DecidablePred P] [DecidablePred Q]

/-! ## Accesses of a log -/

@[simp] theorem accessesOf_append (log log' : Log) :
    accessesOf (log ++ log') P = accessesOf log P ++ accessesOf log' P := by
  simp [accessesOf]

theorem accessesOf_congr {log : Log} (h : ∀ x ∈ log, P x.1 ↔ Q x.1) :
    accessesOf log P = accessesOf log Q := by
  unfold accessesOf
  congr 1
  exact List.filter_congr fun x hx => by simp [h x hx]

theorem accessesOf_eq_nil {log : Log} (h : ∀ x ∈ log, ¬P x.1) : accessesOf log P = [] := by
  simpa [accessesOf] using h

theorem accessesOf_map (as : List OpenAccess) :
    accessesOf (as.map (i, ·)) P = if P i then as else [] := by
  by_cases h : P i <;> simp [accessesOf, List.filter_map, Function.comp_def, h]

theorem accessesOf_singleton : accessesOf [(i, a)] P = if P i then [a] else [] :=
  accessesOf_map [a]

theorem count_accessesOf {log : Log} (x : Nat × OpenAccess) :
    (accessesOf log (· = x.1)).count x.2 = log.count x := by
  induction log with
  | nil => rfl
  | cons y log ih =>
    obtain ⟨i, a⟩ := x
    obtain ⟨j, b⟩ := y
    by_cases hj : j = i
    · subst hj
      simpa [accessesOf, List.count_cons] using ih
    · simpa [accessesOf, List.count_cons, hj] using ih

theorem accessesOf_perm {log log' : Log} (h : log.Perm log') :
    (accessesOf log P).Perm (accessesOf log' P) :=
  (h.filter _).map _

/-! ## Where contexts file -/

theorem filesUnder_append (hi : i < s.contexts.length) :
    FilesUnder ⟨e', s.contexts ++ [p]⟩ ref i ↔ s.FilesUnder ref i := by
  simp [FilesUnder, List.getElem?_append_left hi]

theorem filesUnder_set (hi : s.contexts[i]? = some p)
    (hp : p'.history = .filed ref ↔ p.history = .filed ref) (j : Nat) :
    FilesUnder ⟨e', s.contexts.set i p'⟩ ref j ↔ s.FilesUnder ref j := by
  by_cases he : i = j
  · subst he
    simp [FilesUnder, List.getElem?_set_self (List.getElem?_eq_some_iff.mp hi).1, hi, hp]
  · simp [FilesUnder, List.getElem?_set_ne he]

/-- No context adds to a history that is not there. -/
theorem WellFormed.not_filesUnder (hw : s.WellFormed) (hb : s.engine.book[ref]? = none) :
    ¬s.FilesUnder ref i := by
  intro hi
  obtain ⟨q, hq, hfiled⟩ := Option.map_eq_some_iff.mp hi
  obtain ⟨-, old, hold⟩ := hw.registered i q ref hq hfiled
  rw [hb] at hold
  cases hold

/-! ## Lists of what was filed -/

/-- Every history of the replay lists what was filed in it. -/
structure Listed (fin : Log) (s : Replay) : Prop where
  filed : ∀ (ref : HistoryRef) (h : History), ref.edition = s.engine.memory.edition →
    s.engine.book[ref]? = some h → h.accesses.toList = accessesOf fin (s.FilesUnder ref)
  /-- A context that adds to no history of the replay has one of its own. -/
  own : ∀ (i : Nat) (p : Participant) (h : History), s.contexts[i]? = some p →
    p.history = .own h → h.accesses.toList = accessesOf fin (· = i)
  handedOut : ∀ x ∈ fin, x.1 < s.contexts.length

namespace Listed

theorem sameRecords (h : Listed fin s) (hs : SameRecords s.engine e') :
    Listed fin { s with engine := e' } where
  filed ref hist := by
    rw [hs.memory, hs.book]
    exact h.filed ref hist
  own := h.own
  handedOut := h.handedOut

theorem handsOut (hw : s.WellFormed) (h : Listed fin s) (hs : HandsOut s.engine e' p) :
    Listed fin ⟨e', s.contexts ++ [p]⟩ where
  filed ref hist he hb := by
    have hfiles : accessesOf fin (FilesUnder ⟨e', s.contexts ++ [p]⟩ ref) =
        accessesOf fin (s.FilesUnder ref) :=
      accessesOf_congr fun x hx => filesUnder_append (h.handedOut x hx)
    rw [hfiles]
    rw [hs.memory] at he
    rcases hs.book ref with hsame | ⟨hnone, -, new, hnew, hblank, -⟩
    · exact h.filed ref hist he (hsame.symm.trans hb)
    · -- no context has added to a history that was not there
      obtain rfl := Option.some.inj (hnew.symm.trans hb)
      rw [accessesOf_eq_nil fun x _ => hw.not_filesUnder hnone, hblank.accesses]
  own j q hist hj hq := by
    rw [List.getElem?_append] at hj
    split at hj
    · exact h.own j q hist hj hq
    · next hlt =>
      obtain ⟨-, rfl⟩ : j - s.contexts.length = 0 ∧ p = q := by
        simpa [List.getElem?_singleton] using hj
      have hnone : accessesOf fin (· = j) = [] :=
        accessesOf_eq_nil fun x hx hxj => hlt (hxj ▸ h.handedOut x hx)
      rcases hs.history with ⟨own, hown, hblank⟩ | ⟨ref, _, href, -⟩
      · obtain rfl : own = hist := HistoryPlace.own.inj (hown.symm.trans hq)
        rw [hnone, hblank.accesses]
      · rw [href] at hq
        cases hq
  handedOut x hx := by
    have hlt := h.handedOut x hx
    simp only [List.length_append]
    omega

/-- In its turn, a context files some accesses. -/
theorem turn {as : List OpenAccess} (h : Listed fin s) (hi : s.contexts[i]? = some p)
    (he : e'.memory.edition = s.engine.memory.edition)
    (ha : Adds as s.engine.book p.history e'.book p'.history) :
    Listed (fin ++ as.map (i, ·)) ⟨e', s.contexts.set i p'⟩ where
  filed ref hist hed hb := by
    have hset : accessesOf (fin ++ as.map (i, ·)) (FilesUnder ⟨e', s.contexts.set i p'⟩ ref) =
        accessesOf (fin ++ as.map (i, ·)) (s.FilesUnder ref) :=
      accessesOf_congr fun x _ => filesUnder_set hi (ha.filed_iff ref) x.1
    obtain ⟨old, hold, hadded⟩ := ha.book ref hist hb
    rw [hset, accessesOf_append, accessesOf_map, ← h.filed ref old (hed.trans he) hold, hadded]
    simp [FilesUnder, hi]
  own j q hist hj hq := by
    rw [accessesOf_append, accessesOf_map]
    rw [List.getElem?_set] at hj
    split at hj
    · next hij =>
      subst hij
      obtain rfl : p' = q := by simpa [(List.getElem?_eq_some_iff.mp hi).1] using hj
      obtain ⟨old, hold, hadded⟩ := ha.own hist hq
      rw [if_pos rfl, hadded, h.own i p old hi hold]
    · next hij =>
      rw [if_neg hij, List.append_nil]
      exact h.own j q hist hj hq
  handedOut x hx := by
    rw [List.length_set]
    rcases List.mem_append.mp hx with hx | hx
    · exact h.handedOut x hx
    · obtain ⟨b, -, rfl⟩ := List.mem_map.mp hx
      exact (List.getElem?_eq_some_iff.mp hi).1

theorem opening {past : Archive} (hpast : past.Bounded) (recording : Recording)
    (checksum : UInt32) (root : AnnouncedThread) (budget : Budget) (observer : Option Observer) :
    Listed [] (opening past recording checksum root budget observer) where
  filed ref h he hb := by
    rw [(blank_start hpast (he.trans edition_start) hb).1.accesses]
    rfl
  own _ _ _ hi := absurd hi (by simp [Replay.opening])
  handedOut _ hx := absurd hx List.not_mem_nil

end Listed
end Replay
end AccessReplay
