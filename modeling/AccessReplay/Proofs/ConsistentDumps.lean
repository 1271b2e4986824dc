import AccessReplay.Proofs.RecordedTree

/-!
# Which dumps are accepted

A dump is accepted exactly if it is consistent, in whatever order it lists its threads and its
locations (`accepted_iff_consistent`).

The threads are gone through by their places, and each one's parent is looked for among those so
far.  A place comes after the one above it, so a parent that is listed at all has been gone through
by then (`exists_foldlM_addThread`); and the thread that is first has no parent to be found, so it
is refused unless it is the root (`isRoot_of_growTree`).  What is built is read off the dump as a
whole: the threads are those listed, sorted (`entries_of_growTree`), and the ledger is what is
entered for the locations, one after the other (`foldlM_addLocation_eq_ok_iff`).
-/
namespace AccessReplay

/-- A thread as it is listed in a dump. -/
def ThreadId.entry (t : ThreadId) : ThreadEntry := ⟨t.raw, t.position⟩

/-- Threads are told apart by their ids and by their places, and one stands above each that is not
at the root; accesses are made by listed threads; and no location is listed twice. -/
structure Dump.Consistent (d : Dump) : Prop where
  nonempty : d.threads ≠ []
  ids : (d.threads.map ThreadEntry.id).Nodup
  positions : (d.threads.map ThreadEntry.position).Nodup
  parents : ∀ t ∈ d.threads, t.position ≠ [] →
    t.position.dropLast ∈ d.threads.map ThreadEntry.position
  made_by : ∀ l ∈ d.locations, ∀ e ∈ l.events, e.thread ∈ d.threads.map ThreadEntry.id
  keys : (d.locations.map LocationEntry.key).Nodup

/-- The recording says what the dump says: its threads by their places from the root on, each with
its parent, and for each location what happened there. -/
structure Recording.Represents (r : Recording) (d : Dump) : Prop where
  listed : (r.threads.map ThreadId.entry).Perm d.threads
  sorted : r.threads.Pairwise fun t u => compare t.position u.position = .lt
  /-- The first thread is the only one that is listed at the root. -/
  root_iff : ∀ t, t ∈ d.threads ∧ t.position = [] ↔ t = r.root.entry
  threadAt : ∀ p, (r.threadAt? p).map ThreadId.entry = d.threads.find? (·.position == p)
  parent : ∀ t ∈ r.threads, t.position ≠ [] →
    ∃ parent, t.parent? = some parent ∧ r.threadAt? t.position.dropLast = some parent
  catalogue : r.catalogue = d.sharedFields
  accesses : ∀ key recorded, r.accesses[key]? = some recorded ↔
    ∃ l ∈ d.locations, l.key = key ∧ l.recorded = recorded

namespace Recording

variable {entries entries' : List ThreadEntry} {known threads : List ThreadId} {t : ThreadEntry}
  {ls : List LocationEntry} {l : LocationEntry} {ledger ledger' : AccessLedger}
  {d d' : Dump} {r : Recording}

/-! ## The order of places -/

/-- A place comes after the one above it. -/
theorem compare_dropLast {p : Position} (h : p ≠ []) : compare p.dropLast p = .lt := by
  have hconcat (q : Position) (i : UInt32) : compare q (q ++ [i]) = .lt := by
    induction q with
    | nil => rfl
    | cons a q ih => rw [List.cons_append, List.compare_cons_cons, ih, Std.compare_self]; rfl
  have hlt := hconcat p.dropLast (p.getLast h)
  rwa [List.dropLast_concat_getLast] at hlt

theorem positionLe_antisymm {a b : ThreadEntry} (hab : positionLe a b = true)
    (hba : positionLe b a = true) : a.position = b.position := by
  rw [positionLe, Std.OrientedOrd.eq_swap] at hba
  apply Std.LawfulEqOrd.eq_of_compare
  revert hab hba
  rw [positionLe]
  cases compare a.position b.position <;> simp

theorem pairwise_sorted (entries : List ThreadEntry) :
    (entries.mergeSort positionLe).Pairwise (positionLe · ·) :=
  pairwise_isLE_mergeSort ThreadEntry.position entries

/-- Threads with different places are sorted alike in whatever order they are listed. -/
theorem sorted_eq_of_perm (h : entries.Perm entries')
    (hpositions : (entries.map ThreadEntry.position).Nodup) :
    entries.mergeSort positionLe = entries'.mergeSort positionLe := by
  have hsorted := List.mergeSort_perm entries positionLe
  have hsorted' := List.mergeSort_perm entries' positionLe
  refine List.Perm.eq_of_pairwise (fun a b ha hb hab hba => ?_) (pairwise_sorted entries)
    (pairwise_sorted entries') (hsorted.trans (h.trans hsorted'.symm))
  exact List.inj_on_of_nodup_map hpositions (hsorted.mem_iff.mp ha)
    (h.mem_iff.mpr (hsorted'.mem_iff.mp hb)) (positionLe_antisymm hab hba)

/-! ## Threads -/

theorem map_raw_eq (threads : List ThreadId) :
    threads.map ThreadId.raw = (threads.map ThreadId.entry).map ThreadEntry.id := by
  simp [ThreadId.entry, Function.comp_def]

theorem map_position_eq (threads : List ThreadId) :
    threads.map ThreadId.position = (threads.map ThreadId.entry).map ThreadEntry.position := by
  simp [ThreadId.entry, Function.comp_def]

/-- A thread that is new and has its parent among those known is given its place. -/
theorem exists_addThread (hid : t.id ∉ known.map ThreadId.raw)
    (hposition : t.position ∉ known.map ThreadId.position)
    (hparent : t.position ≠ [] → t.position.dropLast ∈ known.map ThreadId.position) :
    ∃ known', addThread known t = .ok known' := by
  have hraws : known.any (·.raw == t.id) = false := by simpa using hid
  have hpositions : known.any (·.position == t.position) = false := by simpa using hposition
  simp only [addThread, hraws, hpositions, Bool.false_eq_true, ↓reduceIte]
  cases hlast : t.position.getLast? with
  | none => exact ⟨_, rfl⟩
  | some index =>
    have hbelow : t.position ≠ [] := by
      intro hroot
      rw [hroot] at hlast
      cases hlast
    obtain ⟨parent, hmem, hp⟩ := List.mem_map.mp (hparent hbelow)
    cases hfound : known.find? (·.position == t.position.dropLast) with
    | some found => exact ⟨_, rfl⟩
    | none =>
      have hnot := List.find?_eq_none.mp hfound parent hmem
      simp [hp] at hnot

/-- The threads that have their places are those that were gone through, in that order. -/
theorem entries_of_foldlM (h : entries.foldlM addThread known = .ok threads) :
    threads.map ThreadId.entry = known.map ThreadId.entry ++ entries := by
  induction entries generalizing known with
  | nil =>
    obtain rfl : known = threads := by simpa [pure, Except.pure] using h
    rw [List.append_nil]
  | cons t entries ih =>
    rw [List.foldlM_cons] at h
    obtain ⟨known', hadd, hrest⟩ := bind_eq_ok.mp h
    obtain ⟨new, rfl, hid, hposition, -, -⟩ := addThread_eq_ok hadd
    rw [ih hrest, List.map_append, List.map_singleton, ThreadId.entry, hid, hposition,
      List.append_assoc]
    rfl

/-- **Threads that are sorted by their places are given them**, if their ids and their places are
different and each parent is among them or known. -/
theorem exists_foldlM_addThread (hsorted : entries.Pairwise (positionLe · ·))
    (hids : (known.map ThreadId.raw ++ entries.map ThreadEntry.id).Nodup)
    (hpositions : (known.map ThreadId.position ++ entries.map ThreadEntry.position).Nodup)
    (hparents : ∀ t ∈ entries, t.position ≠ [] →
      t.position.dropLast ∈ known.map ThreadId.position ++ entries.map ThreadEntry.position) :
    ∃ threads, entries.foldlM addThread known = .ok threads := by
  induction entries generalizing known with
  | nil => exact ⟨known, rfl⟩
  | cons t entries ih =>
    obtain ⟨hfirst, hsorted⟩ := List.pairwise_cons.mp hsorted
    have hid : t.id ∉ known.map ThreadId.raw := fun hmem =>
      (List.nodup_append.mp hids).2.2 _ hmem _ List.mem_cons_self rfl
    have hposition : t.position ∉ known.map ThreadId.position := fun hmem =>
      (List.nodup_append.mp hpositions).2.2 _ hmem _ List.mem_cons_self rfl
    -- the parent's place comes before this one, so its thread is known already
    have hparent : t.position ≠ [] → t.position.dropLast ∈ known.map ThreadId.position := by
      intro hbelow
      have hlt := compare_dropLast hbelow
      rcases List.mem_append.mp (hparents t List.mem_cons_self hbelow) with hmem | hmem
      · exact hmem
      · obtain ⟨u, hu, hp⟩ := List.mem_map.mp hmem
        have hle : positionLe t u = true := by
          rcases List.mem_cons.mp hu with rfl | hu
          · simp [positionLe]
          · exact hfirst u hu
        rw [positionLe, hp, Std.OrientedOrd.eq_swap, hlt] at hle
        cases hle
    obtain ⟨known', hadd⟩ := exists_addThread hid hposition hparent
    obtain ⟨new, rfl, hnewid, hnewposition, -, -⟩ := addThread_eq_ok hadd
    have hids' : ((known ++ [new]).map ThreadId.raw ++ entries.map ThreadEntry.id).Nodup := by
      simpa [hnewid] using hids
    have hplaces : (known ++ [new]).map ThreadId.position ++ entries.map ThreadEntry.position =
        known.map ThreadId.position ++ (t :: entries).map ThreadEntry.position := by
      simp [hnewposition]
    obtain ⟨threads, hrest⟩ := ih hsorted hids' (hplaces ▸ hpositions) fun u hu hbelow =>
      hplaces ▸ hparents u (List.mem_cons_of_mem _ hu) hbelow
    refine ⟨threads, ?_⟩
    rw [List.foldlM_cons]
    exact bind_eq_ok.mpr ⟨_, hadd, hrest⟩

/-- **The threads of the spawn tree are those that are listed, sorted.** -/
theorem entries_of_growTree (h : growTree entries = .ok threads) :
    threads.map ThreadId.entry = entries.mergeSort positionLe := entries_of_foldlM h

/-- The thread that comes first can only be the root: no parent of it would be found. -/
theorem isRoot_of_growTree {root : ThreadId} {others : List ThreadId}
    (h : growTree entries = .ok (root :: others)) : root.isRoot = true := by
  refine foldlM_keeps (fun known => ∀ t ∈ known.head?, t.isRoot = true) ?_ (by simp) h root rfl
  intro t _ known known' hknown hadd first hfirst
  obtain ⟨new, rfl, hparent⟩ := parent_mem_of_addThread hadd
  cases known with
  | cons u known => exact hknown first hfirst
  | nil =>
    obtain rfl : new = first := by simpa using hfirst
    cases new with
    | root raw => rfl
    | child parent raw index => exact absurd (hparent parent rfl) List.not_mem_nil

theorem exists_growTree (hids : (entries.map ThreadEntry.id).Nodup)
    (hpositions : (entries.map ThreadEntry.position).Nodup)
    (hparents : ∀ t ∈ entries, t.position ≠ [] →
      t.position.dropLast ∈ entries.map ThreadEntry.position) :
    ∃ threads, growTree entries = .ok threads := by
  have hperm := List.mergeSort_perm entries positionLe
  refine exists_foldlM_addThread (pairwise_sorted entries) ?_ ?_ fun t ht hbelow => ?_
  · exact (hperm.map _).nodup_iff.mpr hids
  · exact (hperm.map _).nodup_iff.mpr hpositions
  · exact (hperm.map _).mem_iff.mpr (hparents t (hperm.mem_iff.mp ht) hbelow)

/-! ## Locations -/

/-- **All locations are entered** if their accesses were made by known threads and each key is
new. -/
theorem foldlM_addLocation_eq_ok_iff : ls.foldlM (addLocation threads) ledger = .ok ledger' ↔
    (∀ l ∈ ls, ∀ e ∈ l.events, e.thread ∈ threads.map ThreadId.raw) ∧
      (∀ l ∈ ls, l.key ∉ ledger) ∧ (ls.map LocationEntry.key).Nodup ∧
      ledger' = ls.foldl enter ledger := by
  induction ls generalizing ledger with
  | nil => simp [pure, Except.pure, eq_comm]
  | cons l ls ih =>
    have hfresh : (∀ l' ∈ ls, l'.key ∉ enter ledger l) ↔
        (∀ l' ∈ ls, l'.key ∉ ledger) ∧ l.key ∉ ls.map LocationEntry.key := by
      simp only [enter, Std.ExtTreeMap.mem_insert, Std.compare_eq_iff_eq, List.mem_map]
      grind
    rw [List.foldlM_cons, bind_eq_ok]
    simp only [addLocation_eq_ok_iff, ih, List.forall_mem_cons, List.map_cons, List.nodup_cons,
      List.foldl_cons]
    constructor
    · rintro ⟨_, ⟨hknown, hnew, rfl⟩, hall, hkeys, hnodup, rfl⟩
      obtain ⟨hold, hother⟩ := hfresh.mp hkeys
      exact ⟨⟨hknown, hall⟩, ⟨hnew, hold⟩, ⟨hother, hnodup⟩, rfl⟩
    · rintro ⟨⟨hknown, hall⟩, ⟨hnew, hold⟩, ⟨hother, hnodup⟩, rfl⟩
      exact ⟨_, ⟨hknown, hnew, rfl⟩, hall, hfresh.mpr ⟨hold, hother⟩, hnodup, rfl⟩

/-- The ledger of different locations has just what is entered for them. -/
theorem getElem?_foldl_enter {key : LocationKey} {recorded : RecordedLocation}
    (hkeys : (ls.map LocationEntry.key).Nodup) :
    (ls.foldl enter ∅)[key]? = some recorded ↔
      ∃ l ∈ ls, l.key = key ∧ l.recorded = recorded := by
  induction ls using List.reverseRecOn with
  | nil => simp
  | append_singleton ls l ih =>
    rw [List.map_append, List.nodup_append] at hkeys
    obtain ⟨hkeys, -, hother⟩ := hkeys
    rw [List.foldl_append, List.foldl_cons, List.foldl_nil, enter, Std.ExtTreeMap.getElem?_insert]
    by_cases hk : l.key = key
    · -- no other location has the key
      subst hk
      have hnone : ∀ l' ∈ ls, l'.key ≠ l.key := fun l' hl' =>
        hother _ (List.mem_map_of_mem hl') _ (List.mem_singleton_self _)
      simp only [Std.compare_self, ↓reduceIte, Option.some.injEq, List.mem_append,
        List.mem_singleton]
      constructor
      · intro hrecorded
        exact ⟨l, .inr rfl, rfl, hrecorded⟩
      · rintro ⟨l', hl' | rfl, hkey, hrecorded⟩
        · exact absurd hkey (hnone l' hl')
        · exact hrecorded
    · simp [hk, ih hkeys, or_and_right, exists_or]

/-! ## Dumps -/

theorem listed_ofDump (h : ofDump d = .ok r) : (r.threads.map ThreadId.entry).Perm d.threads := by
  rw [entries_of_growTree (ofDump_eq_ok_iff.mp h).1]
  exact List.mergeSort_perm ..

theorem raws_ofDump (h : ofDump d = .ok r) :
    (r.threads.map ThreadId.raw).Perm (d.threads.map ThreadEntry.id) := by
  rw [map_raw_eq]
  exact (listed_ofDump h).map _

theorem positions_ofDump (h : ofDump d = .ok r) :
    (r.threads.map ThreadId.position).Perm (d.threads.map ThreadEntry.position) := by
  rw [map_position_eq]
  exact (listed_ofDump h).map _

/-- **Only consistent dumps are accepted.** -/
theorem consistent_of_ofDump (h : ofDump d = .ok r) : d.Consistent := by
  have haccepted := accepted_ofDump h
  have hrooted := rooted_ofDump h
  have hlisted := listed_ofDump h
  have hpositions := positions_ofDump h
  obtain ⟨-, -, hledger, -⟩ := ofDump_eq_ok_iff.mp h
  obtain ⟨hmade, -, hkeys, -⟩ := foldlM_addLocation_eq_ok_iff.mp hledger
  refine ⟨?_, ?_, ?_, fun t ht hbelow => ?_, fun l hl e he => ?_, hkeys⟩
  · intro hnone
    rw [hnone] at hlisted
    exact absurd hlisted.eq_nil (by simp [threads])
  · exact (raws_ofDump h).nodup_iff.mp haccepted.raws
  · exact hpositions.nodup_iff.mp haccepted.positions
  · -- the recorded thread that is listed so has a parent in the recording
    obtain ⟨u, hu, rfl⟩ := List.mem_map.mp (hlisted.mem_iff.mpr ht)
    cases u with
    | root raw => exact absurd rfl hbelow
    | child parent raw index =>
      have hparent : parent ∈ r.threads := hrooted.parent_mem _ hu parent rfl
      have hplace : parent.position ∈ d.threads.map ThreadEntry.position :=
        hpositions.mem_iff.mp (List.mem_map_of_mem hparent)
      simpa [ThreadId.entry] using hplace
  · exact (raws_ofDump h).mem_iff.mp (hmade l hl e he)

/-- **Every consistent dump is accepted.** -/
theorem exists_ofDump (h : d.Consistent) : ∃ r, ofDump d = .ok r := by
  obtain ⟨threads, hgrow⟩ := exists_growTree h.ids h.positions h.parents
  have hlisted : (threads.map ThreadId.entry).Perm d.threads := by
    rw [entries_of_growTree hgrow]
    exact List.mergeSort_perm ..
  have hmade : ∀ l ∈ d.locations, ∀ e ∈ l.events, e.thread ∈ threads.map ThreadId.raw := by
    intro l hl e he
    rw [map_raw_eq, (hlisted.map _).mem_iff]
    exact h.made_by l hl e he
  have hledger : d.locations.foldlM (addLocation threads) ∅ =
      .ok (d.locations.foldl enter ∅) :=
    foldlM_addLocation_eq_ok_iff.mpr ⟨hmade, by simp, h.keys, rfl⟩
  cases threads with
  | nil => exact absurd hlisted.symm.eq_nil h.nonempty
  | cons root others =>
    exact ⟨⟨root, others, d.sharedFields, _⟩,
      ofDump_eq_ok_iff.mpr ⟨hgrow, isRoot_of_growTree hgrow, hledger, rfl⟩⟩

/-! ## What a recording says -/

/-- The threads of a recording stand in the order of their places. -/
theorem sorted_ofDump (h : ofDump d = .ok r) :
    r.threads.Pairwise fun t u => compare t.position u.position = .lt := by
  have hentries := entries_of_growTree (ofDump_eq_ok_iff.mp h).1
  have hsorted := pairwise_sorted d.threads
  rw [← hentries, List.pairwise_map] at hsorted
  exact pairwise_lt_of_nodup (accepted_ofDump h).positions hsorted

/-- **A recording says what its dump says.** -/
theorem represents_ofDump (h : ofDump d = .ok r) : r.Represents d := by
  have haccepted := accepted_ofDump h
  have hrooted := rooted_ofDump h
  have hlisted := listed_ofDump h
  have hconsistent := consistent_of_ofDump h
  obtain ⟨-, -, hledger, hcatalogue⟩ := ofDump_eq_ok_iff.mp h
  obtain ⟨-, -, hkeys, hentered⟩ := foldlM_addLocation_eq_ok_iff.mp hledger
  have hroot : r.root.entry ∈ d.threads :=
    hlisted.mem_iff.mp (List.mem_map_of_mem List.mem_cons_self)
  refine ⟨hlisted, sorted_ofDump h, fun t => ⟨?_, ?_⟩, fun p => ?_, fun t ht hbelow => ?_,
    hcatalogue, fun key recorded => ?_⟩
  · rintro ⟨ht, hp⟩
    exact List.inj_on_of_nodup_map hconsistent.positions ht hroot
      (hp.trans hrooted.root_position.symm)
  · rintro rfl
    exact ⟨hroot, hrooted.root_position⟩
  · -- a place is taken by one listed thread at most
    have hfind : (r.threadAt? p).map ThreadId.entry =
        (r.threads.map ThreadId.entry).find? (·.position == p) := by
      rw [List.find?_map]
      rfl
    have hpositions := (hlisted.map ThreadEntry.position).nodup_iff.mpr hconsistent.positions
    rw [hfind]
    ext t
    rw [find?_eq_some_iff_of_nodup hpositions, find?_eq_some_iff_of_nodup hconsistent.positions,
      hlisted.mem_iff]
  · have hplace : r.threadAt? (t.position.dropLast ++ [t.position.getLast hbelow]) = some t := by
      rw [List.dropLast_concat_getLast]
      exact haccepted.threadAt?_eq_some_iff.mpr ⟨ht, rfl⟩
    exact threadAt?_concat haccepted hrooted hplace
  · rw [hentered]
    exact getElem?_foldl_enter hkeys

/-- **The order in which a dump lists its threads and its locations makes no difference.** -/
theorem ofDump_perm (h : ofDump d = .ok r) (hthreads : d'.threads.Perm d.threads)
    (hlocations : d'.locations.Perm d.locations) (hcatalogue : d'.sharedFields = d.sharedFields) :
    ofDump d' = .ok r := by
  have hconsistent := consistent_of_ofDump h
  obtain ⟨hgrow, hroot, hledger, hshared⟩ := ofDump_eq_ok_iff.mp h
  obtain ⟨hmade, -, hkeys, hentered⟩ := foldlM_addLocation_eq_ok_iff.mp hledger
  have hsame : growTree d'.threads = growTree d.threads := by
    rw [growTree, growTree, sorted_eq_of_perm hthreads.symm hconsistent.positions]
  have hkeys' : (d'.locations.map LocationEntry.key).Nodup :=
    (hlocations.map _).nodup_iff.mpr hkeys
  have hledger' : r.accesses = d'.locations.foldl enter ∅ := by
    rw [hentered]
    refine Std.ExtTreeMap.ext_getElem? fun key => Option.ext fun recorded => ?_
    rw [getElem?_foldl_enter hkeys, getElem?_foldl_enter hkeys']
    simp only [hlocations.mem_iff]
  refine ofDump_eq_ok_iff.mpr ⟨hsame.trans hgrow, hroot, ?_, hshared.trans hcatalogue.symm⟩
  refine foldlM_addLocation_eq_ok_iff.mpr ⟨fun l hl => ?_, by simp, hkeys', hledger'⟩
  exact hmade l (hlocations.mem_iff.mp hl)

/-- **A dump is accepted exactly if it is consistent**, in whatever order it lists things.  The
recording then has its threads by their places from the root on, each with the parent that was
recorded, and for each location what happened there; and any other order of the threads and the
locations gives the same recording. -/
theorem accepted_iff_consistent (d : Dump) : ((∃ r, ofDump d = .ok r) ↔ d.Consistent) ∧
    ∀ r, ofDump d = .ok r → r.Represents d ∧
      ∀ d' : Dump, d'.threads.Perm d.threads → d'.locations.Perm d.locations →
        d'.sharedFields = d.sharedFields → ofDump d' = .ok r := by
  refine ⟨⟨?_, exists_ofDump⟩, fun r h => ⟨represents_ofDump h, fun d' => ofDump_perm h⟩⟩
  rintro ⟨r, h⟩
  exact consistent_of_ofDump h

/-- Three generations of threads and two locations. -/
def generations : Dump where
  threads := [⟨1, []⟩, ⟨2, [0]⟩, ⟨3, [0, 0]⟩]
  locations :=
    [⟨⟨0⟩, "Box", "value", [⟨2, .write, none⟩]⟩, ⟨⟨1⟩, "Box", "value", [⟨3, .read, none⟩]⟩]

theorem generations_backwards : generations.Consistent ∧ ∃ r, ofDump generations = .ok r ∧
    r.Represents generations ∧
    ofDump ⟨generations.threads.reverse, ∅, generations.locations.reverse⟩ = .ok r := by
  have hconsistent : generations.Consistent := by
    constructor <;> decide
  obtain ⟨haccepted, hbuilt⟩ := accepted_iff_consistent generations
  obtain ⟨r, h⟩ := haccepted.mpr hconsistent
  obtain ⟨hrepresents, horder⟩ := hbuilt r h
  refine ⟨hconsistent, r, h, hrepresents, ?_⟩
  exact horder _ (List.reverse_perm _) (List.reverse_perm _) rfl

end Recording
end AccessReplay
