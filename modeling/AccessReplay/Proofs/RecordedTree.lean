import AccessReplay.Proofs.AcceptedRecordings
import AccessReplay.Proofs.KeyedLists
import AccessReplay.Thread.SpawnTree

/-!
# The recorded spawn tree

The threads of an accepted dump form a tree: the root comes first, and with each thread the
tree has the one that started it (`Rooted`).  A place in the tree is therefore taken by one
thread at most, whose parent stands at the place above it (`threadAt?_concat`).
-/
namespace AccessReplay

namespace Recording

/-- The root stands at the empty position, and each other thread below one of the recording. -/
structure Rooted (r : Recording) : Prop where
  root_position : r.root.position = []
  parent_mem : ∀ t ∈ r.threads, ∀ parent, t.parent? = some parent → parent ∈ r.threads

/-- A thread that gets its place becomes the child of a known one, if of any. -/
theorem parent_mem_of_addThread {known known' : List ThreadId} {t : ThreadEntry}
    (h : addThread known t = .ok known') :
    ∃ new : ThreadId, known' = known ++ [new] ∧
      ∀ parent, new.parent? = some parent → parent ∈ known := by
  unfold addThread at h
  split at h
  · cases h
  split at h
  · cases h
  split at h
  · cases h
    refine ⟨.root t.id, rfl, ?_⟩
    intro parent hparent
    cases hparent
  · next index _ =>
    split at h
    · next parent hfound =>
      cases h
      refine ⟨parent.child t.id index, rfl, ?_⟩
      intro parent' hparent
      obtain rfl : parent = parent' := Option.some.inj hparent
      exact List.mem_of_find?_eq_some hfound
    · cases h

theorem parent_mem_of_growTree {entries : List ThreadEntry} {threads : List ThreadId}
    (h : growTree entries = .ok threads) :
    ∀ t ∈ threads, ∀ parent, t.parent? = some parent → parent ∈ threads := by
  refine foldlM_keeps
    (fun known => ∀ t ∈ known, ∀ parent, t.parent? = some parent → parent ∈ known)
    ?_ (by simp) h
  intro entry _ known known' hknown hadd t ht parent hparent
  obtain ⟨new, rfl, hnew⟩ := parent_mem_of_addThread hadd
  apply List.mem_append_left
  rcases List.mem_append.mp ht with ht | ht
  · exact hknown t ht parent hparent
  · rw [List.mem_singleton.mp ht] at hparent
    exact hnew parent hparent

/-- **The threads of an accepted dump form a tree.** -/
theorem rooted_ofDump {d : Dump} {r : Recording} (h : ofDump d = .ok r) : r.Rooted := by
  obtain ⟨hgrow, hroot, -, -⟩ := ofDump_eq_ok_iff.mp h
  exact ⟨ThreadId.isRoot_iff.mp hroot, parent_mem_of_growTree hgrow⟩

/-! ## Places -/

variable {r : Recording} {p : Position} {i : UInt32} {t live live' : ThreadId} {x : RuntimeId}

theorem Accepted.threadAt?_eq_some_iff (ha : r.Accepted) :
    r.threadAt? p = some t ↔ t ∈ r.threads ∧ t.position = p :=
  find?_eq_some_iff_of_nodup ha.positions

theorem threadAt?_nil (h : r.Rooted) : r.threadAt? [] = some r.root := by
  simp [threadAt?, threads, h.root_position]

/-- **Above a recorded thread stands the one that started it.** -/
theorem threadAt?_concat (ha : r.Accepted) (hr : r.Rooted) (h : r.threadAt? (p ++ [i]) = some t) :
    ∃ parent, t.parent? = some parent ∧ r.threadAt? p = some parent := by
  obtain ⟨ht, hp⟩ := ha.threadAt?_eq_some_iff.mp h
  cases t with
  | root raw => simp [ThreadId.position] at hp
  | child parent raw j =>
    have hparent : parent ∈ r.threads := hr.parent_mem _ ht parent rfl
    have hposition : parent.position = p := by
      rw [ThreadId.position_child] at hp
      exact (List.append_inj' hp rfl).1
    exact ⟨parent, rfl, ha.threadAt?_eq_some_iff.mpr ⟨hparent, hposition⟩⟩

/-! ## Counterparts of live threads -/

theorem counterpart?_eq_some_iff (ha : r.Accepted) :
    SpawnTree.counterpart? r live = some x ↔
      ∃ t ∈ r.threads, t.position = live.position ∧ t.raw = x := by
  simp only [SpawnTree.counterpart?, Option.map_eq_some_iff, ha.threadAt?_eq_some_iff, and_assoc]

/-- Live threads with one counterpart stand at one place. -/
theorem position_eq_of_counterpart? (ha : r.Accepted)
    (h : SpawnTree.counterpart? r live = some x) (h' : SpawnTree.counterpart? r live' = some x) :
    live.position = live'.position := by
  obtain ⟨t, ht, hp, hx⟩ := (counterpart?_eq_some_iff ha).mp h
  obtain ⟨t', ht', hp', hx'⟩ := (counterpart?_eq_some_iff ha).mp h'
  have hsame : t = t' := List.inj_on_of_nodup_map ha.raws ht ht' (hx.trans hx'.symm)
  rw [← hp, ← hp', hsame]

/-- **A live thread's counterpart was started by the counterpart of its parent.** -/
theorem counterpart?_parent {parent : ThreadId} (ha : r.Accepted) (hr : r.Rooted)
    (hlive : live.parent? = some parent) (h : SpawnTree.counterpart? r live = some x) :
    ∃ t parent', t ∈ r.threads ∧ t.position = live.position ∧ t.raw = x ∧
      t.parent? = some parent' ∧ parent' ∈ r.threads ∧
      SpawnTree.counterpart? r parent = some parent'.raw := by
  cases live with
  | root raw => cases hlive
  | child p raw i =>
    obtain rfl : p = parent := Option.some.inj hlive
    obtain ⟨t, ht, hp, hx⟩ := (counterpart?_eq_some_iff ha).mp h
    have hplace : r.threadAt? (p.position ++ [i]) = some t :=
      ha.threadAt?_eq_some_iff.mpr ⟨ht, hp⟩
    obtain ⟨parent', hparent, hat⟩ := threadAt?_concat ha hr hplace
    refine ⟨t, parent', ht, hp, hx, hparent, (ha.threadAt?_eq_some_iff.mp hat).1, ?_⟩
    show (r.threadAt? p.position).map ThreadId.raw = some parent'.raw
    rw [hat]
    rfl

end Recording
end AccessReplay
