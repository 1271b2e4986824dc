import AccessReplay.Proofs.KeyedLists
import AccessReplay.Proofs.SpawnTreePlaces

/-!
# What is kept is a spawn tree

Announcements come from anywhere: a thread may be announced by a parent that nobody knows, by
itself, or once again, and the root as somebody's child.  What is kept is a tree all the same
(`IsTree`): no two threads stand at the same place, above a thread stands its parent, below it its
children one after the other, and they are listed by their places from the root on.
-/
namespace AccessReplay.SpawnTree

/-- The live threads form a tree. -/
structure IsTree (t : SpawnTree) : Prop where
  /-- A thread is known under its own runtime id. -/
  raw_eq : ∀ raw (node : SpawnNode), t.nodes[raw]? = some node → node.id.raw = raw
  /-- A place is taken by one thread. -/
  place_unique : ∀ a b id id', t.find? a = some id → t.find? b = some id' →
    id.position = id'.position → a = b
  /-- With a place, all those on the way to it are taken. -/
  places_above : ∀ raw id place, t.find? raw = some id → place <+: id.position →
    ∃ above id', t.find? above = some id' ∧ id'.position = place
  /-- The children of a thread stand at the indices that it has given out, one at each. -/
  indices : ∀ raw (node : SpawnNode), t.nodes[raw]? = some node →
    ((t.children raw).map ThreadId.position).Perm
      ((List.range node.nextChild.toNat).map fun i => node.id.position ++ [UInt32.ofNat i])
  /-- A thread other than the root has the thread above it as its parent. -/
  parent : ∀ raw id, t.find? raw = some id → raw ≠ t.root →
    ∃ parent, id.parent? = some parent ∧ t.find? parent.raw = some parent ∧
      id.position ≠ [] ∧ parent.position = id.position.dropLast
  /-- All live threads are listed, and nobody else. -/
  listed : ∀ id, id ∈ t.threads ↔ ∃ raw, t.find? raw = some id
  /-- They are listed by their places. -/
  sorted : t.threads.Pairwise fun a b => compare a.position b.position = .lt
  /-- The root is listed first. -/
  root_first : t.threads.head? = some (.root t.root)

variable {t s : SpawnTree} {kids : Offspring} {root raw parent child a p : RuntimeId}
  {id : ThreadId} {node : SpawnNode} {run : List Announcement} {place : Position}

/-! ## Who is listed -/

theorem threads_perm (t : SpawnTree) :
    t.threads.Perm (t.nodes.toList.map fun entry => entry.2.id) := by
  rw [threads, values_eq_map_snd, List.map_map]
  exact List.mergeSort_perm ..

theorem mem_threads_iff : id ∈ t.threads ↔ ∃ raw, t.find? raw = some id :=
  t.threads_perm.mem_iff.trans mem_identities_iff

namespace Populated

/-- No place is listed twice. -/
theorem nodup_positions (h : Populated kids s) (hfew : s.FewChildren) :
    ((s.nodes.toList.map fun entry => entry.2.id).map ThreadId.position).Nodup := by
  rw [List.map_map, List.Nodup, List.pairwise_map]
  refine Std.ExtTreeMap.distinct_keys_toList.imp_of_mem fun {x y} hx hy hxy hposition => ?_
  have hx := find?_of_getElem? (Std.ExtTreeMap.mem_toList_iff_getElem?_eq_some.mp hx)
  have hy := find?_of_getElem? (Std.ExtTreeMap.mem_toList_iff_getElem?_eq_some.mp hy)
  exact hxy (Std.compare_eq_iff_eq.mpr (h.eq_of_position_eq hfew hx hy hposition))

/-- **The children of a thread stand at the indices that it has given out.** -/
theorem children_perm (h : Populated kids s) (hfew : s.FewChildren)
    (hnode : s.nodes[p]? = some node) : ((s.children p).map ThreadId.position).Perm
      ((List.range node.nextChild.toNat).map fun i => node.id.position ++ [UInt32.ofNat i]) := by
  have hp : s.find? p = some node.id := find?_of_getElem? hnode
  have hlt := h.length_lt hfew p
  have hgiven : node.nextChild.toNat = (kids p).length := by
    rw [h.counted p node hnode, UInt32.toNat_ofNat_of_lt' hlt]
  refine (List.perm_ext_iff_of_nodup ?_ ?_).mpr fun place => ?_
  · exact (List.filter_sublist.map _).nodup (h.nodup_positions hfew)
  · refine List.nodup_range.map_on fun i hi j hj hij => ?_
    rw [List.mem_range, hgiven] at hi hj
    exact (concat_index_inj (Nat.lt_trans hi hlt) (Nat.lt_trans hj hlt) hij).2
  · simp only [List.mem_map, List.mem_range, hgiven, h.mem_children_iff]
    constructor
    · rintro ⟨_, ⟨i, c, above, hi, habove, rfl⟩, rfl⟩
      obtain rfl := Option.some.inj (hp.symm.trans habove)
      exact ⟨i, (List.getElem?_eq_some_iff.mp hi).1, rfl⟩
    · rintro ⟨i, hi, rfl⟩
      exact ⟨_, ⟨i, _, node.id, List.getElem?_eq_getElem hi, hp, rfl⟩, rfl⟩

/-! ## Places -/

/-- **With a place, all those on the way to it are taken.** -/
theorem exists_above (h : Populated kids s) (ha : s.find? a = some id)
    (hplace : place <+: id.position) :
    ∃ above id', s.find? above = some id' ∧ id'.position = place := by
  -- the induction goes up the path to the root
  induction id generalizing a with
  | root raw => exact ⟨a, _, ha, (List.prefix_nil.mp hplace).symm⟩
  | child above raw index ih =>
    rcases List.prefix_concat_iff.mp hplace with rfl | hplace
    · exact ⟨a, _, ha, rfl⟩
    · exact ih (h.find?_parent ha rfl) hplace

/-- A thread other than the root stands right below its parent. -/
theorem exists_parent (h : Populated kids s) (ha : s.find? a = some id) (hroot : a ≠ s.root) :
    ∃ above, id.parent? = some above ∧ s.find? above.raw = some above ∧
      id.position ≠ [] ∧ above.position = id.position.dropLast := by
  rcases h.root_or_child ha with ⟨hroot', -⟩ | ⟨p, i, above, -, -, rfl⟩
  · exact absurd hroot' hroot
  · exact ⟨above, rfl, h.find?_parent ha rfl, by simp, by simp⟩

/-! ## The order of the list -/

theorem sorted_threads (h : Populated kids s) (hfew : s.FewChildren) :
    s.threads.Pairwise fun a b => compare a.position b.position = .lt :=
  pairwise_lt_of_nodup ((s.threads_perm.map _).nodup_iff.mpr (h.nodup_positions hfew))
    (pairwise_isLE_mergeSort ThreadId.position _)

/-- The root is listed, and nothing comes before its place. -/
theorem head?_threads (h : Populated kids s) (hfew : s.FewChildren) :
    s.threads.head? = some (.root s.root) := by
  have hmem : ThreadId.root s.root ∈ s.threads := mem_threads_iff.mpr ⟨_, h.find?_root⟩
  have hsorted := h.sorted_threads hfew
  revert hmem hsorted
  cases s.threads with
  | nil => simp
  | cons first others =>
    intro hmem hsorted
    rcases List.mem_cons.mp hmem with rfl | hmem
    · rfl
    · have hlt := (List.pairwise_cons.mp hsorted).1 _ hmem
      cases hposition : first.position <;> simp [hposition, ThreadId.position] at hlt

/-- **What is populated is a tree**, as long as no thread has used its indices up. -/
theorem isTree (h : Populated kids s) (hfew : s.FewChildren) : s.IsTree where
  raw_eq := h.keyed.raw_eq
  place_unique _ _ _ _ ha hb hposition := h.eq_of_position_eq hfew ha hb hposition
  places_above _ _ _ ha hplace := h.exists_above ha hplace
  indices _ _ hnode := h.children_perm hfew hnode
  parent _ _ ha hroot := h.exists_parent ha hroot
  listed _ := mem_threads_iff
  sorted := h.sorted_threads hfew
  root_first := h.head?_threads hfew

end Populated

/-! ## Announcements -/

theorem root_grow (root : RuntimeId) (run : List Announcement) : (grow root run).root = root := by
  induction run using List.reverseRecOn with
  | nil => rfl
  | append_singleton run a ih => rw [grow_concat, root_start, ih]

/-- Whatever is announced, the tree that is kept stays populated. -/
theorem populated_grow (root : RuntimeId) (run : List Announcement) :
    ∃ kids, Populated kids (grow root run) := by
  induction run using List.reverseRecOn with
  | nil => exact ⟨_, .ofRoot root⟩
  | append_singleton run a ih =>
    obtain ⟨kids, h⟩ := ih
    rw [grow_concat]
    exact h.start a.parent a.child

/-- The threads that are known are those that were announced, and the root. -/
theorem known_grow_iff : (∃ id, (grow root run).find? raw = some id) ↔
    raw = root ∨ ∃ a ∈ run, a.child = raw := by
  induction run using List.reverseRecOn with
  | nil =>
    rw [show grow root [] = ofRoot root from rfl, mirrors_ofRoot.known, known_nothing_iff]
    simp
  | append_singleton run a ih =>
    have hkeyed := keyed_grow root run
    rw [grow_concat]
    by_cases hchild : a.child = raw
    · subst hchild
      exact iff_of_true ⟨_, find?_start_self⟩ (.inr ⟨a, by simp, rfl⟩)
    · rw [find?_start_of_ne hkeyed hchild, ih]
      simp [or_and_right, exists_or, hchild]

/-- A thread that was not known becomes a child of its parent, or of the root where the parent is
not known either. -/
theorem parent?_start_of_new (h : t.find? child = none) :
    (t.start parent child).2.parent? = some ((t.find? parent).getD t.rootId) := by
  have hchild : t.nodes[child]? = none := Option.map_eq_none_iff.mp h
  simp only [start, hchild, ThreadId.parent?, parentNode, find?,
    Std.ExtTreeMap.getD_eq_getD_getElem?]
  cases t.nodes[parent]? <;> rfl

theorem rootId_grow (root : RuntimeId) (run : List Announcement) :
    (grow root run).rootId = .root root := by
  obtain ⟨kids, h⟩ := populated_grow root run
  have hroot := h.find?_root.symm.trans h.keyed.find?_root
  rw [← Option.some.inj hroot, root_grow]

/-- **What is announced grows a tree**, whoever is announced, by whatever parent, and however often,
as long as no thread starts as many others as there are indices.  The threads of the tree are those
that were announced, and the root.  Nobody's identity ever changes: a thread keeps the one that it
was first announced with, as the child of its parent then, or of the root where the parent was not
known. -/
theorem announced_grow_tree (hfew : (grow root run).FewChildren) :
    (grow root run).IsTree ∧ (grow root run).root = root ∧
    (∀ raw, (∃ id, (grow root run).find? raw = some id) ↔
      raw = root ∨ ∃ a ∈ run, a.child = raw) ∧
    (∀ before after, run = before ++ after → ∀ raw id,
      (grow root before).find? raw = some id → (grow root run).find? raw = some id) ∧
    ∀ before parent child after, run = before ++ ⟨parent, child⟩ :: after →
      (grow root run).find? child = some ((grow root before).start parent child).2 ∧
      ((grow root before).find? child = none →
        ((grow root before).start parent child).2.parent? =
          some (((grow root before).find? parent).getD (.root root))) := by
  obtain ⟨kids, h⟩ := populated_grow root run
  refine ⟨h.isTree hfew, root_grow root run, fun raw => known_grow_iff, ?_, ?_⟩
  · rintro before after rfl raw id hknown
    exact find?_grow_append hknown
  · rintro before parent child after rfl
    refine ⟨find?_grow_of_announced root before after parent child, fun hnew => ?_⟩
    rw [parent?_start_of_new hnew, rootId_grow]

/-- A stranger announces a thread, which starts another one and announces itself again; that one
announces the root; a thread that nobody knows announces itself; and the root announces a thread
that another one has started. -/
def strays : List Announcement := [⟨999, 10⟩, ⟨10, 20⟩, ⟨10, 10⟩, ⟨20, 1⟩, ⟨30, 30⟩, ⟨1, 20⟩]

theorem strays_grow_tree : (grow 1 strays).FewChildren ∧ (grow 1 strays).IsTree ∧
    (¬∃ id, (grow 1 strays).find? 999 = some id) ∧
    (grow 1 strays).find? 20 = some (((ThreadId.root 1).child 10 0).child 20 0) ∧
    ∃ id, (grow 1 strays).find? 30 = some id ∧ id.parent? = some (.root 1) := by
  have hfew : (grow 1 strays).FewChildren := fewChildren_of_size (by decide)
  obtain ⟨htree, -, hknown, hkeep, hannounced⟩ := announced_grow_tree hfew
  refine ⟨hfew, htree, ?_, ?_, ?_⟩
  · rw [hknown]
    decide
  · exact hkeep [⟨999, 10⟩, ⟨10, 20⟩] _ rfl 20 _ (by decide)
  · obtain ⟨hself, hparent⟩ :=
      hannounced [⟨999, 10⟩, ⟨10, 20⟩, ⟨10, 10⟩, ⟨20, 1⟩] 30 30 [⟨1, 20⟩] rfl
    exact ⟨_, hself, hparent (by decide)⟩

end AccessReplay.SpawnTree
