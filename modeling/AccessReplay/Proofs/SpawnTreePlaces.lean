import AccessReplay.Proofs.SpawnCorrelation
import Mathlib.Data.List.Perm.Subperm

/-!
# Places in a live spawn tree

Whoever is announced, by whatever parent, the tree that is kept is one of children in the order
they were started (`Populated`): a parent that is not known counts as the root.  As long as no
thread starts as many children as there are indices, a place in the tree is taken by one thread
(`eq_of_position_eq`).
-/
namespace AccessReplay.SpawnTree

/-- The live threads that a thread has started. -/
def children (t : SpawnTree) (parent : RuntimeId) : List ThreadId :=
  (t.nodes.toList.map fun entry => entry.2.id).filter fun id =>
    id.parent?.map ThreadId.raw = some parent

/-- No thread has started as many children as there are indices. -/
def FewChildren (t : SpawnTree) : Prop := ∀ parent, (t.children parent).length < UInt32.size

/-- The tree agrees with a family in which nobody is started twice. -/
structure Populated (kids : Offspring) (s : SpawnTree) : Prop extends Mirrors s.root kids s where
  nodup : ∀ p, (kids p).Nodup

variable {root parent child p c a b : RuntimeId} {kids : Offspring} {s : SpawnTree} {i : Nat}
  {id id' : ThreadId}

/-- A parent that is not known counts as the root. -/
theorem Keyed.start_of_unknown (h : Keyed s) (hp : s.nodes[parent]? = none) (child : RuntimeId) :
    s.start parent child = s.start s.root child := by
  have hparent : s.parentNode parent = s.parentNode s.root := by
    rw [parentNode_of_getElem? h.getElem?_root]
    simp [parentNode, Std.ExtTreeMap.getD_eq_getD_getElem?, hp]
  simp only [SpawnTree.start, hparent]

/-- In a tree with fewer threads than there are indices, no thread has used them up. -/
theorem fewChildren_of_size (h : s.nodes.size < UInt32.size) : s.FewChildren := by
  intro parent
  refine Nat.lt_of_le_of_lt (List.length_filter_le ..) ?_
  rwa [List.length_map, Std.ExtTreeMap.length_toList]

/-- A place tells the one above it and the index below that. -/
theorem concat_index_inj {p q : Position} {i j : Nat} (hi : i < UInt32.size)
    (hj : j < UInt32.size) (h : p ++ [UInt32.ofNat i] = q ++ [UInt32.ofNat j]) :
    p = q ∧ i = j := by
  obtain ⟨hpq, hindex⟩ := List.append_inj' h rfl
  have hnat := congrArg UInt32.toNat (List.singleton_inj.mp hindex)
  rw [UInt32.toNat_ofNat_of_lt' hi, UInt32.toNat_ofNat_of_lt' hj] at hnat
  exact ⟨hpq, hnat⟩

theorem mem_identities_iff :
    (id ∈ s.nodes.toList.map fun entry => entry.2.id) ↔ ∃ raw, s.find? raw = some id := by
  simp only [List.mem_map, Prod.exists, Std.ExtTreeMap.mem_toList_iff_getElem?_eq_some,
    find?_eq_some_iff]

namespace Populated

theorem ofRoot (root : RuntimeId) : Populated (fun _ => []) (ofRoot root) where
  toMirrors := mirrors_ofRoot
  nodup _ := List.nodup_nil

/-- What is noted of matches makes no difference. -/
theorem withCounterparts (h : Populated kids s)
    (counterparts : Std.ExtTreeMap RuntimeId RuntimeId) :
    Populated kids { s with counterparts } where
  keyed := ⟨h.keyed.root_known, h.keyed.raw_eq⟩
  find?_root := h.find?_root
  find?_child := h.find?_child
  counted := h.counted
  known := h.known
  nodup := h.nodup

theorem first (h : Populated kids s) (hparent : Known s.root kids parent)
    (hchild : ¬Known s.root kids child) :
    Populated (Function.update kids parent (kids parent ++ [child])) (s.start parent child).1 where
  toMirrors := by
    rw [root_start]
    exact h.toMirrors.first hparent hchild
  nodup p := by
    by_cases hp : p = parent
    · subst hp
      have hnew : child ∉ kids p := fun hmem => hchild (.inr ⟨p, hmem⟩)
      rw [Function.update_self]
      refine List.nodup_append.mpr ⟨h.nodup p, by simp, ?_⟩
      intro a ha b hb
      rw [List.mem_singleton.mp hb]
      rintro rfl
      exact hnew ha
    · rw [Function.update_of_ne hp]
      exact h.nodup p

/-- **Starting a thread keeps a tree populated**, whoever is announced as its parent. -/
theorem start (h : Populated kids s) (parent child : RuntimeId) :
    ∃ kids', Populated kids' (s.start parent child).1 := by
  by_cases hchild : Known s.root kids child
  · refine ⟨kids, ?_⟩
    rw [h.toMirrors.again hchild]
    exact h
  by_cases hparent : Known s.root kids parent
  · exact ⟨_, h.first hparent hchild⟩
  · rw [h.keyed.start_of_unknown (h.getElem?_of_unknown hparent)]
    exact ⟨_, h.first (.inl rfl) hchild⟩

/-! ## Who stands where -/

/-- The thread of an identity is the root, or the child of another one at its index. -/
theorem root_or_child (h : Populated kids s) (ha : s.find? a = some id) :
    (a = s.root ∧ id = .root s.root) ∨ ∃ p i parent, (kids p)[i]? = some a ∧
      s.find? p = some parent ∧ id = parent.child a (.ofNat i) := by
  rcases (h.known a).mp ⟨id, ha⟩ with rfl | ⟨p, hp⟩
  · exact .inl ⟨rfl, Option.some.inj (ha.symm.trans h.find?_root)⟩
  · obtain ⟨i, hi⟩ := List.mem_iff_getElem?.mp hp
    obtain ⟨parent, hparent, hchild⟩ := h.find?_child p i a hi
    exact .inr ⟨p, i, parent, hi, hparent, Option.some.inj (ha.symm.trans hchild)⟩

/-- The parent of a live thread is live. -/
theorem find?_parent {parent : ThreadId} (h : Populated kids s) (ha : s.find? a = some id)
    (hparent : id.parent? = some parent) : s.find? parent.raw = some parent := by
  rcases h.root_or_child ha with ⟨-, rfl⟩ | ⟨p, i, q, -, hq, rfl⟩
  · cases hparent
  · obtain rfl : q = parent := Option.some.inj hparent
    rwa [h.keyed.raw_of_find? hq]

/-- The children of a thread are those that it started, each at its index. -/
theorem mem_children_iff (h : Populated kids s) : id ∈ s.children p ↔
    ∃ i c above, (kids p)[i]? = some c ∧ s.find? p = some above ∧
      id = above.child c (.ofNat i) := by
  rw [children, List.mem_filter, mem_identities_iff, decide_eq_true_eq]
  constructor
  · rintro ⟨⟨raw, hraw⟩, hparent⟩
    rcases h.root_or_child hraw with ⟨-, rfl⟩ | ⟨q, i, above, hi, hq, rfl⟩
    · cases hparent
    · obtain rfl : q = p := (h.keyed.raw_of_find? hq).symm.trans (Option.some.inj hparent)
      exact ⟨i, raw, above, hi, hq, rfl⟩
  · rintro ⟨i, c, above, hi, hp, rfl⟩
    obtain ⟨above', hp', hc⟩ := h.find?_child p i c hi
    obtain rfl := Option.some.inj (hp.symm.trans hp')
    exact ⟨⟨c, hc⟩, congrArg some (h.keyed.raw_of_find? hp)⟩

/-- A thread that has not used its indices up has started fewer children than there are. -/
theorem length_lt (h : Populated kids s) (hfew : s.FewChildren) (p : RuntimeId) :
    (kids p).length < UInt32.size := by
  have hsubset : kids p ⊆ (s.children p).map ThreadId.raw := by
    intro c hc
    obtain ⟨i, hi⟩ := List.mem_iff_getElem?.mp hc
    obtain ⟨above, hp, -⟩ := h.find?_child p i c hi
    exact List.mem_map.mpr
      ⟨above.child c (.ofNat i), h.mem_children_iff.mpr ⟨i, c, above, hi, hp, rfl⟩, rfl⟩
  have hle := (List.subperm_of_subset (h.nodup p) hsubset).length_le
  rw [List.length_map] at hle
  exact Nat.lt_of_le_of_lt hle (hfew p)

/-- The index of a child is one of 32 bits. -/
theorem index_lt (h : Populated kids s) (hfew : s.FewChildren) (hi : (kids p)[i]? = some c) :
    i < UInt32.size :=
  Nat.lt_trans (List.getElem?_eq_some_iff.mp hi).1 (h.length_lt hfew p)

/-- **A place in the tree is taken by one thread.** -/
theorem eq_of_position_eq (h : Populated kids s) (hfew : s.FewChildren)
    (ha : s.find? a = some id) (hb : s.find? b = some id') (he : id.position = id'.position) :
    a = b := by
  -- the induction goes up the path to the root, where the two threads' parents are the same
  induction id generalizing a b id' with
  | root raw =>
    rcases h.root_or_child ha with ⟨rfl, -⟩ | ⟨_, _, _, -, -, hid⟩
    · rcases h.root_or_child hb with ⟨rfl, -⟩ | ⟨_, _, _, -, -, rfl⟩
      · rfl
      · simp [ThreadId.position] at he
    · cases hid
  | child parent raw index ih =>
    rcases h.root_or_child ha with ⟨-, hid⟩ | ⟨p, i, above, hi, hp, hid⟩
    · cases hid
    · cases hid
      rcases h.root_or_child hb with ⟨-, rfl⟩ | ⟨q, j, above, hj, hq, rfl⟩
      · simp [ThreadId.position] at he
      · obtain ⟨hpositions, rfl⟩ :=
          concat_index_inj (h.index_lt hfew hi) (h.index_lt hfew hj) he
        obtain rfl : p = q := ih hp hq hpositions
        exact Option.some.inj (hi.symm.trans hj)

end Populated
end AccessReplay.SpawnTree
