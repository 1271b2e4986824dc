import AccessReplay.Thread.SpawnTree

/-!
# How a spawn tree grows

A spawn tree keeps every thread under its own runtime id (`Keyed`).  Starting a thread that
is not known adds it as the next child of its parent, and counts it there; the threads
that are known keep their identities, whatever is started after them (`find?_start`).
-/
namespace AccessReplay.SpawnTree

variable {t : SpawnTree} {parent child raw : RuntimeId} {node : SpawnNode} {id : ThreadId}

theorem find?_eq_some_iff :
    t.find? raw = some id ↔ ∃ node, t.nodes[raw]? = some node ∧ node.id = id := by
  simp [find?]

theorem find?_of_getElem? (h : t.nodes[raw]? = some node) : t.find? raw = some node.id := by
  simp [find?, h]

/-- The root is known, and each thread is kept under its own runtime id. -/
structure Keyed (t : SpawnTree) : Prop where
  root_known : ∃ node, t.nodes[t.root]? = some node
  raw_eq : ∀ raw (node : SpawnNode), t.nodes[raw]? = some node → node.id.raw = raw

theorem keyed_ofRoot (raw : RuntimeId) : (ofRoot raw).Keyed where
  root_known := ⟨⟨.root raw, 0⟩, by simp [ofRoot]⟩
  raw_eq r node h := by
    simp only [ofRoot, Std.ExtTreeMap.getElem?_insert, Std.compare_eq_iff_eq] at h
    split at h
    · next hr =>
      cases h
      exact hr
    · simp at h

namespace Keyed

theorem getElem?_root (h : Keyed t) : t.nodes[t.root]? = some t.rootNode := by
  obtain ⟨node, hnode⟩ := h.root_known
  rw [rootNode, Std.ExtTreeMap.getD_eq_getD_getElem?, hnode]
  rfl

theorem find?_root (h : Keyed t) : t.find? t.root = some t.rootId :=
  find?_of_getElem? h.getElem?_root

theorem raw_rootId (h : Keyed t) : t.rootId.raw = t.root := h.raw_eq _ _ h.getElem?_root

theorem raw_of_find? (hk : Keyed t) (h : t.find? raw = some id) :
    id.raw = raw := by
  obtain ⟨node, hnode, rfl⟩ := find?_eq_some_iff.mp h
  exact hk.raw_eq raw node hnode

end Keyed

theorem parentNode_of_getElem? (h : t.nodes[parent]? = some node) : t.parentNode parent = node := by
  simp [parentNode, Std.ExtTreeMap.getD_eq_getD_getElem?, h]

/-- A thread's parent is known, be it only as the root. -/
theorem Keyed.getElem?_parentNode (h : Keyed t) (parent : RuntimeId) :
    t.nodes[(t.parentNode parent).id.raw]? = some (t.parentNode parent) := by
  cases hp : t.nodes[parent]? with
  | none =>
    have hroot : t.parentNode parent = t.rootNode := by
      simp [parentNode, Std.ExtTreeMap.getD_eq_getD_getElem?, hp]
    rw [hroot, h.raw_eq _ _ h.getElem?_root]
    exact h.getElem?_root
  | some node =>
    rw [parentNode_of_getElem? hp, h.raw_eq _ _ hp]
    exact hp

/-! ## Starting a thread -/

theorem start_of_known (h : t.nodes[child]? = some node) :
    t.start parent child = (t, node.id) := by
  simp [start, h]

@[simp] theorem root_start : (t.start parent child).1.root = t.root := by
  unfold start
  split <;> rfl

/-- What is kept of each thread once a new one is started. -/
theorem getElem?_start_of_new (h : t.nodes[child]? = none) :
    (t.start parent child).1.nodes[raw]? =
      if child = raw then
        some ⟨(t.parentNode parent).id.child child (t.parentNode parent).nextChild, 0⟩
      else if (t.parentNode parent).id.raw = raw then
        some { t.parentNode parent with nextChild := (t.parentNode parent).nextChild + 1 }
      else t.nodes[raw]? := by
  simp [start, h, Std.ExtTreeMap.getElem?_insert]

/-- A thread that is started is known afterwards, with the identity that was answered. -/
theorem find?_start_self :
    (t.start parent child).1.find? child = some (t.start parent child).2 := by
  unfold start
  split
  · next node hnode => exact find?_of_getElem? hnode
  · simp [find?]

/-- **A known thread keeps its identity.** -/
theorem find?_start (hk : Keyed t) (h : t.find? raw = some id) :
    (t.start parent child).1.find? raw = some id := by
  cases hc : t.nodes[child]? with
  | some node => rwa [start_of_known hc]
  | none =>
    obtain ⟨node, hnode, rfl⟩ := find?_eq_some_iff.mp h
    have hne : child ≠ raw := by
      rintro rfl
      simp [hc] at hnode
    refine find?_eq_some_iff.mpr ?_
    rw [getElem?_start_of_new hc, if_neg hne]
    split
    · next hp =>
      -- the parent is counted one more child, and stays who it is
      have hparent := hk.getElem?_parentNode parent
      rw [hp, hnode] at hparent
      obtain rfl := Option.some.inj hparent
      exact ⟨_, rfl, rfl⟩
    · exact ⟨node, hnode, rfl⟩

/-- Threads other than the one that is started stay as they are. -/
theorem find?_start_of_ne (hk : Keyed t) (hne : child ≠ raw) :
    (t.start parent child).1.find? raw = t.find? raw := by
  cases hc : t.nodes[child]? with
  | some node => rw [start_of_known hc]
  | none =>
    rw [find?, getElem?_start_of_new hc, if_neg hne]
    split
    · next hp =>
      have hparent := hk.getElem?_parentNode parent
      rw [hp] at hparent
      rw [find?_of_getElem? hparent]
      rfl
    · rfl

theorem Keyed.start (hk : Keyed t) (parent child : RuntimeId) :
    Keyed (t.start parent child).1 where
  root_known := by
    have hroot : (t.start parent child).1.find? t.root = some t.rootId :=
      find?_start hk hk.find?_root
    rw [root_start]
    obtain ⟨node, hnode, -⟩ := find?_eq_some_iff.mp hroot
    exact ⟨node, hnode⟩
  raw_eq raw node h := by
    cases hc : t.nodes[child]? with
    | some old =>
      rw [start_of_known hc] at h
      exact hk.raw_eq raw node h
    | none =>
      rw [getElem?_start_of_new hc] at h
      split at h
      · next he =>
        cases h
        exact he
      · split at h
        · next hp =>
          cases h
          exact hp
        · exact hk.raw_eq raw node h

end AccessReplay.SpawnTree
