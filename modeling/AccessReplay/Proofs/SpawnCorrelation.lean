import AccessReplay.Proofs.SpawnTreeGrowth
import Mathlib.Data.List.Induction
import Mathlib.Logic.Function.Basic

/-!
# Threads of two runs correspond

A run announces who starts whom.  What it creates is a spawn tree: the children of each
thread, in the order they were started (`Creates`).  Runtime ids differ from run to run,
and so does the order in which threads of different parents are started; a thread may
also be announced again, by anyone.  None of this shows in a thread's identity, which is
its path of child indices from the root (`PathTo`).

The invariant is local (`Mirrors`): each child stands under its parent with its own index,
and each thread has as many children counted as it has started.
-/
namespace AccessReplay.SpawnTree

/-- "The parent starts the child", as a run announces it. -/
structure Announcement where
  parent : RuntimeId
  child : RuntimeId
deriving DecidableEq, Repr

/-- The spawn tree of a run after its announcements. -/
def grow (root : RuntimeId) (run : List Announcement) : SpawnTree :=
  run.foldl (fun t a => (t.start a.parent a.child).1) (ofRoot root)

/-- The children of each thread, in order. -/
abbrev Offspring := RuntimeId → List RuntimeId

/-- Is it the root or somebody's child? -/
def Known (root : RuntimeId) (kids : Offspring) (t : RuntimeId) : Prop :=
  t = root ∨ ∃ p, t ∈ kids p

/-- The run creates the spawn tree. -/
inductive Creates (root : RuntimeId) : List Announcement → Offspring → Prop
  | nothing : Creates root [] fun _ => []
  /-- A thread that is known starts one that is not, as its next child. -/
  | first {run kids parent child} : Creates root run kids → Known root kids parent →
      ¬Known root kids child →
      Creates root (run ++ [⟨parent, child⟩])
        (Function.update kids parent (kids parent ++ [child]))
  /-- A thread that is known is announced again, by whatever parent. -/
  | again {run kids parent child} : Creates root run kids → Known root kids child →
      Creates root (run ++ [⟨parent, child⟩]) kids

/-- The child indices on the way from the root to a thread. -/
inductive PathTo (root : RuntimeId) (kids : Offspring) : RuntimeId → List Nat → Prop
  | root : PathTo root kids root []
  | child {p c path i} : PathTo root kids p path → (kids p)[i]? = some c →
      PathTo root kids c (path ++ [i])

variable {root parent child t p c : RuntimeId} {run : List Announcement} {kids : Offspring}
  {i : Nat}

theorem grow_concat (a : Announcement) :
    grow root (run ++ [a]) = ((grow root run).start a.parent a.child).1 := by
  simp [grow]

theorem known_of_getElem? (h : (kids p)[i]? = some c) : Known root kids c :=
  .inr ⟨p, List.mem_of_getElem? h⟩

theorem known_nothing_iff : Known root (fun _ => []) t ↔ t = root := by simp [Known]

/-- What is known after one more child. -/
theorem known_update_iff : Known root (Function.update kids parent (kids parent ++ [child])) t ↔
    Known root kids t ∨ t = child := by
  have hmem : ∀ p, t ∈ Function.update kids parent (kids parent ++ [child]) p ↔
      t ∈ kids p ∨ (p = parent ∧ t = child) := by
    intro p
    by_cases hp : p = parent
    · subst hp
      simp
    · simp [hp]
  simp only [Known, hmem]
  constructor
  · rintro (h | ⟨p, h | ⟨-, h⟩⟩)
    · exact .inl (.inl h)
    · exact .inl (.inr ⟨p, h⟩)
    · exact .inr h
  · rintro ((h | ⟨p, h⟩) | h)
    · exact .inl h
    · exact .inr ⟨p, .inl h⟩
    · exact .inr ⟨parent, .inr ⟨rfl, h⟩⟩

/-- Where a child stands after one more child was started. -/
theorem getElem?_update_iff :
    (Function.update kids parent (kids parent ++ [child]) p)[i]? = some c ↔
      (kids p)[i]? = some c ∨ (p = parent ∧ i = (kids parent).length ∧ c = child) := by
  by_cases hp : p = parent
  · subst hp
    rw [Function.update_self]
    rcases Nat.lt_trichotomy i (kids p).length with hi | rfl | hi
    · simp [List.getElem?_append_left hi, Nat.ne_of_lt hi]
    · simp [eq_comm]
    · have hout : (kids p ++ [child])[i]? = none :=
        List.getElem?_eq_none (by simpa using Nat.succ_le_of_lt hi)
      simp [hout, List.getElem?_eq_none (Nat.le_of_lt hi), Nat.ne_of_gt hi]
  · simp [hp]

theorem PathTo.known (h : PathTo root kids t path) : Known root kids t := by
  cases h with
  | root => exact .inl rfl
  | child _ hc => exact known_of_getElem? hc

/-- A thread keeps its place when another one is started. -/
theorem PathTo.update (h : PathTo root kids t path) :
    PathTo root (Function.update kids parent (kids parent ++ [child])) t path := by
  induction h with
  | root => exact .root
  | child _ hi ih => exact .child ih (getElem?_update_iff.mpr (.inl hi))

/-- Every thread of a tree has a place in it. -/
theorem Creates.exists_path (h : Creates root run kids) (ht : Known root kids t) :
    ∃ path, PathTo root kids t path := by
  induction h generalizing t with
  | nothing =>
    rcases ht with rfl | ⟨p, hp⟩
    · exact ⟨[], .root⟩
    · simp at hp
  | first _ hparent _ ih =>
    rcases known_update_iff.mp ht with ht | rfl
    · obtain ⟨path, hpath⟩ := ih ht
      exact ⟨path, hpath.update⟩
    · obtain ⟨path, hpath⟩ := ih hparent
      exact ⟨_, .child hpath.update (getElem?_update_iff.mpr (.inr ⟨rfl, rfl, rfl⟩))⟩
  | again _ _ ih => exact ih ht

/-! ## The tree that is kept -/

/-- The tree that is kept agrees with the one that the run creates. -/
structure Mirrors (root : RuntimeId) (kids : Offspring) (s : SpawnTree) : Prop where
  keyed : Keyed s
  find?_root : s.find? root = some (.root root)
  find?_child : ∀ p i c, (kids p)[i]? = some c →
    ∃ id, s.find? p = some id ∧ s.find? c = some (id.child c (.ofNat i))
  counted : ∀ p (node : SpawnNode), s.nodes[p]? = some node →
    node.nextChild = .ofNat (kids p).length
  known : ∀ t, (∃ id, s.find? t = some id) ↔ Known root kids t

theorem mirrors_ofRoot : Mirrors root (fun _ => []) (ofRoot root) where
  keyed := keyed_ofRoot root
  find?_root := by simp [find?, ofRoot]
  find?_child p i c h := by simp at h
  counted p node h := by
    simp only [ofRoot, Std.ExtTreeMap.getElem?_insert] at h
    split at h
    · cases h
      rfl
    · simp at h
  known t := by
    by_cases ht : root = t
    · subst ht
      simp [Known, find?, ofRoot]
    · simp [Known, find?, ofRoot, ht, Ne.symm ht]

namespace Mirrors

variable {s : SpawnTree}

theorem getElem?_of_unknown (h : Mirrors root kids s) (ht : ¬Known root kids t) :
    s.nodes[t]? = none := by
  rw [← h.known, not_exists] at ht
  cases hn : s.nodes[t]? with
  | none => rfl
  | some node => exact absurd (find?_of_getElem? hn) (ht node.id)

/-- A thread that was not known becomes the next child of its parent. -/
theorem first (h : Mirrors root kids s) (hparent : Known root kids parent)
    (hchild : ¬Known root kids child) :
    Mirrors root (Function.update kids parent (kids parent ++ [child]))
      (s.start parent child).1 := by
  have hnew := h.getElem?_of_unknown hchild
  obtain ⟨id, hid⟩ := (h.known parent).mpr hparent
  obtain ⟨node, hnode, rfl⟩ := find?_eq_some_iff.mp hid
  have hraw := h.keyed.raw_eq parent node hnode
  have hkeep : ∀ {t id}, s.find? t = some id → (s.start parent child).1.find? t = some id :=
    fun ht => SpawnTree.find?_start h.keyed ht
  -- nobody is a child of a thread that is not known
  have hbarren : kids child = [] := by
    refine List.eq_nil_iff_forall_not_mem.mpr fun c hc => ?_
    obtain ⟨i, hi⟩ := List.mem_iff_getElem?.mp hc
    obtain ⟨id, hid, -⟩ := h.find?_child child i c hi
    exact hchild ((h.known child).mp ⟨id, hid⟩)
  constructor
  · exact h.keyed.start parent child
  · exact hkeep h.find?_root
  · intro p i c hc
    rcases getElem?_update_iff.mp hc with hc | ⟨rfl, rfl, rfl⟩
    · obtain ⟨id, hp, hc⟩ := h.find?_child p i c hc
      exact ⟨id, hkeep hp, hkeep hc⟩
    · refine ⟨node.id, hkeep hid, ?_⟩
      rw [find?, getElem?_start_of_new hnew, if_pos rfl, parentNode_of_getElem? hnode,
        h.counted p node hnode]
      rfl
  · intro p node' hp
    rw [getElem?_start_of_new hnew, parentNode_of_getElem? hnode, hraw] at hp
    by_cases hcp : child = p
    · subst hcp
      have hne : child ≠ parent := fun he => hchild (he ▸ hparent)
      rw [if_pos rfl] at hp
      cases hp
      simp [hne, hbarren]
    · rw [if_neg hcp] at hp
      by_cases hpp : parent = p
      · subst hpp
        rw [if_pos rfl] at hp
        cases hp
        simp [h.counted parent node hnode, UInt32.ofNat_add]
      · rw [if_neg hpp] at hp
        simpa [Ne.symm hpp] using h.counted p node' hp
  · intro t
    rw [known_update_iff, ← h.known t]
    constructor
    · rintro ⟨id, ht⟩
      obtain ⟨node', hn, -⟩ := find?_eq_some_iff.mp ht
      rw [getElem?_start_of_new hnew, parentNode_of_getElem? hnode, hraw] at hn
      split at hn
      · next he => exact .inr he.symm
      · split at hn
        · next he => exact .inl (he ▸ ⟨node.id, hid⟩)
        · exact .inl ⟨node'.id, find?_of_getElem? hn⟩
    · rintro (⟨id, ht⟩ | rfl)
      · exact ⟨id, hkeep ht⟩
      · exact ⟨_, find?_start_self⟩

/-- Announcing a thread again changes nothing. -/
theorem again (h : Mirrors root kids s) (hchild : Known root kids child) :
    (s.start parent child).1 = s := by
  obtain ⟨id, hid⟩ := (h.known child).mpr hchild
  obtain ⟨node, hnode, -⟩ := find?_eq_some_iff.mp hid
  rw [start_of_known hnode]

theorem of_creates (h : Creates root run kids) : Mirrors root kids (grow root run) := by
  induction h with
  | nothing => exact mirrors_ofRoot
  | first _ hparent hchild ih =>
    rw [grow_concat]
    exact ih.first hparent hchild
  | again _ hchild ih =>
    rw [grow_concat, ih.again hchild]
    exact ih

end Mirrors

theorem keyed_grow (root : RuntimeId) (run : List Announcement) : Keyed (grow root run) := by
  induction run using List.reverseRecOn with
  | nil => exact keyed_ofRoot root
  | append_singleton run a ih =>
    rw [grow_concat]
    exact ih.start a.parent a.child

/-- A thread that is known keeps its identity, whatever is announced after it. -/
theorem find?_grow_append {before after : List Announcement} {raw : RuntimeId} {id : ThreadId}
    (h : (grow root before).find? raw = some id) :
    (grow root (before ++ after)).find? raw = some id := by
  induction after using List.reverseRecOn with
  | nil => rwa [List.append_nil]
  | append_singleton after a ih =>
    rw [← List.append_assoc, grow_concat]
    exact find?_start (keyed_grow root _) ih

/-- What was answered when a thread was announced is what it is known by ever after. -/
theorem find?_grow_of_announced (root : RuntimeId) (before after : List Announcement)
    (parent child : RuntimeId) :
    (grow root (before ++ ⟨parent, child⟩ :: after)).find? child =
      some ((grow root before).start parent child).2 := by
  rw [List.append_cons]
  apply find?_grow_append
  rw [grow_concat]
  exact find?_start_self

/-! ## Two runs -/

/-- The identities of a thread and its counterpart in another run, each in the tree of its
run, where both stand at the same place. -/
structure Correspond (s₁ s₂ : SpawnTree) (t₁ t₂ : RuntimeId) (path : List Nat)
    (id₁ id₂ : ThreadId) : Prop where
  find?_left : s₁.find? t₁ = some id₁
  find?_right : s₂.find? t₂ = some id₂
  position_left : id₁.position.map UInt32.toNat = path
  position_right : id₂.position.map UInt32.toNat = path

section TwoRuns

variable {root₁ root₂ t₁ t₂ : RuntimeId} {run₁ run₂ : List Announcement}
  {kids₁ kids₂ : Offspring} {ρ : RuntimeId → RuntimeId} {s₁ s₂ : SpawnTree} {path : List Nat}
  {id₁ id₂ : ThreadId}

/-- Identities at the same place denote the same thread. -/
theorem Correspond.same (h : Correspond s₁ s₂ t₁ t₂ path id₁ id₂) : id₁.same id₂ = true := by
  rw [ThreadId.same, beq_iff_eq, ← List.map_inj_right fun _ _ => UInt32.toNat.inj]
  exact h.position_left.trans h.position_right.symm

/-- One more step on the way from the root. -/
theorem Correspond.next (h₁ : Mirrors root₁ kids₁ s₁) (h₂ : Mirrors root₂ kids₂ s₂)
    (hkids : kids₂ (ρ p) = (kids₁ p).map ρ) (hfew : (kids₁ p).length < UInt32.size)
    (hc : (kids₁ p)[i]? = some c) (h : Correspond s₁ s₂ p (ρ p) path id₁ id₂) :
    Correspond s₁ s₂ c (ρ c) (path ++ [i]) (id₁.child c (.ofNat i))
      (id₂.child (ρ c) (.ofNat i)) := by
  have hc₂ : (kids₂ (ρ p))[i]? = some (ρ c) := by simp [hkids, hc]
  have hi : i < UInt32.size := Nat.lt_trans (List.getElem?_eq_some_iff.mp hc).1 hfew
  have hindex : (UInt32.ofNat i).toNat = i := UInt32.toNat_ofNat_of_lt' hi
  obtain ⟨id, hid, hid₁⟩ := h₁.find?_child p i c hc
  obtain rfl := Option.some.inj (h.find?_left.symm.trans hid)
  obtain ⟨id, hid, hid₂⟩ := h₂.find?_child (ρ p) i (ρ c) hc₂
  obtain rfl := Option.some.inj (h.find?_right.symm.trans hid)
  exact ⟨hid₁, hid₂, by simp [h.position_left, hindex], by simp [h.position_right, hindex]⟩

/-- What stands at the end of a path corresponds, and so does its parent. -/
theorem PathTo.correspond (h₁ : Mirrors root₁ kids₁ s₁) (h₂ : Mirrors root₂ kids₂ s₂)
    (hroot : ρ root₁ = root₂) (hkids : ∀ t, Known root₁ kids₁ t → kids₂ (ρ t) = (kids₁ t).map ρ)
    (hfew : ∀ t, (kids₁ t).length < UInt32.size) (hpath : PathTo root₁ kids₁ t path) :
    ∃ id₁ id₂, Correspond s₁ s₂ t (ρ t) path id₁ id₂ := by
  induction hpath with
  | root => exact ⟨_, _, h₁.find?_root, hroot ▸ h₂.find?_root, rfl, rfl⟩
  | child hp hc ih =>
    obtain ⟨id₁, id₂, hid⟩ := ih
    exact ⟨_, _, hid.next h₁ h₂ (hkids _ hp.known) (hfew _) hc⟩

/-- **Corresponding threads of two runs have equal identities.**  Two runs create the same
spawn tree, up to a renaming of its threads.  In whatever order they start the children
of different parents, and whatever they announce again, a thread of one run and its
counterpart in the other

* have, in the trees that are kept, identities whose position is the thread's path of child
  indices, so that they denote the same thread;
* were answered these identities each time they were announced;
* have the identities of corresponding threads as their parents'. -/
theorem runs_correlate (h₁ : Creates root₁ run₁ kids₁) (h₂ : Creates root₂ run₂ kids₂)
    (hroot : ρ root₁ = root₂) (hkids : ∀ t, Known root₁ kids₁ t → kids₂ (ρ t) = (kids₁ t).map ρ)
    (hfew : ∀ t, (kids₁ t).length < UInt32.size) (ht : Known root₁ kids₁ t) :
    ∃ path id₁ id₂, PathTo root₁ kids₁ t path ∧
      Correspond (grow root₁ run₁) (grow root₂ run₂) t (ρ t) path id₁ id₂ ∧
      id₁.same id₂ = true ∧
      (∀ before parent after, run₁ = before ++ ⟨parent, t⟩ :: after →
        ((grow root₁ before).start parent t).2 = id₁) ∧
      (∀ before parent after, run₂ = before ++ ⟨parent, ρ t⟩ :: after →
        ((grow root₂ before).start parent (ρ t)).2 = id₂) ∧
      ∀ p, t ∈ kids₁ p → ∃ parent₁ parent₂ path',
        id₁.parent? = some parent₁ ∧ id₂.parent? = some parent₂ ∧
        Correspond (grow root₁ run₁) (grow root₂ run₂) p (ρ p) path' parent₁ parent₂ ∧
        parent₁.same parent₂ = true := by
  have m₁ := Mirrors.of_creates h₁
  have m₂ := Mirrors.of_creates h₂
  obtain ⟨path, hpath⟩ := h₁.exists_path ht
  obtain ⟨id₁, id₂, hid⟩ := hpath.correspond m₁ m₂ hroot hkids hfew
  refine ⟨path, id₁, id₂, hpath, hid, hid.same, ?_, ?_, ?_⟩
  · rintro before parent after rfl
    exact Option.some.inj ((find?_grow_of_announced ..).symm.trans hid.find?_left)
  · rintro before parent after rfl
    exact Option.some.inj ((find?_grow_of_announced ..).symm.trans hid.find?_right)
  · intro p hp
    obtain ⟨i, hi⟩ := List.mem_iff_getElem?.mp hp
    -- a thread that has children is known, since its children stand under it
    obtain ⟨id, hid', -⟩ := m₁.find?_child p i t hi
    have hpk : Known root₁ kids₁ p := (m₁.known p).mp ⟨id, hid'⟩
    obtain ⟨path', hpath'⟩ := h₁.exists_path hpk
    obtain ⟨parent₁, parent₂, hparent⟩ := hpath'.correspond m₁ m₂ hroot hkids hfew
    have hnext := hparent.next m₁ m₂ (hkids p hpk) (hfew p) hi
    obtain rfl := Option.some.inj (hnext.find?_left.symm.trans hid.find?_left)
    obtain rfl := Option.some.inj (hnext.find?_right.symm.trans hid.find?_right)
    exact ⟨parent₁, parent₂, path', rfl, rfl, hparent, hparent.same⟩

end TwoRuns

/-- The root starts two threads, and the first of these another one. -/
def cousins (shift : RuntimeId) : Offspring := fun t =>
  if t = 1 + shift then [2 + shift, 3 + shift] else if t = 2 + shift then [4 + shift] else []

/-- Here the root starts both its children first, and the first of them is announced again
in the end. -/
def widthFirst : List Announcement := [⟨1, 2⟩, ⟨1, 3⟩, ⟨2, 4⟩, ⟨7, 2⟩]

/-- Here the first child starts its own before the root goes on. -/
def depthFirst : List Announcement := [⟨11, 12⟩, ⟨12, 14⟩, ⟨99, 11⟩, ⟨11, 13⟩]

theorem creates_widthFirst : Creates 1 widthFirst (cousins 0) := by
  have h₁ : Creates 1 ([] ++ [⟨1, 2⟩]) _ := Creates.nothing.first (known_nothing_iff.mpr rfl)
    (by rw [known_nothing_iff]; decide)
  have h₂ : Creates 1 ([⟨1, 2⟩] ++ [⟨1, 3⟩]) _ := h₁.first (.inl rfl)
    (by simp only [known_update_iff, known_nothing_iff]; decide)
  have h₃ : Creates 1 ([⟨1, 2⟩, ⟨1, 3⟩] ++ [⟨2, 4⟩]) _ := h₂.first
    (by simp only [known_update_iff, known_nothing_iff]; decide)
    (by simp only [known_update_iff, known_nothing_iff]; decide)
  have h₄ : Creates 1 ([⟨1, 2⟩, ⟨1, 3⟩, ⟨2, 4⟩] ++ [⟨7, 2⟩]) _ := h₃.again
    (by simp only [known_update_iff, known_nothing_iff]; decide)
  refine cast (congrArg (Creates 1 widthFirst) ?_) h₄
  funext t
  simp only [cousins, Function.update_apply]
  grind

theorem creates_depthFirst : Creates 11 depthFirst (cousins 10) := by
  have h₁ : Creates 11 ([] ++ [⟨11, 12⟩]) _ := Creates.nothing.first (known_nothing_iff.mpr rfl)
    (by rw [known_nothing_iff]; decide)
  have h₂ : Creates 11 ([⟨11, 12⟩] ++ [⟨12, 14⟩]) _ := h₁.first
    (by simp only [known_update_iff, known_nothing_iff]; decide)
    (by simp only [known_update_iff, known_nothing_iff]; decide)
  have h₃ : Creates 11 ([⟨11, 12⟩, ⟨12, 14⟩] ++ [⟨99, 11⟩]) _ := h₂.again (.inl rfl)
  have h₄ : Creates 11 ([⟨11, 12⟩, ⟨12, 14⟩, ⟨99, 11⟩] ++ [⟨11, 13⟩]) _ := h₃.first (.inl rfl)
    (by simp only [known_update_iff, known_nothing_iff]; decide)
  refine cast (congrArg (Creates 11 depthFirst) ?_) h₄
  funext t
  simp only [cousins, Function.update_apply]
  grind

theorem cousins_correlate : Creates 1 widthFirst (cousins 0) ∧
    Creates 11 depthFirst (cousins 10) ∧ Known 1 (cousins 0) 4 ∧
    ∃ path id₁ id₂, PathTo 1 (cousins 0) 4 path ∧
      Correspond (grow 1 widthFirst) (grow 11 depthFirst) 4 14 path id₁ id₂ ∧
      id₁.same id₂ = true := by
  have hknown : Known 1 (cousins 0) 4 := .inr ⟨2, by decide⟩
  have hkids : ∀ t, Known 1 (cousins 0) t →
      cousins 10 (t + 10) = (cousins 0 t).map (· + 10) := by
    intro t _
    simp only [cousins]
    grind
  have hfew : ∀ t, (cousins 0 t).length < UInt32.size := by
    intro t
    simp only [cousins]
    split
    · decide
    · split <;> decide
  obtain ⟨path, id₁, id₂, hpath, hid, hsame, -⟩ :=
    runs_correlate creates_widthFirst creates_depthFirst rfl hkids hfew hknown
  exact ⟨creates_widthFirst, creates_depthFirst, hknown, path, id₁, id₂, hpath, hid, hsame⟩

end AccessReplay.SpawnTree
