import Mathlib.Data.List.Nodup
import Std.Data.ExtTreeMap

/-!
# Lists by a key

What is listed is told apart, looked for and sorted by a key: threads by their runtime ids or their
places, accesses by where they stand in a recording.  Where no two have the same key, the one that
is looked for by its key is found (`find?_eq_some_iff_of_nodup`), and sorting by the key leaves no
two that are equal in its order (`pairwise_lt_mergeSort`).  Where some have, sorting leaves them as
they were listed (`mergeSort_stable`).
-/
namespace AccessReplay

/-- The values of an ordered map are listed in the order of its keys. -/
theorem values_eq_map_snd {α β : Type} {cmp : α → α → Ordering} [Std.TransCmp cmp]
    (t : Std.ExtTreeMap α β cmp) : t.values = t.toList.map Prod.snd := by
  obtain ⟨⟨tree⟩⟩ := t
  induction tree using Quotient.inductionOn with
  | _ tree =>
    change Std.DTreeMap.Internal.Impl.values tree.inner =
      (Std.DTreeMap.Internal.Impl.Const.toList tree.inner).map Prod.snd
    rw [Std.DTreeMap.Internal.Impl.values_eq_map_snd,
      Std.DTreeMap.Internal.Impl.Const.toList_eq_toListModel_map, List.map_map]
    rfl

section Key
variable {α κ : Type} {f : α → κ} {l : List α}

/-- What is looked for by a key that no two have is found if it is there. -/
theorem find?_eq_some_iff_of_nodup [BEq κ] [LawfulBEq κ] (h : (l.map f).Nodup) {k : κ} {a : α} :
    l.find? (f · == k) = some a ↔ a ∈ l ∧ f a = k := by
  constructor
  · intro hfound
    exact ⟨List.mem_of_find?_eq_some hfound, by simpa using List.find?_some hfound⟩
  · rintro ⟨ha, rfl⟩
    cases hfound : l.find? (f · == f a) with
    | none =>
      have hnone := List.find?_eq_none.mp hfound a ha
      simp at hnone
    | some b =>
      -- no two share a key
      have hb : b ∈ l := List.mem_of_find?_eq_some hfound
      have hkey : f b = f a := by simpa using List.find?_some hfound
      rw [List.inj_on_of_nodup_map h hb ha hkey]

variable [Ord κ]

/-- Where no two have the same key, what is in the order of the keys is in strict order. -/
theorem pairwise_lt_of_nodup [Std.LawfulEqOrd κ] (h : (l.map f).Nodup)
    (hl : l.Pairwise fun a b => (compare (f a) (f b)).isLE) :
    l.Pairwise fun a b => compare (f a) (f b) = .lt := by
  refine (hl.and (List.pairwise_map.mp h)).imp fun {a b} hab => ?_
  obtain ⟨hle, hne⟩ := hab
  cases hcompare : compare (f a) (f b) with
  | lt => rfl
  | eq => exact absurd (Std.LawfulEqOrd.eq_of_compare hcompare) hne
  | gt => simp [hcompare] at hle

/-- Sorting by a key puts a list in the order of the keys. -/
theorem pairwise_isLE_mergeSort [Std.TransOrd κ] (f : α → κ) (l : List α) :
    (l.mergeSort fun a b => (compare (f a) (f b)).isLE).Pairwise
      fun a b => (compare (f a) (f b)).isLE := by
  refine List.pairwise_mergeSort (fun a b c hab hbc => ?_) (fun a b => ?_) l
  · exact Std.TransOrd.isLE_trans hab hbc
  · have hswap := Std.OrientedOrd.eq_swap (a := f a) (b := f b)
    simp only [hswap]
    cases compare (f b) (f a) <;> rfl

end Key

section Stable
variable {α : Type} {le : α → α → Bool} {l : List α}

/-- Two elements that come no later than each other are sorted as they were listed. -/
theorem sublist_of_sublist_mergeSort (htrans : ∀ a b c, le a b = true → le b c = true → le a c)
    (htotal : ∀ a b, le a b || le b a) {a b : α} (hab : le a b = true) (hba : le b a = true)
    (h : [a, b].Sublist (l.mergeSort le)) : [a, b].Sublist l := by
  let same (x : α) : Bool := le a x && le x a
  have hsame : (l.filter same).Pairwise (le · ·) := by
    refine List.pairwise_of_forall_mem_list fun x hx y hy => ?_
    obtain ⟨-, hx⟩ := Bool.and_eq_true_iff.mp (List.mem_filter.mp hx).2
    obtain ⟨hy, -⟩ := Bool.and_eq_true_iff.mp (List.mem_filter.mp hy).2
    exact htrans x a y hx hy
  -- sorting keeps the list of these elements, and adds none to it
  have hkept : (l.filter same).Sublist ((l.mergeSort le).filter same) := by
    have hsub := (List.sublist_mergeSort htrans htotal hsame List.filter_sublist).filter same
    simpa only [List.filter_filter, Bool.and_self] using hsub
  have hfilter : l.filter same = (l.mergeSort le).filter same :=
    hkept.eq_of_length ((List.mergeSort_perm l le).filter same).length_eq.symm
  have hpair : [a, b].filter same = [a, b] := by
    have haa : le a a = true := by simpa using htotal a a
    simp [same, haa, hab, hba]
  have hsub := h.filter same
  rw [hpair, ← hfilter] at hsub
  exact hsub.trans List.filter_sublist

/-- **Sorting is stable**: what relates the elements of a list in order relates, once it is
sorted, those that come no later than each other. -/
theorem mergeSort_stable {R : α → α → Prop}
    (htrans : ∀ a b c, le a b = true → le b c = true → le a c)
    (htotal : ∀ a b, le a b || le b a) (hl : l.Pairwise R) :
    (l.mergeSort le).Pairwise fun a b => le a b = true ∧ (le b a = true → R a b) := by
  refine List.pairwise_iff_forall_sublist.mpr fun {a b} h => ?_
  have hab := List.pairwise_iff_forall_sublist.mp (List.pairwise_mergeSort htrans htotal l) h
  refine ⟨hab, fun hba => ?_⟩
  exact List.pairwise_iff_forall_sublist.mp hl
    (sublist_of_sublist_mergeSort htrans htotal hab hba h)

end Stable

end AccessReplay
