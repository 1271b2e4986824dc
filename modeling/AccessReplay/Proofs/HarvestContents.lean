import AccessReplay.Harvest
import AccessReplay.Proofs.LiveLocations

/-!
# What a harvest holds

A harvest has the history of every thread that was announced during the replay, and the key
of every location of the replay that is marked diverged, each once.
-/
namespace AccessReplay

theorem HistoryBook.mem_ofEdition_iff {book : HistoryBook} {edition : Nat} {h : History} :
    h ∈ book.ofEdition edition ↔
      ∃ ref : HistoryRef, ref.edition = edition ∧ book[ref]? = some h := by
  simp only [ofEdition, List.mem_map, List.mem_filter, beq_iff_eq, Prod.exists,
    Std.ExtTreeMap.mem_toList_iff_getElem?_eq_some]
  constructor
  · rintro ⟨ref, h', ⟨hb, he⟩, rfl⟩
    exact ⟨ref, he, hb⟩
  · rintro ⟨ref, he, hb⟩
    exact ⟨ref, h, ⟨hb, he⟩, rfl⟩

namespace Engine

variable {e : Engine} {h : History} {key : LocationKey}

theorem mem_histories_iff : h ∈ e.histories ↔
    ∃ ref : HistoryRef, ref.edition = e.memory.edition ∧ e.book[ref]? = some h := by
  rw [← HistoryBook.mem_ofEdition_iff]
  cases hm : h.isMain <;> simp [histories, hm]

theorem mem_divergedKeys_iff :
    key ∈ e.divergedKeys ↔ e.memory.DivergedAt ⟨e.memory.edition, key⟩ := by
  simp only [divergedKeys, LiveMemory.current, List.mem_map, List.mem_filter, beq_iff_eq,
    Prod.exists, Std.ExtTreeMap.mem_toList_iff_getElem?_eq_some]
  constructor
  · rintro ⟨⟨edition, key⟩, l, ⟨⟨hl, rfl⟩, hd⟩, rfl⟩
    exact ⟨l, hl, hd⟩
  · rintro ⟨l, hl, hd⟩
    exact ⟨_, l, ⟨⟨hl, rfl⟩, hd⟩, rfl⟩

/-- No key is listed twice, since all of them belong to one edition. -/
theorem nodup_divergedKeys (e : Engine) : e.divergedKeys.Nodup := by
  refine List.pairwise_map.mpr ((e.memory.pairwise_current.filter _).imp fun hlt hkey => ?_)
  rw [hkey, Std.compare_self] at hlt
  cases hlt

/-- When a harvest says that the recorded order was violated. -/
theorem diverged_harvest_iff : e.harvest.diverged = true ↔
    e.divergedKeys ≠ [] ∨ ∃ h ∈ e.histories, h.diverged = true := by
  simp [harvest, Harvest.diverged, History.harvest, List.isEmpty_eq_false_iff]

end Engine
end AccessReplay
