import AccessReplay.Dump.Load
import AccessReplay.Proofs.DumpReaders

/-!
# Dumps survive their text

Each reader inverts its writer, and what is written can be spelled (`Lawful`): numbers of 32 and 64
bits, texts, lists, and from them the records of a dump.  So the compact text of a dump is read
back as this dump, and any text of a dump may be replaced by the compact one (`dump_roundtrip`).
-/
namespace AccessReplay

namespace Json

/-! ## What can be spelled -/

/-- Written digits begin with zero only if they are zero. -/
theorem toDigits_head {n : Nat} (hn : 0 < n) :
    ∃ c cs, Nat.toDigits 10 n = c :: cs ∧ c ≠ '0' := by
  induction n using Nat.strongRecOn with
  | ind n ih =>
    by_cases hlt : n < 10
    · have hall : ∀ n < 10, 0 < n → Nat.digitChar n ≠ '0' := by decide
      exact ⟨_, [], Nat.toDigits_of_lt_base hlt, hall n hlt hn⟩
    · obtain ⟨c, cs, hdigits, hc⟩ := ih (n / 10) (by omega) (by omega)
      rw [Nat.toDigits_of_base_le (by decide) (Nat.not_lt.mp hlt), hdigits]
      exact ⟨c, _, rfl, hc⟩

theorem isInteger_toDigits (n : Nat) : IsInteger (Nat.toDigits 10 n) := by
  by_cases hn : n = 0
  · subst hn
    exact .inl rfl
  · obtain ⟨c, cs, hdigits, hzero⟩ := toDigits_head (Nat.pos_of_ne_zero hn)
    refine .inr ⟨c, cs, hdigits, hzero, fun d hd => ?_⟩
    rw [← hdigits] at hd
    exact Nat.isDigit_of_mem_toDigits (by decide) (Nat.le_refl 10) hd

/-- A written number is spelled as numbers are. -/
theorem isNumeral_toDigits (n : Nat) : IsNumeral (Nat.toDigits 10 n) :=
  isNumeral_iff.mpr ⟨[], _, [], (List.append_nil _).symm, .inl rfl, isInteger_toDigits n,
    NumberPart.isNumberEnd_nil⟩

theorem areCodePoints_points (s : String) : AreCodePoints (points s) := by
  intro u hu
  obtain ⟨c, -, rfl⟩ := List.mem_map.mp hu
  have hvalid : c.toNat < 0xD800 ∨ 0xDFFF < c.toNat ∧ c.toNat < 0x110000 := c.valid
  omega

/-- Members with given names can be spelled. -/
theorem printable_ofMembers {ms : List (String × Json)} (h : ∀ m ∈ ms, m.2.Printable) :
    (ofMembers ms).Printable := by
  apply printableMembers_iff.mpr
  intro m hm
  obtain ⟨named, hnamed, rfl⟩ := List.mem_map.mp hm
  exact ⟨areCodePoints_points named.1, h named hnamed⟩

end Json

namespace Dump

/-! ## Readers and writers -/

/-- The reader inverts the writer, and what is written can be spelled. -/
structure Lawful {α : Type} (read : Json → Option α) (write : α → Json) : Prop where
  read_write : ∀ a, read (write a) = some a
  printable : ∀ a, (write a).Printable

theorem lawful_text : Lawful readText .ofText where
  read_write s := tolerates_text s _ rfl
  printable s := Json.areCodePoints_points s

theorem lawful_word64 : Lawful readWord64 fun n => .ofNat n.toNat where
  read_write n := tolerates_word64 n _ rfl
  printable n := Json.isNumeral_toDigits n.toNat

theorem lawful_word32 : Lawful readWord32 fun n => .ofNat n.toNat where
  read_write n := tolerates_word32 n _ rfl
  printable n := Json.isNumeral_toDigits n.toNat

/-- What is lawful for one is lawful for a list. -/
theorem Lawful.list {α : Type} {read : Json → Option α} {write : α → Json} (h : Lawful read write) :
    Lawful (readList read) fun as => .array (as.map write) where
  read_write as := by
    have hread : Tolerates read write Eq := fun a j hj => hj ▸ h.read_write a
    exact hread.list as _ (items_self (fun _ => rfl) as)
  printable as := by
    apply Json.printableItems_iff.mpr
    intro j hj
    obtain ⟨a, -, rfl⟩ := List.mem_map.mp hj
    exact h.printable a

/-! ## Records -/

theorem lawful_access : Lawful readAccess writeAccess where
  read_write a := tolerates_access a _ (looseAccess_self a)
  printable a := by
    apply Json.printable_ofMembers
    obtain ⟨thread, kind, seq⟩ := a
    have hthread := lawful_word64.printable thread
    have hkind := lawful_text.printable kind.word
    cases seq with
    | none => simp [hthread, hkind]
    | some n => simp [hthread, hkind, lawful_word64.printable n]

theorem lawful_thread : Lawful readThread writeThread where
  read_write t := tolerates_thread t _ (looseThread_self t)
  printable t := by
    apply Json.printable_ofMembers
    simp [lawful_word64.printable, lawful_word32.list.printable]

theorem lawful_location : Lawful readLocation writeLocation where
  read_write l := tolerates_location l _ (looseLocation_self l)
  printable l := by
    apply Json.printable_ofMembers
    simp [lawful_word64.printable, lawful_text.printable, lawful_access.list.printable]

theorem lawful_catalogue : Lawful readCatalogue writeCatalogue where
  read_write c := tolerates_catalogue c _ (List.Perm.refl _)
  printable c := by
    apply Json.printable_ofMembers
    intro m hm
    obtain ⟨entry, -, rfl⟩ := List.mem_map.mp hm
    exact lawful_text.list.printable entry.2

/-! ## Dumps -/

theorem lawful_dump : Lawful ofJson? toJson where
  read_write d := tolerates_dump d _ (looseDump_self d)
  printable d := by
    apply Json.printable_ofMembers
    simp [lawful_thread.list.printable, lawful_catalogue.printable, lawful_location.list.printable]

theorem parse?_compact (d : Dump) : parse? d.compact = some d := by
  rw [parse?, compact, Json.parse?_compact (lawful_dump.printable d)]
  exact lawful_dump.read_write d

/-- **Encoding and decoding are inverse.**  The compact text of every dump is read as this dump.
So if a text is read as a dump, the compact text of this dump is read as it too and encodes to
itself, and both texts describe the same recording or have the same fault. -/
theorem dump_roundtrip : (∀ d : Dump, parse? d.compact = some d) ∧
    ∀ (text : List Char) (d : Dump), parse? text = some d →
      parse? d.compact = some d ∧ (parse? d.compact).map compact = some d.compact ∧
        recording? text = recording? d.compact := by
  refine ⟨parse?_compact, ?_⟩
  intro text d htext
  have hcompact := parse?_compact d
  refine ⟨hcompact, ?_, ?_⟩
  · rw [hcompact]
    rfl
  · rw [recording?, recording?, htext, hcompact]

/-- A dump as it may come: with blanks and an unknown member, its members in another order, a thread
as an array, an escape in a name, and one access with a sequence number. -/
def looseText : List Char :=
  ("\x7b \"locations\": [\x7b\"events\": [[1, \"write\", 7], \x7b\"op\": \"read\", \"seq\": null, " ++
    "\"thread\": 1\x7d], \"object\": 0, \"class\": \"B\\u006fx\", \"field\": \"a\\\"b\"\x7d], " ++
    "\"note\": [0.5e1], \"threads\": [[1, []]]\x7d").toList

/-- The dump of `looseText`. -/
def looseDump : Dump where
  threads := [⟨1, []⟩]
  locations := [⟨⟨0⟩, "Box", "a\"b", [⟨1, .write, some 7⟩, ⟨1, .read, none⟩]⟩]

theorem looseText_roundtrip : parse? looseText = some looseDump ∧
    parse? looseDump.compact = some looseDump ∧
    recording? looseText = recording? looseDump.compact := by
  have htext : parse? looseText = some looseDump := by decide +kernel
  obtain ⟨hcompact, -, hrecording⟩ := dump_roundtrip.2 looseText looseDump htext
  exact ⟨htext, hcompact, hrecording⟩

end Dump
end AccessReplay
