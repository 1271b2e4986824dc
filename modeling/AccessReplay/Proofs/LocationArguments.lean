import AccessReplay.CommandLine.Options
import AccessReplay.Proofs.Numerals

/-!
# Location arguments

The location that a listing is asked for is named by an object's number, a colon, and a field.  What
an argument names is said here without the reader: a numeral (`Text.Denotes`) and the text after the
first colon, so a field may have colons of its own (`location_argument_grammar`).
-/
namespace AccessReplay.Options

/-- No numeral has a colon. -/
theorem colon_notMem {numeral : List Char} {n : Nat} (h : Text.Denotes numeral n) :
    ':' ∉ numeral := by
  obtain ⟨digits, -, hsmall, hcs | hcs, -⟩ := h
  · rw [hcs]
    exact Text.notMem_digits (by decide) hsmall
  · rw [hcs, List.mem_cons, not_or]
    exact ⟨by decide, Text.notMem_digits (by decide) hsmall⟩

/-- **A location argument is parsed by its grammar.**  A text names a location just if it has a
colon, the rest after the first colon is not empty, and what stands before it is a decimal numeral
of 64 bits; the location is then the field of that rest, colons included, of the object with that
number.  So a number and a field that are written with a colon between them are read back. -/
theorem location_argument_grammar :
    (∀ (text : List Char) (key : LocationKey), location? text = some key ↔
      ∃ (numeral field : List Char) (n : Nat), text = numeral ++ ':' :: field ∧
        ':' ∉ numeral ∧ field ≠ [] ∧ Text.Denotes numeral n ∧ n < 2 ^ 64 ∧
        key = ⟨⟨UInt64.ofNat n⟩, String.ofList field⟩) ∧
    ∀ (n : UInt64) (field : String), field ≠ "" →
      location? (toString n ++ ":" ++ field).toList = some ⟨⟨n⟩, field⟩ := by
  have hgrammar : ∀ (text : List Char) (key : LocationKey), location? text = some key ↔
      ∃ (numeral field : List Char) (n : Nat), text = numeral ++ ':' :: field ∧
        ':' ∉ numeral ∧ field ≠ [] ∧ Text.Denotes numeral n ∧ n < 2 ^ 64 ∧
        key = ⟨⟨UInt64.ofNat n⟩, String.ofList field⟩ := by
    intro text key
    constructor
    · intro h
      unfold location? at h
      split at h
      · next colon c field hrest =>
        split at h
        · next n hread =>
          obtain ⟨hdenotes, hbound⟩ := Text.readUnsigned_eq_ok_iff.mp hread
          refine ⟨_, c :: field, n, ?_, colon_notMem hdenotes, List.cons_ne_nil c field, hdenotes,
            hbound, (Option.some.inj h).symm⟩
          have hcolon : colon = ':' := by
            have hhead := List.head?_dropWhile_not (· != ':') text
            rw [hrest] at hhead
            simpa using hhead
          have hsplit := List.takeWhile_append_dropWhile (p := (· != ':')) (l := text)
          rw [hrest, hcolon] at hsplit
          exact hsplit.symm
        · cases h
      · cases h
    · rintro ⟨numeral, field, n, rfl, hcolon, hfield, hdenotes, hbound, rfl⟩
      obtain ⟨htake, hdrop⟩ := Text.split_at_first hcolon field
      obtain ⟨c, field, rfl⟩ := List.exists_cons_of_ne_nil hfield
      have hread := Text.readUnsigned_eq_ok_iff.mpr ⟨hdenotes, hbound⟩
      rw [location?, hdrop, htake]
      dsimp only
      rw [show Text.bound64 = 2 ^ 64 from rfl, hread]
  refine ⟨hgrammar, fun n field hfield => ?_⟩
  have hdenotes := Text.denotes_toDigits n.toNat
  refine (hgrammar _ _).mpr ⟨Nat.toDigits 10 n.toNat, field.toList, n.toNat, ?_,
    colon_notMem hdenotes, ?_, hdenotes, n.toNat_lt, ?_⟩
  · rw [String.toList_append, String.toList_append, Text.toList_toString, List.append_assoc]
    rfl
  · simpa using hfield
  · rw [UInt64.ofNat_toNat, String.ofList_toList]

/-- A sign, leading zeros, and a field with a colon of its own; and the largest number. -/
theorem signed_number_names_location :
    location? "+007:näxt:b".toList = some ⟨⟨7⟩, "näxt:b"⟩ ∧ "näxt:b" ≠ "" ∧
      location? (toString (18446744073709551615 : UInt64) ++ ":" ++ "näxt:b").toList =
        some ⟨⟨18446744073709551615⟩, "näxt:b"⟩ := by
  have hfield : "näxt:b" ≠ "" := by decide
  refine ⟨(location_argument_grammar.1 _ _).mpr ?_, hfield, location_argument_grammar.2 _ _ hfield⟩
  refine ⟨"+007".toList, "näxt:b".toList, 7, by decide, by decide, by decide, ?_, by decide,
    by decide⟩
  exact ⟨[0, 0, 7], by decide, by decide, .inr (by decide), by decide⟩

end AccessReplay.Options
