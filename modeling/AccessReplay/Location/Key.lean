import AccessReplay.Object

/-!
# Locations

A location is a field of an object.  Its key is the object's id with the field's
name, which a recording and a replay share.  Keys are ordered by object first
and then by field; fields are compared character by character, which is also the
order of their UTF-8 bytes.

A recording can be put in force more than once, and each time every location
starts afresh.  A `LocationRef` therefore names a live location by the edition it
belongs to and its key.
-/

namespace AccessReplay

/-- The name of a location. -/
structure LocationKey where
  object : ObjectId
  field : String
deriving DecidableEq, Repr, Inhabited

namespace LocationKey

/-- How a location is named to the user. -/
def text (k : LocationKey) : String := s!"{k.object.text}.{k.field}"

/-- Objects first, then fields. -/
def order : LocationKey → LocationKey → Ordering :=
  compareLex (compareOn (fun k => k.object.number)) (compareOn LocationKey.field)

instance : Ord LocationKey := ⟨order⟩

instance : Std.TransOrd LocationKey :=
  inferInstanceAs
    (Std.TransCmp (compareLex (compareOn (fun k : LocationKey => k.object.number))
      (compareOn LocationKey.field)))

instance : Std.LawfulEqOrd LocationKey where
  eq_of_compare {a b} h := by
    have h : order a b = .eq := h
    simp only [order, compareLex, compareOn, Ordering.then_eq_eq, Std.compare_eq_iff_eq] at h
    obtain ⟨⟨⟨_⟩, _⟩, ⟨⟨_⟩, _⟩⟩ := a, b
    simp_all

end LocationKey

/-- A live location: the one with a key in an edition of the recording. -/
structure LocationRef where
  edition : Nat
  key : LocationKey
deriving DecidableEq, Repr, Inhabited

namespace LocationRef

/-- Editions first, then keys. -/
def order : LocationRef → LocationRef → Ordering :=
  compareLex (compareOn LocationRef.edition) (compareOn LocationRef.key)

instance : Ord LocationRef := ⟨order⟩

instance : Std.TransOrd LocationRef :=
  inferInstanceAs
    (Std.TransCmp (compareLex (compareOn LocationRef.edition) (compareOn LocationRef.key)))

instance : Std.LawfulEqOrd LocationRef where
  eq_of_compare {a b} h := by
    have h : order a b = .eq := h
    simp only [order, compareLex, compareOn, Ordering.then_eq_eq, Std.compare_eq_iff_eq] at h
    cases a; cases b; simp_all

end LocationRef
end AccessReplay
