import AccessReplay.OpenAccess
import AccessReplay.Verdict

/-!
# Histories

What each thread of a replay did: its finished accesses in the order they were
finished, and whether one of them violated the recorded order.  A thread's
history is opened when the thread is announced and stays where it is filed, so
that an access may still be added to it after its replay has ended.
-/

namespace AccessReplay

/-- What one thread did. -/
structure History where
  thread : AnnouncedThread
  /-- The recorded thread it replays. -/
  recorded : Option RuntimeId
  /-- Is it the thread the replay was started by? -/
  isMain : Bool := false
  /-- Did one of its accesses violate the recorded order? -/
  diverged : Bool := false
  accesses : Array OpenAccess := #[]
deriving DecidableEq, Repr, Inhabited

namespace History

/-- Adds a finished access. -/
def add (h : History) (a : OpenAccess) : History := { h with accesses := h.accesses.push a }

/-- Notes that an access violated the recorded order. -/
def flag (h : History) : History := { h with diverged := true }

end History

/-- Where the history of an announced thread is filed: under the edition of the
recording that the thread replays, by runtime id. -/
structure HistoryRef where
  edition : Nat
  thread : RuntimeId
deriving DecidableEq, Repr, Inhabited

namespace HistoryRef

/-- Editions first, then threads. -/
def order : HistoryRef → HistoryRef → Ordering :=
  compareLex (compareOn HistoryRef.edition) (compareOn HistoryRef.thread)

instance : Ord HistoryRef := ⟨order⟩

instance : Std.TransOrd HistoryRef :=
  inferInstanceAs
    (Std.TransCmp (compareLex (compareOn HistoryRef.edition) (compareOn HistoryRef.thread)))

instance : Std.LawfulEqOrd HistoryRef where
  eq_of_compare {a b} h := by
    have h : order a b = .eq := h
    simp only [order, compareLex, compareOn, Ordering.then_eq_eq, Std.compare_eq_iff_eq] at h
    cases a; cases b; simp_all

end HistoryRef

/-- The histories of all threads announced so far. -/
abbrev HistoryBook := Std.ExtTreeMap HistoryRef History

namespace HistoryBook

/-- Opens a history, unless the thread has one. -/
def opened (book : HistoryBook) (ref : HistoryRef) (h : History) : HistoryBook :=
  if ref ∈ book then book else book.insert ref h

/-- The histories of one edition, by runtime id. -/
def ofEdition (book : HistoryBook) (edition : Nat) : List History :=
  (book.toList.filter fun entry => entry.1.edition == edition).map Prod.snd

end HistoryBook
end AccessReplay
