import AccessReplay.Access
import AccessReplay.Location.Key

/-!
# Access ledgers

For every recorded location the accesses made to it, in the order they happened.
A location is entered once, and a ledger runs through its locations in key order.
-/

namespace AccessReplay

/-- What was recorded at one location. -/
structure RecordedLocation where
  className : String
  events : List RecordedAccess
deriving DecidableEq, Repr, Inhabited

/-- The recorded locations by key. -/
abbrev AccessLedger := Std.ExtTreeMap LocationKey RecordedLocation

namespace AccessLedger

/-- Adds a location, unless its key is entered already. -/
def add? (ledger : AccessLedger) (key : LocationKey) (location : RecordedLocation) :
    Option AccessLedger :=
  if key ∈ ledger then none else some (ledger.insert key location)

/-- How many accesses were recorded at all locations together. -/
def eventCount (ledger : AccessLedger) : Nat :=
  ledger.values.foldr (fun l count => l.events.length + count) 0

end AccessLedger
end AccessReplay
