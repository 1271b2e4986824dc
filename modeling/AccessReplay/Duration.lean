import AccessReplay.Text.Decimal

/-!
# Durations

A duration is a number of nanoseconds whose whole seconds fit a 64-bit word;
`times?` is the product with a count, if it is still a duration.
-/

namespace AccessReplay

/-- A length of time. -/
structure Duration where
  nanos : Nat
deriving DecidableEq, Repr, Inhabited

namespace Duration

/-- Nanoseconds in a second. -/
def perSecond : Nat := 1000000000

/-- Whole seconds. -/
def seconds (d : Duration) : Nat := d.nanos / perSecond

/-- Nanoseconds beyond the whole seconds. -/
def subsecond (d : Duration) : Nat := d.nanos % perSecond

/-- A number of microseconds. -/
def ofMicros (n : Nat) : Duration := ⟨1000 * n⟩

/-- A number of milliseconds. -/
def ofMillis (n : Nat) : Duration := ⟨1000000 * n⟩

/-- A number of seconds. -/
def ofSeconds (n : Nat) : Duration := ⟨perSecond * n⟩

/-- Do the whole seconds fit a 64-bit word? -/
def fits (d : Duration) : Bool := d.seconds < Text.bound64

/-- The duration `n` times over, unless it does not fit. -/
def times? (d : Duration) (n : Nat) : Option Duration :=
  let product : Duration := ⟨d.nanos * n⟩
  if product.fits then some product else none

/-- A product is told exactly if it is a duration. -/
theorem times?_eq_some_iff {d product : Duration} {n : Nat} :
    d.times? n = some product ↔
      product = ⟨d.nanos * n⟩ ∧ product.nanos < Text.bound64 * perSecond := by
  have hfits (d : Duration) : d.fits = true ↔ d.nanos < Text.bound64 * perSecond := by
    rw [fits, decide_eq_true_eq, seconds, Nat.div_lt_iff_lt_mul (by decide)]
  rw [times?, Option.ite_none_right_eq_some, hfits, Option.some.injEq]
  constructor
  · rintro ⟨hlt, rfl⟩
    exact ⟨rfl, hlt⟩
  · rintro ⟨rfl, hlt⟩
    exact ⟨hlt, rfl⟩

/-- What is said of a product that does not fit. -/
def overflowMessage : String := "overflow when multiplying duration by scalar"

/-- The digits of a proper fraction `part / unit`, without trailing zeros. -/
def fraction (part unit : Nat) : String :=
  let digits := Nat.toDigits 10 part
  let width := (Nat.toDigits 10 unit).length - 1
  let padded := List.replicate (width - digits.length) '0' ++ digits
  let kept := (padded.reverse.dropWhile (· == '0')).reverse
  if kept.isEmpty then "" else "." ++ String.ofList kept

/-- A duration in the largest unit of which it holds at least one. -/
def text (d : Duration) : String :=
  let inUnit (unit : Nat) (suffix : String) : String :=
    s!"{d.nanos / unit}{fraction (d.nanos % unit) unit}{suffix}"
  if perSecond ≤ d.nanos then inUnit perSecond "s"
  else if 1000000 ≤ d.nanos then inUnit 1000000 "ms"
  else if 1000 ≤ d.nanos then inUnit 1000 "µs"
  else s!"{d.nanos}ns"

end Duration
end AccessReplay
