/-!
# Numerals

Numbers are written in decimal without leading zeros, handles in hexadecimal,
and positions as bracketed lists.  Reading is stricter than writing is uniform:
an unsigned numeral below a bound is a non-empty run of digits, with one plus
sign allowed in front, and `readUnsigned` says which of the three ways to fail
comes first when the text is scanned from the left.
-/

namespace AccessReplay.Text

/-- Why a text is not an unsigned numeral below the bound asked for. -/
inductive NumeralFault where
  /-- There is no character at all. -/
  | empty
  /-- A character is not a digit, or a sign stands alone. -/
  | badDigit
  /-- The digits read so far already reach the bound. -/
  | tooLarge
deriving DecidableEq, Repr

/-- The wording of a numeral fault. -/
def NumeralFault.message : NumeralFault → String
  | .empty => "cannot parse integer from empty string"
  | .badDigit => "invalid digit found in string"
  | .tooLarge => "number too large to fit in target type"

/-- The value of a decimal digit. -/
def digit? (c : Char) : Option Nat :=
  if '0' ≤ c ∧ c ≤ '9' then some (c.toNat - '0'.toNat) else none

/-- Reads digits onto a value, staying below `bound`. -/
def readDigits (bound : Nat) : Nat → List Char → Except NumeralFault Nat
  | value, [] => .ok value
  | value, c :: cs =>
    match digit? c with
    | none => .error .badDigit
    | some d =>
      if 10 * value + d < bound then readDigits bound (10 * value + d) cs
      else .error .tooLarge

/-- Reads an unsigned numeral below `bound`: digits, after at most one plus sign. -/
def readUnsigned (bound : Nat) : List Char → Except NumeralFault Nat
  | [] => .error .empty
  | '+' :: [] => .error .badDigit
  | '+' :: cs => readDigits bound 0 cs
  | cs => readDigits bound 0 cs

/-- The number of values of a 32-bit word. -/
def bound32 : Nat := 4294967296

/-- The number of values of a 64-bit word. -/
def bound64 : Nat := 18446744073709551616

/-- A number in lower-case hexadecimal, marked as such. -/
def hexadecimal (n : Nat) : String :=
  "0x" ++ String.ofList (Nat.toDigits 16 n)

/-- A 32-bit word as eight hexadecimal digits. -/
def hexadecimal8 (n : UInt32) : String :=
  let digits := Nat.toDigits 16 n.toNat
  String.ofList (List.replicate (8 - digits.length) '0' ++ digits)

/-- A text moved to the right edge of a column. -/
def alignRight (width : Nat) (text : String) : String :=
  String.ofList (List.replicate (width - text.length) ' ') ++ text

/-- Numbers between brackets, separated by commas. -/
def bracketed (ns : List Nat) : String :=
  "[" ++ ", ".intercalate (ns.map toString) ++ "]"

end AccessReplay.Text
