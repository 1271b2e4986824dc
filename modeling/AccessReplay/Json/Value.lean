/-!
# JSON values

A value keeps what its text says and decides nothing more.  Numbers stay as
they are spelled, because only their users know the range they must fit.
Strings are lists of code points in which an escape may have left one half of a
surrogate pair; `text?` joins the pairs and refuses lone halves, so that a value
nobody looks at may hold them.
-/

namespace AccessReplay

/-- A JSON value. -/
inductive Json where
  | null
  | bool (value : Bool)
  /-- A number, as it is spelled. -/
  | number (lexeme : List Char)
  /-- A string, as its code points. -/
  | string (points : List Nat)
  | array (items : List Json)
  /-- An object with its members in the order written, repeated names included. -/
  | object (members : List (List Nat × Json))

namespace Json

/-- The first half of a surrogate pair. -/
def isHighSurrogate (u : Nat) : Bool := 0xD800 ≤ u && u < 0xDC00

/-- The second half of a surrogate pair. -/
def isLowSurrogate (u : Nat) : Bool := 0xDC00 ≤ u && u < 0xE000

/-- The character a surrogate pair stands for. -/
def joinSurrogates (high low : Nat) : Char :=
  Char.ofNat (0x10000 + 0x400 * (high - 0xD800) + (low - 0xDC00))

/-- The characters of a string, unless half of a surrogate pair stands alone. -/
def text? : List Nat → Option (List Char)
  | [] => some []
  | [u] => if isHighSurrogate u || isLowSurrogate u then none else some [Char.ofNat u]
  | u :: v :: rest =>
    if isHighSurrogate u then
      if isLowSurrogate v then (text? rest).map (joinSurrogates u v :: ·) else none
    else if isLowSurrogate u then none
    else (text? (v :: rest)).map (Char.ofNat u :: ·)

/-- The code points of a text. -/
def points (s : String) : List Nat := s.toList.map Char.toNat

/-- A string value. -/
def ofText (s : String) : Json := .string (points s)

/-- A number value. -/
def ofNat (n : Nat) : Json := .number (Nat.toDigits 10 n)

/-- An object with the members given. -/
def ofMembers (ms : List (String × Json)) : Json :=
  .object (ms.map fun m => (points m.1, m.2))

end Json
end AccessReplay
