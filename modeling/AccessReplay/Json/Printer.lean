import AccessReplay.Json.Value

/-!
# Writing JSON

Two layouts.  The compact one has no blanks.  The pretty one puts every item and
member on a line of its own, indented by two spaces a level, with a space after
each colon; empty arrays and objects stay on one line.  Strings escape quotes,
backslashes and control characters and leave everything else as it is.
-/

namespace AccessReplay.Json

/-- A digit of a hexadecimal escape. -/
def hexDigit (n : Nat) : Char := Nat.digitChar n

/-- How a code point is spelled inside a string. -/
def escape (u : Nat) : List Char :=
  if u = 0x22 then ['\\', '"']
  else if u = 0x5C then ['\\', '\\']
  else if u = 0x08 then ['\\', 'b']
  else if u = 0x09 then ['\\', 't']
  else if u = 0x0A then ['\\', 'n']
  else if u = 0x0C then ['\\', 'f']
  else if u = 0x0D then ['\\', 'r']
  else if u < 0x20 ∨ isHighSurrogate u ∨ isLowSurrogate u then
    ['\\', 'u', hexDigit (u / 4096 % 16), hexDigit (u / 256 % 16), hexDigit (u / 16 % 16),
      hexDigit (u % 16)]
  else [Char.ofNat u]

/-- A string between quotes. -/
def quoted (points : List Nat) : List Char :=
  '"' :: points.flatMap escape ++ ['"']

mutual

/-- A value without blanks. -/
def compact : Json → List Char
  | .null => ['n', 'u', 'l', 'l']
  | .bool true => ['t', 'r', 'u', 'e']
  | .bool false => ['f', 'a', 'l', 's', 'e']
  | .number lexeme => lexeme
  | .string points => quoted points
  | .array [] => ['[', ']']
  | .array (item :: items) => '[' :: compact item ++ compactItems items
  | .object [] => ['\x7b', '\x7d']
  | .object (m :: ms) => '\x7b' :: quoted m.1 ++ ':' :: compact m.2 ++ compactMembers ms

/-- The items after the first, and the end of the array. -/
def compactItems : List Json → List Char
  | [] => [']']
  | item :: items => ',' :: compact item ++ compactItems items

/-- The members after the first, and the end of the object. -/
def compactMembers : List (List Nat × Json) → List Char
  | [] => ['\x7d']
  | m :: ms => ',' :: quoted m.1 ++ ':' :: compact m.2 ++ compactMembers ms

end

/-- The start of a line at a depth. -/
def newline (depth : Nat) : List Char :=
  '\n' :: List.replicate (2 * depth) ' '

mutual

/-- A value on lines of its own, at a depth. -/
def prettyAt (depth : Nat) : Json → List Char
  | .null => ['n', 'u', 'l', 'l']
  | .bool true => ['t', 'r', 'u', 'e']
  | .bool false => ['f', 'a', 'l', 's', 'e']
  | .number lexeme => lexeme
  | .string points => quoted points
  | .array [] => ['[', ']']
  | .array (item :: items) =>
    '[' :: newline (depth + 1) ++ prettyAt (depth + 1) item ++ prettyItems depth items
  | .object [] => ['\x7b', '\x7d']
  | .object (m :: ms) =>
    '\x7b' :: newline (depth + 1) ++ quoted m.1 ++ ':' :: ' ' :: prettyAt (depth + 1) m.2 ++
      prettyMembers depth ms

/-- The items after the first, and the end of the array. -/
def prettyItems (depth : Nat) : List Json → List Char
  | [] => newline depth ++ [']']
  | item :: items =>
    ',' :: newline (depth + 1) ++ prettyAt (depth + 1) item ++ prettyItems depth items

/-- The members after the first, and the end of the object. -/
def prettyMembers (depth : Nat) : List (List Nat × Json) → List Char
  | [] => newline depth ++ ['\x7d']
  | m :: ms =>
    ',' :: newline (depth + 1) ++ quoted m.1 ++ ':' :: ' ' :: prettyAt (depth + 1) m.2 ++
      prettyMembers depth ms

end

/-- A value on lines of its own. -/
def pretty (j : Json) : List Char := prettyAt 0 j

end AccessReplay.Json
