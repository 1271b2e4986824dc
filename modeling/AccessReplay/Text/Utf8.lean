/-!
# UTF-8

Bytes become characters one at a time.  The decoder remembers where the
character under way began and what its next byte may be, so that a fault can
name the length of the sound part and how many bytes of the broken character
had been accepted.
-/

namespace AccessReplay.Text.Utf8

/-- Where and how a byte sequence stops being UTF-8. -/
structure Fault where
  /-- Length of the longest sound beginning. -/
  validLength : Nat
  /-- How many bytes form the broken character; `none` if the bytes end inside
  one that is sound so far. -/
  broken : Option Nat
deriving DecidableEq, Repr

/-- The wording of a fault. -/
def Fault.message (f : Fault) : String :=
  match f.broken with
  | some n => s!"invalid utf-8 sequence of {n} bytes from index {f.validLength}"
  | none => s!"incomplete utf-8 byte sequence from index {f.validLength}"

/-- The decoder between two bytes. -/
structure State where
  /-- Characters complete so far, the latest first. -/
  chars : List Char := []
  /-- Bytes of the complete characters. -/
  start : Nat := 0
  /-- Bytes of the character under way. -/
  taken : Nat := 0
  /-- Bytes the character under way still needs. -/
  owed : Nat := 0
  /-- Least value of the next byte. -/
  low : UInt8 := 0x80
  /-- Greatest value of the next byte. -/
  high : UInt8 := 0xBF
  /-- Value of the character under way, as far as it is known. -/
  code : Nat := 0

/-- What a first byte promises: how many bytes follow, the range of the next
one, and the bits it contributes. -/
def lead? (b : UInt8) : Option (Nat × UInt8 × UInt8 × Nat) :=
  if b < 0x80 then some (0, 0x80, 0xBF, b.toNat)
  else if 0xC2 ≤ b ∧ b ≤ 0xDF then some (1, 0x80, 0xBF, b.toNat - 0xC0)
  else if b = 0xE0 then some (2, 0xA0, 0xBF, 0)
  else if b = 0xED then some (2, 0x80, 0x9F, 0xD)
  else if 0xE1 ≤ b ∧ b ≤ 0xEF then some (2, 0x80, 0xBF, b.toNat - 0xE0)
  else if b = 0xF0 then some (3, 0x90, 0xBF, 0)
  else if 0xF1 ≤ b ∧ b ≤ 0xF3 then some (3, 0x80, 0xBF, b.toNat - 0xF0)
  else if b = 0xF4 then some (3, 0x80, 0x8F, 4)
  else none

/-- Takes one byte. -/
def State.step (s : State) (b : UInt8) : Except Fault State :=
  match s.owed with
  | 0 =>
    match lead? b with
    | none => .error ⟨s.start, some 1⟩
    | some (0, _, _, code) =>
      .ok { s with chars := Char.ofNat code :: s.chars, start := s.start + 1 }
    | some (owed, low, high, code) => .ok { s with taken := 1, owed, low, high, code }
  | owed + 1 =>
    if s.low ≤ b ∧ b ≤ s.high then
      let code := 64 * s.code + (b.toNat - 0x80)
      let taken := s.taken + 1
      match owed with
      | 0 => .ok { chars := Char.ofNat code :: s.chars, start := s.start + taken }
      | _ => .ok { s with taken, owed, low := 0x80, high := 0xBF, code }
    else .error ⟨s.start, some s.taken⟩

/-- The characters of a byte sequence, or its first fault. -/
def decode (bytes : List UInt8) : Except Fault (List Char) := do
  let s ← bytes.foldlM State.step {}
  if s.owed = 0 then .ok s.chars.reverse else .error ⟨s.start, none⟩

end AccessReplay.Text.Utf8
