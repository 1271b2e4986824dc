/-!
# Tokens of JSON

A text is cut into tokens by an automaton that takes one character at a time.
Between tokens it skips spaces, tabs, line feeds and carriage returns; inside a
string it resolves escapes; a number ends at the first character that cannot
continue it, and that character is then read as the start of what follows.
-/

namespace AccessReplay.Json

/-- A token. -/
inductive Token where
  | openBrace
  | closeBrace
  | openBracket
  | closeBracket
  | colon
  | comma
  | null
  | bool (value : Bool)
  | number (lexeme : List Char)
  | string (points : List Nat)
deriving DecidableEq, Repr

/-- Which part of a number has been read. -/
inductive NumberPart where
  /-- A minus sign: a digit must follow. -/
  | minus
  /-- A leading zero: no digit may follow. -/
  | zero
  /-- Digits of the integer part. -/
  | integer
  /-- The point: a digit must follow. -/
  | point
  /-- Digits after the point. -/
  | fraction
  /-- The exponent mark: a sign or a digit must follow. -/
  | mark
  /-- The exponent's sign: a digit must follow. -/
  | sign
  /-- Digits of the exponent. -/
  | exponent
deriving DecidableEq, Repr

/-- May the number end here? -/
def NumberPart.complete : NumberPart → Bool
  | .zero | .integer | .fraction | .exponent => true
  | .minus | .point | .mark | .sign => false

/-- The part reached by one more character, if it continues the number. -/
def NumberPart.next? (p : NumberPart) (c : Char) : Option NumberPart :=
  match p with
  | .minus => if c = '0' then some .zero else if c.isDigit then some .integer else none
  | .zero =>
    if c = '.' then some .point else if c = 'e' ∨ c = 'E' then some .mark else none
  | .integer =>
    if c.isDigit then some .integer
    else if c = '.' then some .point
    else if c = 'e' ∨ c = 'E' then some .mark else none
  | .point => if c.isDigit then some .fraction else none
  | .fraction =>
    if c.isDigit then some .fraction else if c = 'e' ∨ c = 'E' then some .mark else none
  | .mark =>
    if c = '+' ∨ c = '-' then some .sign else if c.isDigit then some .exponent else none
  | .sign => if c.isDigit then some .exponent else none
  | .exponent => if c.isDigit then some .exponent else none

/-- What the automaton is in the middle of. -/
inductive Cursor where
  /-- Between tokens. -/
  | between
  /-- Inside a word, of which these characters must follow. -/
  | word (owed : List Char) (token : Token)
  /-- Inside a number; its characters so far, the latest first. -/
  | number (part : NumberPart) (seen : List Char)
  /-- Inside a string; its code points so far, the latest first. -/
  | string (seen : List Nat)
  /-- After a backslash. -/
  | escape (seen : List Nat)
  /-- Inside the hexadecimal digits of an escape. -/
  | unicode (owed : Nat) (value : Nat) (seen : List Nat)
deriving DecidableEq, Repr

/-- The automaton: the tokens so far, the latest first, and what it is inside of. -/
structure Lexer where
  tokens : List Token := []
  cursor : Cursor := .between
deriving DecidableEq, Repr

namespace Lexer

/-- Does the character separate tokens? -/
def isBlank (c : Char) : Bool := c == ' ' || c == '\t' || c == '\n' || c == '\r'

/-- A character between tokens. -/
def start (tokens : List Token) (c : Char) : Option Lexer :=
  if isBlank c then some ⟨tokens, .between⟩
  else match c with
  | '\x7b' => some ⟨.openBrace :: tokens, .between⟩
  | '\x7d' => some ⟨.closeBrace :: tokens, .between⟩
  | '[' => some ⟨.openBracket :: tokens, .between⟩
  | ']' => some ⟨.closeBracket :: tokens, .between⟩
  | ':' => some ⟨.colon :: tokens, .between⟩
  | ',' => some ⟨.comma :: tokens, .between⟩
  | '"' => some ⟨tokens, .string []⟩
  | 'n' => some ⟨tokens, .word ['u', 'l', 'l'] .null⟩
  | 't' => some ⟨tokens, .word ['r', 'u', 'e'] (.bool true)⟩
  | 'f' => some ⟨tokens, .word ['a', 'l', 's', 'e'] (.bool false)⟩
  | '-' => some ⟨tokens, .number .minus ['-']⟩
  | '0' => some ⟨tokens, .number .zero ['0']⟩
  | c => if c.isDigit then some ⟨tokens, .number .integer [c]⟩ else none

/-- The code point a one-letter escape stands for. -/
def simpleEscape? : Char → Option Nat
  | '"' => some 0x22
  | '\\' => some 0x5C
  | '/' => some 0x2F
  | 'b' => some 0x08
  | 'f' => some 0x0C
  | 'n' => some 0x0A
  | 'r' => some 0x0D
  | 't' => some 0x09
  | _ => none

/-- The value of a hexadecimal digit of either case. -/
def hexDigit? (c : Char) : Option Nat :=
  if c.isDigit then some (c.toNat - '0'.toNat)
  else if 'a' ≤ c ∧ c ≤ 'f' then some (c.toNat - 'a'.toNat + 10)
  else if 'A' ≤ c ∧ c ≤ 'F' then some (c.toNat - 'A'.toNat + 10)
  else none

/-- Takes one character. -/
def step (l : Lexer) (c : Char) : Option Lexer :=
  match l.cursor with
  | .between => start l.tokens c
  | .word [] _ => none
  | .word (d :: owed) token =>
    if c = d then
      if owed.isEmpty then some ⟨token :: l.tokens, .between⟩
      else some { l with cursor := .word owed token }
    else none
  | .number part seen =>
    match part.next? c with
    | some part => some { l with cursor := .number part (c :: seen) }
    | none => if part.complete then start (.number seen.reverse :: l.tokens) c else none
  | .string seen =>
    if c = '"' then some ⟨.string seen.reverse :: l.tokens, .between⟩
    else if c = '\\' then some { l with cursor := .escape seen }
    else if c.toNat < 0x20 then none
    else some { l with cursor := .string (c.toNat :: seen) }
  | .escape seen =>
    if c = 'u' then some { l with cursor := .unicode 4 0 seen }
    else (simpleEscape? c).map fun u => { l with cursor := .string (u :: seen) }
  | .unicode 0 _ _ => none
  | .unicode (owed + 1) value seen =>
    (hexDigit? c).map fun d =>
      match owed with
      | 0 => { l with cursor := .string ((16 * value + d) :: seen) }
      | _ => { l with cursor := .unicode owed (16 * value + d) seen }

/-- The tokens, if the text may end here. -/
def finish? (l : Lexer) : Option (List Token) :=
  match l.cursor with
  | .between => some l.tokens.reverse
  | .number part seen =>
    if part.complete then some (Token.number seen.reverse :: l.tokens).reverse else none
  | _ => none

end Lexer

/-- Cuts a text into tokens. -/
def tokenize? (text : List Char) : Option (List Token) := do
  let l ← text.foldlM Lexer.step {}
  l.finish?

end AccessReplay.Json
