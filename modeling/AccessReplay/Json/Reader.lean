import AccessReplay.Json.Value
import AccessReplay.Json.Token

/-!
# Reading JSON

Tokens are put together into one value by an automaton with an explicit stack of
the arrays and objects still open, so nesting of any depth is read.  Repeated
member names are kept: what they mean is for the user of the value to say.
-/

namespace AccessReplay.Json

/-- A container that is still open while one of its values is read. -/
inductive Frame where
  /-- An array; its items so far, the latest first. -/
  | array (items : List Json)
  /-- An object; its members so far, the latest first, and the name of the one
  under way. -/
  | object (members : List (List Nat × Json)) (name : List Nat)

/-- What may come next. -/
inductive Expectation where
  /-- A value. -/
  | value
  /-- The first item of an array, or its end. -/
  | firstItem
  /-- The first member of an object, or its end. -/
  | firstMember
  /-- A further member of the object with these members. -/
  | member (members : List (List Nat × Json))
  /-- The colon after a member's name. -/
  | colon (members : List (List Nat × Json)) (name : List Nat)
  /-- Whatever may follow this complete value. -/
  | after (value : Json)

/-- The automaton: the open containers, the innermost first, and what is expected. -/
structure Reader where
  frames : List Frame := []
  expectation : Expectation := .value

namespace Reader

/-- A token where a value must start. -/
def startValue (frames : List Frame) : Token → Option Reader
  | .null => some ⟨frames, .after .null⟩
  | .bool b => some ⟨frames, .after (.bool b)⟩
  | .number lexeme => some ⟨frames, .after (.number lexeme)⟩
  | .string points => some ⟨frames, .after (.string points)⟩
  | .openBracket => some ⟨frames, .firstItem⟩
  | .openBrace => some ⟨frames, .firstMember⟩
  | _ => none

/-- A token after a complete value. -/
def continueAfter (value : Json) : List Frame → Token → Option Reader
  | .array items :: frames, .comma => some ⟨.array (value :: items) :: frames, .value⟩
  | .array items :: frames, .closeBracket =>
    some ⟨frames, .after (.array (value :: items).reverse)⟩
  | .object members name :: frames, .comma =>
    some ⟨frames, .member ((name, value) :: members)⟩
  | .object members name :: frames, .closeBrace =>
    some ⟨frames, .after (.object ((name, value) :: members).reverse)⟩
  | _, _ => none

/-- Takes one token. -/
def step (r : Reader) (t : Token) : Option Reader :=
  match r.expectation with
  | .value => startValue r.frames t
  | .firstItem =>
    if t = .closeBracket then some ⟨r.frames, .after (.array [])⟩
    else startValue (.array [] :: r.frames) t
  | .firstMember =>
    match t with
    | .closeBrace => some ⟨r.frames, .after (.object [])⟩
    | .string name => some ⟨r.frames, .colon [] name⟩
    | _ => none
  | .member members =>
    match t with
    | .string name => some ⟨r.frames, .colon members name⟩
    | _ => none
  | .colon members name =>
    match t with
    | .colon => some ⟨.object members name :: r.frames, .value⟩
    | _ => none
  | .after value => continueAfter value r.frames t

/-- The value, if the tokens may end here. -/
def finish? (r : Reader) : Option Json :=
  match r.frames, r.expectation with
  | [], .after value => some value
  | _, _ => none

end Reader

/-- The value that a sequence of tokens spells. -/
def ofTokens? (tokens : List Token) : Option Json := do
  let r ← tokens.foldlM Reader.step {}
  r.finish?

/-- The value that a text spells. -/
def parse? (text : List Char) : Option Json :=
  tokenize? text >>= ofTokens?

end AccessReplay.Json
