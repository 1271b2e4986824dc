import AccessReplay.Json.Reader
import AccessReplay.Proofs.JsonNumbers
import Mathlib.Data.List.Chain

/-!
# JSON texts are read

How a value may be spelled is said here without the lexer and the reader: a number has its shape
(`SpelledNumber`), a string spells each of its code points in one of three ways, a value has a
sequence of tokens, and a text has a spelling of each token with any blanks between them (`Spells`).
Every such text is cut into the tokens (`feed_spaced`), and they are put together into the value
again (`feed_tokens`), so it is read as this value (`parse?_of_spells`).  Both are proved for texts
and tokens that go on: a number ends only with the character after it, so a lexer inside a finished
number counts as one behind it (`Settles`).
-/
namespace AccessReplay.Json

/-! ## How strings are spelled -/

/-- The letters of short escapes, with the code points that they stand for. -/
def shortForms : List (Char × Nat) :=
  [('"', 0x22), ('\\', 0x5C), ('/', 0x2F), ('b', 0x08), ('f', 0x0C), ('n', 0x0A), ('r', 0x0D),
    ('t', 0x09)]

/-- Is this a hexadecimal digit, of either case, for a number? -/
def HexDigit (c : Char) (d : Nat) : Prop :=
  d < 16 ∧ (c = Nat.digitChar d ∨ c = (Nat.digitChar d).toUpper)

/-- How a code point may be spelled inside a string: as it is, if it is no control, quote or
backslash; by a short escape; or by four hexadecimal digits. -/
inductive PointSpelled : Nat → List Char → Prop
  | plain {c : Char} : 0x20 ≤ c.toNat → c ≠ '"' → c ≠ '\\' → PointSpelled c.toNat [c]
  | short {c : Char} {u : Nat} : (c, u) ∈ shortForms → PointSpelled u ['\\', c]
  | unicode {c₁ c₂ c₃ c₄ : Char} {d₁ d₂ d₃ d₄ : Nat} : HexDigit c₁ d₁ → HexDigit c₂ d₂ →
      HexDigit c₃ d₃ → HexDigit c₄ d₄ →
      PointSpelled (16 * (16 * (16 * d₁ + d₂) + d₃) + d₄) ['\\', 'u', c₁, c₂, c₃, c₄]

/-- How the code points of a string may be spelled between its quotes. -/
inductive PointsSpelled : List Nat → List Char → Prop
  | nil : PointsSpelled [] []
  | cons {u : Nat} {us : List Nat} {cs cs' : List Char} : PointSpelled u cs →
      PointsSpelled us cs' → PointsSpelled (u :: us) (cs ++ cs')

/-! ## How values are spelled -/

/-- How a token may be spelled. -/
def Token.Spelled : Token → List Char → Prop
  | .openBrace, cs => cs = ['\x7b']
  | .closeBrace, cs => cs = ['\x7d']
  | .openBracket, cs => cs = ['[']
  | .closeBracket, cs => cs = [']']
  | .colon, cs => cs = [':']
  | .comma, cs => cs = [',']
  | .null, cs => cs = "null".toList
  | .bool true, cs => cs = "true".toList
  | .bool false, cs => cs = "false".toList
  | .number lexeme, cs => cs = lexeme ∧ SpelledNumber lexeme
  | .string points, cs => ∃ inner, PointsSpelled points inner ∧ cs = '"' :: inner ++ ['"']

/-- The blanks that may stand between tokens. -/
def Blank (c : Char) : Prop := c = ' ' ∨ c = '\t' ∨ c = '\n' ∨ c = '\r'

/-- A spelling of each of the tokens in turn, with any blanks between them and around them. -/
inductive Spaced : List Token → List Char → Prop
  | nil : Spaced [] []
  | blank {c : Char} {ts : List Token} {text : List Char} : Blank c → Spaced ts text →
      Spaced ts (c :: text)
  | token {t : Token} {ts : List Token} {cs text : List Char} : t.Spelled cs → Spaced ts text →
      Spaced (t :: ts) (cs ++ text)

mutual

/-- The tokens of a value. -/
def tokens : Json → List Token
  | .null => [.null]
  | .bool b => [.bool b]
  | .number lexeme => [.number lexeme]
  | .string points => [.string points]
  | .array [] => [.openBracket, .closeBracket]
  | .array (item :: items) => .openBracket :: (tokens item ++ itemTokens items)
  | .object [] => [.openBrace, .closeBrace]
  | .object (m :: ms) => .openBrace :: .string m.1 :: .colon :: (tokens m.2 ++ memberTokens ms)

/-- The tokens of the items after the first, and of the end of the array. -/
def itemTokens : List Json → List Token
  | [] => [.closeBracket]
  | item :: items => .comma :: (tokens item ++ itemTokens items)

/-- The tokens of the members after the first, and of the end of the object. -/
def memberTokens : List (List Nat × Json) → List Token
  | [] => [.closeBrace]
  | m :: ms => .comma :: .string m.1 :: .colon :: (tokens m.2 ++ memberTokens ms)

end

/-- Does the text spell the value? -/
def Spells (j : Json) (text : List Char) : Prop := Spaced j.tokens text

theorem Spaced.append {ts ts' : List Token} {text text' : List Char} (h : Spaced ts text)
    (h' : Spaced ts' text') : Spaced (ts ++ ts') (text ++ text') := by
  induction h with
  | nil => exact h'
  | blank hc _ ih => exact .blank hc ih
  | token ht _ ih =>
    rw [List.append_assoc]
    exact .token ht ih

/-! ## Numbers are followed by marks -/

/-- Is this a number? -/
def Token.IsNumber : Token → Prop
  | .number _ => True
  | _ => False

/-- May this token follow a number? -/
def Token.Ends : Token → Prop
  | .comma | .closeBracket | .closeBrace => True
  | _ => False

/-- No number is followed by a token that could go on with it. -/
def Separated (ts : List Token) : Prop := ts.IsChain fun t t' => t.IsNumber → t'.Ends

theorem Separated.append {ts ts' : List Token} (h : Separated ts) (h' : Separated ts')
    (hends : ∀ t ∈ ts'.head?, t.Ends) : Separated (ts ++ ts') :=
  List.isChain_append.mpr ⟨h, h', fun _ _ t ht _ => hends t ht⟩

theorem Separated.cons {t : Token} {ts : List Token} (ht : ¬t.IsNumber) (h : Separated ts) :
    Separated (t :: ts) :=
  List.isChain_cons.mpr ⟨fun _ _ hnumber => absurd hnumber ht, h⟩

theorem head?_itemTokens (items : List Json) : ∀ t ∈ (itemTokens items).head?, t.Ends := by
  cases items <;> simp [itemTokens, Token.Ends]

theorem head?_memberTokens (ms : List (List Nat × Json)) :
    ∀ t ∈ (memberTokens ms).head?, t.Ends := by
  cases ms <;> simp [memberTokens, Token.Ends]

mutual

theorem separated_tokens : ∀ j : Json, Separated j.tokens
  | .null | .bool _ | .number _ | .string _ => List.isChain_singleton _
  | .array [] => .cons id (List.isChain_singleton _)
  | .array (item :: items) => .cons id
      ((separated_tokens item).append (separated_itemTokens items) (head?_itemTokens items))
  | .object [] => .cons id (List.isChain_singleton _)
  | .object (m :: ms) => .cons id (.cons id (.cons id
      ((separated_tokens m.2).append (separated_memberTokens ms) (head?_memberTokens ms))))

theorem separated_itemTokens : ∀ items : List Json, Separated (itemTokens items)
  | [] => List.isChain_singleton _
  | item :: items => .cons id
      ((separated_tokens item).append (separated_itemTokens items) (head?_itemTokens items))

theorem separated_memberTokens : ∀ ms : List (List Nat × Json), Separated (memberTokens ms)
  | [] => List.isChain_singleton _
  | m :: ms => .cons id (.cons id (.cons id
      ((separated_tokens m.2).append (separated_memberTokens ms) (head?_memberTokens ms))))

end

/-! ## Cutting a text into tokens -/

namespace Lexer

variable {l l' l'' : Lexer} {ts done : List Token} {seen : List Nat} {u : Nat}
  {text : List Char} {t : Token}

/-- Takes several characters. -/
def feed (l : Lexer) (text : List Char) : Option Lexer := text.foldlM step l

@[simp] theorem feed_nil (l : Lexer) : l.feed [] = some l := rfl

theorem feed_cons (l : Lexer) (c : Char) (text : List Char) :
    l.feed (c :: text) = (l.step c).bind (·.feed text) := rfl

theorem feed_append {text text' : List Char} (h : l.feed text = some l')
    (h' : l'.feed text' = some l'') : l.feed (text ++ text') = some l'' := by
  unfold feed at h h' ⊢
  rw [List.foldlM_append, h]
  exact h'

/-! ### Strings -/

theorem hexDigit?_eq {c : Char} {d : Nat} (h : HexDigit c d) : hexDigit? c = some d := by
  have hall : ∀ d < 16, hexDigit? (Nat.digitChar d) = some d ∧
      hexDigit? (Nat.digitChar d).toUpper = some d := by
    decide
  rcases h with ⟨hd, rfl | rfl⟩
  · exact (hall d hd).1
  · exact (hall d hd).2

theorem feed_point {cs : List Char} (h : PointSpelled u cs) :
    feed ⟨ts, .string seen⟩ cs = some ⟨ts, .string (u :: seen)⟩ := by
  cases h with
  | @plain c hcontrol hquote hslash =>
    simp [feed_cons, step, hquote, hslash, hcontrol]
  | short h =>
    have hall : ∀ form ∈ shortForms, form.1 ≠ 'u' ∧ simpleEscape? form.1 = some form.2 := by
      decide
    obtain ⟨hu, hescape⟩ := hall _ h
    simp only at hu hescape
    simp [feed_cons, step, hu, hescape]
  | unicode h₁ h₂ h₃ h₄ =>
    simp [feed_cons, step, hexDigit?_eq h₁, hexDigit?_eq h₂, hexDigit?_eq h₃, hexDigit?_eq h₄]

theorem feed_points {points : List Nat} {inner : List Char} (h : PointsSpelled points inner) :
    feed ⟨ts, .string seen⟩ inner = some ⟨ts, .string (points.reverse ++ seen)⟩ := by
  induction h generalizing seen with
  | nil => rfl
  | cons hu _ ih =>
    rw [List.reverse_cons, List.append_assoc]
    exact feed_append (feed_point hu) ih

theorem feed_string {points : List Nat} {inner : List Char} (h : PointsSpelled points inner) :
    feed ⟨ts, .between⟩ ('"' :: inner ++ ['"']) = some ⟨.string points :: ts, .between⟩ := by
  have hclose : feed ⟨ts, .string (points.reverse ++ [])⟩ ['"'] =
      some ⟨.string points :: ts, .between⟩ := by
    simp [feed_cons, step]
  exact feed_append (l := ⟨ts, .string []⟩) (feed_points h) hclose

/-! ### Numbers -/

/-- A number begins with the character that begins its first part. -/
theorem start_of_first? {c : Char} {part : NumberPart} (h : NumberPart.first? c = some part) :
    start ts c = some ⟨ts, .number part [c]⟩ := by
  unfold NumberPart.first? at h
  split at h
  · next hc =>
    subst hc
    obtain rfl := Option.some.inj h
    rfl
  split at h
  · next hc =>
    subst hc
    obtain rfl := Option.some.inj h
    rfl
  split at h
  · next hminus hzero hdigit =>
    obtain rfl := Option.some.inj h
    have hblank : isBlank c = false := by
      rw [Bool.eq_false_iff]
      intro hb
      simp only [isBlank, Bool.or_eq_true, beq_iff_eq] at hb
      rcases hb with ((rfl | rfl) | rfl) | rfl <;> exact absurd hdigit (by decide)
    unfold start
    rw [hblank]
    simp only [Bool.false_eq_true, if_false]
    split <;> first | exact absurd hdigit (by decide) | simp_all
  · cases h

theorem feed_digits {part last : NumberPart} {cs : List Char}
    (h : cs.foldlM NumberPart.next? part = some last) (seen : List Char) :
    feed ⟨ts, .number part seen⟩ cs = some ⟨ts, .number last (cs.reverse ++ seen)⟩ := by
  induction cs generalizing part seen with
  | nil =>
    obtain rfl := Option.some.inj h
    rfl
  | cons c cs ih =>
    rw [List.foldlM_cons] at h
    obtain ⟨next, hnext, hrest⟩ := Option.bind_eq_some_iff.mp h
    rw [feed_cons, step]
    simp only [hnext]
    simpa using ih hrest (c :: seen)

/-! ### The character after a number -/

/-- May the character follow a number? -/
def Delimits (c : Char) : Prop := Blank c ∨ c = ',' ∨ c = ']' ∨ c = '\x7d'

/-- A lexer that has come to the end of a number, which the next character will tell, counts as the
one that is behind it. -/
structure Settles (l l' : Lexer) : Prop where
  finish : l.finish? = l'.finish?
  step : ∀ c, Delimits c → l.step c = l'.step c

namespace Settles

theorem refl (l : Lexer) : Settles l l := ⟨rfl, fun _ _ => rfl⟩

theorem trans (h : Settles l l') (h' : Settles l' l'') : Settles l l'' :=
  ⟨h.finish.trans h'.finish, fun c hc => (h.step c hc).trans (h'.step c hc)⟩

theorem number (ts : List Token) {part : NumberPart} (h : part.complete = true)
    (seen : List Char) :
    Settles ⟨ts, .number part seen⟩ ⟨.number seen.reverse :: ts, .between⟩ where
  finish := by simp [finish?, h]
  step c hc := by
    -- no part of a number goes on with such a character
    have hends : part.next? c = none := by
      rcases hc with (rfl | rfl | rfl | rfl) | rfl | rfl | rfl <;> cases part <;> rfl
    simp [Lexer.step, hends, h]

end Settles

theorem feed_number {lexeme : List Char} (h : IsNumeral lexeme) :
    ∃ l, feed ⟨ts, .between⟩ lexeme = some l ∧ Settles l ⟨.number lexeme :: ts, .between⟩ := by
  cases lexeme with
  | nil => exact h.elim
  | cons c cs =>
    obtain ⟨part, last, hfirst, hrest, hcomplete⟩ := h
    refine ⟨⟨ts, .number last (cs.reverse ++ [c])⟩, ?_, ?_⟩
    · rw [feed_cons, step]
      simp only [start_of_first? hfirst]
      exact feed_digits hrest [c]
    · simpa using Settles.number ts hcomplete (cs.reverse ++ [c])

/-! ### Tokens -/

/-- Only the end of a number is told by what follows. -/
theorem feed_token {cs : List Char} (h : t.Spelled cs) (done : List Token) :
    ∃ l, feed ⟨done, .between⟩ cs = some l ∧ Settles l ⟨t :: done, .between⟩ ∧
      (t.IsNumber ∨ l = ⟨t :: done, .between⟩) := by
  cases t with
  | number lexeme =>
    obtain ⟨rfl, hnumber⟩ := h
    obtain ⟨l, hfeed, hsettles⟩ := feed_number (isNumeral_iff.mpr hnumber)
    exact ⟨l, hfeed, hsettles, .inl trivial⟩
  | string points =>
    obtain ⟨inner, hpoints, rfl⟩ := h
    exact ⟨_, feed_string hpoints, .refl _, .inr rfl⟩
  | bool b =>
    cases b with
    | true =>
      obtain rfl := h
      exact ⟨_, rfl, .refl _, .inr rfl⟩
    | false =>
      obtain rfl := h
      exact ⟨_, rfl, .refl _, .inr rfl⟩
  | _ =>
    obtain rfl := h
    exact ⟨_, rfl, .refl _, .inr rfl⟩

/-- Before a token that ends a number stands a character that ends it too. -/
theorem delimits_of_spaced {c : Char} (h : Spaced ts (c :: text)) (hts : ∀ t ∈ ts.head?, t.Ends) :
    Delimits c := by
  generalize htext : c :: text = whole at h
  cases h with
  | nil => cases htext
  | blank hc _ =>
    obtain ⟨rfl, -⟩ := List.cons.inj htext
    exact .inl hc
  | @token t ts cs rest ht _ =>
    have hends := hts t rfl
    cases t with
    | comma | closeBracket | closeBrace =>
      obtain rfl := ht
      obtain ⟨rfl, -⟩ := List.cons.inj htext
      simp [Delimits]
    | _ => exact hends.elim

/-- **A text is cut into the tokens that it spells**, whatever comes before and after. -/
theorem feed_spaced (h : Spaced ts text) (hts : Separated ts) (done : List Token) :
    ∃ l, feed ⟨done, .between⟩ text = some l ∧ Settles l ⟨ts.reverse ++ done, .between⟩ := by
  induction h generalizing done with
  | nil => exact ⟨_, rfl, .refl _⟩
  | blank hc _ ih =>
    obtain ⟨l, hfeed, hsettles⟩ := ih hts done
    refine ⟨l, ?_, hsettles⟩
    rw [← hfeed]
    rcases hc with rfl | rfl | rfl | rfl <;> rfl
  | @token t ts cs text ht hrest ih =>
    obtain ⟨hnext, hts⟩ := List.isChain_cons.mp hts
    obtain ⟨l₁, hfeed, hsettles, hnumber⟩ := feed_token ht done
    obtain ⟨l₂, hfeed', hsettles'⟩ := ih hts (t :: done)
    rw [List.reverse_cons, List.append_assoc, List.singleton_append]
    rcases hnumber with hnumber | rfl
    · -- the number is told to be finished by what comes next, unless nothing comes
      cases text with
      | nil =>
        obtain rfl := Option.some.inj hfeed'
        exact ⟨l₁, by rw [List.append_nil, hfeed], hsettles.trans hsettles'⟩
      | cons c text =>
        have hdelimits := delimits_of_spaced hrest fun t' ht' => hnext t' ht' hnumber
        rw [feed_cons, ← hsettles.step c hdelimits, ← feed_cons] at hfeed'
        exact ⟨l₂, feed_append hfeed hfeed', hsettles'⟩
    · exact ⟨l₂, feed_append hfeed hfeed', hsettles'⟩

end Lexer

theorem tokenize?_of_spells {j : Json} {text : List Char} (h : Spells j text) :
    tokenize? text = some j.tokens := by
  obtain ⟨l, hfeed, hsettles⟩ := Lexer.feed_spaced h (separated_tokens j) []
  have hfold : text.foldlM Lexer.step {} = some l := hfeed
  rw [tokenize?, hfold]
  exact hsettles.finish.trans (by simp [Lexer.finish?])

/-! ## Putting tokens together -/

namespace Reader

variable {r r' r'' : Reader} {frames : List Frame}

/-- Takes several tokens. -/
def feed (r : Reader) (ts : List Token) : Option Reader := ts.foldlM step r

theorem feed_append {ts ts' : List Token} (h : r.feed ts = some r') (h' : r'.feed ts' = some r'') :
    r.feed (ts ++ ts') = some r'' := by
  unfold feed at h h' ⊢
  rw [List.foldlM_append, h]
  exact h'

/-- No value begins with the end of an array. -/
theorem feed_firstItem (j : Json) :
    feed ⟨frames, .firstItem⟩ j.tokens = feed ⟨.array [] :: frames, .value⟩ j.tokens := by
  cases j with
  | array items => cases items <;> rfl
  | object ms => cases ms <;> rfl
  | _ => rfl

mutual

/-- **The tokens of a value are put together into it**, whatever comes before and after. -/
theorem feed_tokens : ∀ (j : Json) (frames : List Frame),
    feed ⟨frames, .value⟩ j.tokens = some ⟨frames, .after j⟩
  | .null, _ => rfl
  | .bool _, _ => rfl
  | .number _, _ => rfl
  | .string _, _ => rfl
  | .array [], _ => rfl
  | .array (item :: items), frames => by
    have hitem : feed ⟨frames, .value⟩ (.openBracket :: item.tokens) =
        some ⟨.array [] :: frames, .after item⟩ :=
      (feed_firstItem item).trans (feed_tokens item (.array [] :: frames))
    exact feed_append hitem (feed_itemTokens items [] item frames)
  | .object [], _ => rfl
  | .object (m :: ms), frames => by
    have hmember : feed ⟨frames, .value⟩ (.openBrace :: .string m.1 :: .colon :: m.2.tokens) =
        some ⟨.object [] m.1 :: frames, .after m.2⟩ :=
      feed_tokens m.2 (.object [] m.1 :: frames)
    exact feed_append hmember (feed_memberTokens ms [] m.1 m.2 frames)

theorem feed_itemTokens : ∀ (items done : List Json) (item : Json) (frames : List Frame),
    feed ⟨.array done :: frames, .after item⟩ (itemTokens items) =
      some ⟨frames, .after (.array (done.reverse ++ item :: items))⟩
  | [], done, item, frames => by
    show some _ = some _
    simp
  | next :: items, done, item, frames => by
    have hitem : feed ⟨.array done :: frames, .after item⟩ (.comma :: next.tokens) =
        some ⟨.array (item :: done) :: frames, .after next⟩ :=
      feed_tokens next (.array (item :: done) :: frames)
    have hrest := feed_itemTokens items (item :: done) next frames
    rw [List.reverse_cons, List.append_assoc, List.singleton_append] at hrest
    exact feed_append hitem hrest

theorem feed_memberTokens : ∀ (ms done : List (List Nat × Json)) (name : List Nat) (j : Json)
    (frames : List Frame), feed ⟨.object done name :: frames, .after j⟩ (memberTokens ms) =
      some ⟨frames, .after (.object (done.reverse ++ (name, j) :: ms))⟩
  | [], done, name, j, frames => by
    show some _ = some _
    simp
  | m :: ms, done, name, j, frames => by
    have hmember : feed ⟨.object done name :: frames, .after j⟩
        (.comma :: .string m.1 :: .colon :: m.2.tokens) =
          some ⟨.object ((name, j) :: done) m.1 :: frames, .after m.2⟩ :=
      feed_tokens m.2 (.object ((name, j) :: done) m.1 :: frames)
    have hrest := feed_memberTokens ms ((name, j) :: done) m.1 m.2 frames
    rw [List.reverse_cons, List.append_assoc, List.singleton_append] at hrest
    exact feed_append hmember hrest

end

end Reader

theorem ofTokens?_tokens (j : Json) : ofTokens? j.tokens = some j := by
  have hfold : j.tokens.foldlM Reader.step {} = some ⟨[], .after j⟩ := Reader.feed_tokens j []
  rw [ofTokens?, hfold]
  rfl

/-- **A text is read as the value that it spells.** -/
theorem parse?_of_spells {j : Json} {text : List Char} (h : Spells j text) :
    parse? text = some j := by
  rw [parse?, tokenize?_of_spells h]
  exact ofTokens?_tokens j

end AccessReplay.Json
