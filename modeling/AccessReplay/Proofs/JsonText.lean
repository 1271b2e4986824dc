import AccessReplay.Json.Printer
import AccessReplay.Proofs.JsonSpelling

/-!
# Written JSON spells its value

A value that can be spelled (`Printable`) is spelled by its compact text, which has no blanks, and
by its pretty text, which has them.  So both are read back as the value.
-/
namespace AccessReplay.Json

/-! ## What can be spelled -/

/-- Are these code points? -/
def AreCodePoints (points : List Nat) : Prop := ∀ u ∈ points, u < 0x110000

mutual

/-- Can the value be spelled? -/
def Printable : Json → Prop
  | .null | .bool _ => True
  | .number lexeme => IsNumeral lexeme
  | .string points => AreCodePoints points
  | .array items => PrintableItems items
  | .object members => PrintableMembers members

/-- Can all items be spelled? -/
def PrintableItems : List Json → Prop
  | [] => True
  | item :: items => item.Printable ∧ PrintableItems items

/-- Can all members be spelled? -/
def PrintableMembers : List (List Nat × Json) → Prop
  | [] => True
  | m :: ms => AreCodePoints m.1 ∧ m.2.Printable ∧ PrintableMembers ms

end

theorem printableItems_iff {items : List Json} :
    PrintableItems items ↔ ∀ item ∈ items, item.Printable := by
  induction items with
  | nil => simp [PrintableItems]
  | cons item items ih => simp [PrintableItems, ih]

theorem printableMembers_iff {ms : List (List Nat × Json)} :
    PrintableMembers ms ↔ ∀ m ∈ ms, AreCodePoints m.1 ∧ m.2.Printable := by
  induction ms with
  | nil => simp [PrintableMembers]
  | cons m ms ih => simp [PrintableMembers, ih, and_assoc]

/-! ## Strings -/

theorem toNat_ofNat {u : Nat} (hu : u < 0x110000) (hs : isHighSurrogate u = false)
    (hs' : isLowSurrogate u = false) : (Char.ofNat u).toNat = u := by
  have hvalid : u.isValidChar := by
    simp [isHighSurrogate, isLowSurrogate] at hs hs'
    unfold Nat.isValidChar
    omega
  rw [Char.ofNat, dif_pos hvalid]
  rfl

theorem hexDigit_hexDigit {n : Nat} (h : n < 16) : HexDigit (hexDigit n) n := ⟨h, .inl rfl⟩

/-- Each code point is written in one of its spellings. -/
theorem pointSpelled_escape {u : Nat} (hu : u < 0x110000) : PointSpelled u (escape u) := by
  unfold escape
  split_ifs with hquote hslash hback htab hfeed hform hreturn hcoded
  · exact hquote ▸ .short (by decide)
  · exact hslash ▸ .short (by decide)
  · exact hback ▸ .short (by decide)
  · exact htab ▸ .short (by decide)
  · exact hfeed ▸ .short (by decide)
  · exact hform ▸ .short (by decide)
  · exact hreturn ▸ .short (by decide)
  · -- only what has sixteen bits is written by its number
    have hsmall : u < 65536 := by
      simp only [isHighSurrogate, isLowSurrogate, Bool.and_eq_true, decide_eq_true_eq] at hcoded
      omega
    have hvalue : 16 * (16 * (16 * (u / 4096 % 16) + u / 256 % 16) + u / 16 % 16) + u % 16 = u := by
      omega
    have hspelled := PointSpelled.unicode (hexDigit_hexDigit (Nat.mod_lt (u / 4096) (by decide)))
      (hexDigit_hexDigit (Nat.mod_lt (u / 256) (by decide)))
      (hexDigit_hexDigit (Nat.mod_lt (u / 16) (by decide)))
      (hexDigit_hexDigit (Nat.mod_lt u (by decide)))
    rwa [hvalue] at hspelled
  · simp only [not_or, Bool.not_eq_true] at hcoded
    obtain ⟨hcontrol, hhigh, hlow⟩ := hcoded
    have hcode := toNat_ofNat hu hhigh hlow
    have hspelled : PointSpelled (Char.ofNat u).toNat [Char.ofNat u] := by
      apply PointSpelled.plain
      · omega
      · intro he
        rw [he] at hcode
        exact hquote hcode.symm
      · intro he
        rw [he] at hcode
        exact hslash hcode.symm
    rwa [hcode] at hspelled

theorem spelled_quoted {points : List Nat} (h : AreCodePoints points) :
    (Token.string points).Spelled (quoted points) := by
  refine ⟨points.flatMap escape, ?_, rfl⟩
  induction points with
  | nil => exact .nil
  | cons u points ih =>
    obtain ⟨hu, hpoints⟩ := List.forall_mem_cons.mp h
    exact .cons (pointSpelled_escape hu) (ih hpoints)

/-! ## Values -/

/-- A token of one character. -/
theorem Spaced.char {c : Char} {t : Token} {ts : List Token} {text : List Char}
    (h : t.Spelled [c]) (hrest : Spaced ts text) : Spaced (t :: ts) (c :: text) :=
  .token h hrest

/-- The name of a member with its colon. -/
theorem Spaced.name {name : List Nat} {ts : List Token} {text : List Char} (h : AreCodePoints name)
    (hrest : Spaced ts text) :
    Spaced (.string name :: .colon :: ts) (quoted name ++ ':' :: text) :=
  .token (spelled_quoted h) (.char rfl hrest)

theorem Spaced.single {t : Token} {cs : List Char} (h : t.Spelled cs) : Spaced [t] cs := by
  simpa using Spaced.token h .nil

mutual

/-- **A compact text spells its value.** -/
theorem spells_compact : ∀ (j : Json), j.Printable → Spells j j.compact
  | .null, _ => .single rfl
  | .bool true, _ => .single rfl
  | .bool false, _ => .single rfl
  | .number _, h => .single ⟨rfl, isNumeral_iff.mp h⟩
  | .string _, h => .single (spelled_quoted h)
  | .array [], _ => .char rfl (.single rfl)
  | .array (item :: items), h =>
    .char rfl ((spells_compact item h.1).append (spaced_compactItems items h.2))
  | .object [], _ => .char rfl (.single rfl)
  | .object (m :: ms), h => by
    have hrest := Spaced.name h.1
      ((spells_compact m.2 h.2.1).append (spaced_compactMembers ms h.2.2))
    have htext := Spaced.char (t := .openBrace) rfl hrest
    simpa [Spells, tokens, compact] using htext

theorem spaced_compactItems : ∀ (items : List Json), PrintableItems items →
    Spaced (itemTokens items) (compactItems items)
  | [], _ => .single rfl
  | item :: items, h =>
    .char rfl ((spells_compact item h.1).append (spaced_compactItems items h.2))

theorem spaced_compactMembers : ∀ (ms : List (List Nat × Json)), PrintableMembers ms →
    Spaced (memberTokens ms) (compactMembers ms)
  | [], _ => .single rfl
  | m :: ms, h => by
    have hrest := Spaced.name h.1
      ((spells_compact m.2 h.2.1).append (spaced_compactMembers ms h.2.2))
    have htext := Spaced.char (t := .comma) rfl hrest
    simpa [memberTokens, compactMembers] using htext

end

theorem Spaced.blanks {cs : List Char} {ts : List Token} {text : List Char}
    (h : ∀ c ∈ cs, Blank c) (hrest : Spaced ts text) : Spaced ts (cs ++ text) := by
  induction cs with
  | nil => exact hrest
  | cons c cs ih =>
    obtain ⟨hc, hcs⟩ := List.forall_mem_cons.mp h
    exact .blank hc (ih hcs)

/-- A new line and its indentation are blanks. -/
theorem Spaced.newline {ts : List Token} {text : List Char} (depth : Nat) (h : Spaced ts text) :
    Spaced ts (newline depth ++ text) := by
  refine h.blanks fun c hc => ?_
  rcases List.mem_cons.mp hc with rfl | hc
  · exact .inr (.inr (.inl rfl))
  · exact .inl (List.eq_of_mem_replicate hc)

mutual

/-- **A pretty text spells its value**, at any depth. -/
theorem spells_prettyAt : ∀ (depth : Nat) (j : Json), j.Printable → Spells j (prettyAt depth j)
  | _, .null, _ => .single rfl
  | _, .bool true, _ => .single rfl
  | _, .bool false, _ => .single rfl
  | _, .number _, h => .single ⟨rfl, isNumeral_iff.mp h⟩
  | _, .string _, h => .single (spelled_quoted h)
  | _, .array [], _ => .char rfl (.single rfl)
  | depth, .array (item :: items), h => by
    have hitems := (spells_prettyAt (depth + 1) item h.1).append
      (spaced_prettyItems depth items h.2)
    have htext := Spaced.char (t := .openBracket) rfl (hitems.newline (depth + 1))
    simpa [Spells, tokens, prettyAt] using htext
  | _, .object [], _ => .char rfl (.single rfl)
  | depth, .object (m :: ms), h => by
    have hrest := Spaced.name h.1 (.blank (.inl rfl)
      ((spells_prettyAt (depth + 1) m.2 h.2.1).append (spaced_prettyMembers depth ms h.2.2)))
    have htext := Spaced.char (t := .openBrace) rfl (hrest.newline (depth + 1))
    simpa [Spells, tokens, prettyAt] using htext

theorem spaced_prettyItems : ∀ (depth : Nat) (items : List Json), PrintableItems items →
    Spaced (itemTokens items) (prettyItems depth items)
  | depth, [], _ => (Spaced.single (t := .closeBracket) rfl).newline depth
  | depth, item :: items, h => by
    have hitems := (spells_prettyAt (depth + 1) item h.1).append
      (spaced_prettyItems depth items h.2)
    have htext := Spaced.char (t := .comma) rfl (hitems.newline (depth + 1))
    simpa [itemTokens, prettyItems] using htext

theorem spaced_prettyMembers : ∀ (depth : Nat) (ms : List (List Nat × Json)),
    PrintableMembers ms → Spaced (memberTokens ms) (prettyMembers depth ms)
  | depth, [], _ => (Spaced.single (t := .closeBrace) rfl).newline depth
  | depth, m :: ms, h => by
    have hrest := Spaced.name h.1 (.blank (.inl rfl)
      ((spells_prettyAt (depth + 1) m.2 h.2.1).append (spaced_prettyMembers depth ms h.2.2)))
    have htext := Spaced.char (t := .comma) rfl (hrest.newline (depth + 1))
    simpa [memberTokens, prettyMembers] using htext

end

/-- **A compact text is read as the value that it was made of.** -/
theorem parse?_compact {j : Json} (h : j.Printable) : parse? j.compact = some j :=
  parse?_of_spells (spells_compact j h)

end AccessReplay.Json
