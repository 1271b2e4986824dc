import AccessReplay.Json.Token

/-!
# How numbers are spelled

The shape of a number in JSON: an integer, perhaps with a sign, and after it perhaps a fraction and
an exponent (`SpelledNumber`).  The lexer reads a number part by part; the characters that
complete it from each part are those that the shape has there, and so it accepts just the numbers
that are spelled by the shape (`isNumeral_iff`).
-/
namespace AccessReplay.Json

/-- Are these digits? -/
def AllDigits (cs : List Char) : Prop := ∀ c ∈ cs, c.isDigit = true

/-- Zero, or digits that do not begin with it. -/
def IsInteger (cs : List Char) : Prop :=
  cs = ['0'] ∨ ∃ d ds, cs = d :: ds ∧ d ≠ '0' ∧ AllDigits (d :: ds)

/-- Nothing, or a point and digits. -/
def IsFraction (cs : List Char) : Prop :=
  cs = [] ∨ ∃ d ds, cs = '.' :: d :: ds ∧ AllDigits (d :: ds)

/-- Nothing, or a mark and digits, perhaps with a sign. -/
def IsExponent (cs : List Char) : Prop :=
  cs = [] ∨ ∃ mark sign d ds, cs = mark :: (sign ++ d :: ds) ∧ (mark = 'e' ∨ mark = 'E') ∧
    (sign = [] ∨ sign = ['+'] ∨ sign = ['-']) ∧ AllDigits (d :: ds)

/-- A fraction and an exponent, each of which may be missing. -/
def IsNumberEnd (cs : List Char) : Prop :=
  ∃ fraction exponent, cs = fraction ++ exponent ∧ IsFraction fraction ∧ IsExponent exponent

/-- Is this how a number may be spelled? -/
def SpelledNumber (cs : List Char) : Prop :=
  ∃ sign integer rest, cs = sign ++ (integer ++ rest) ∧ (sign = [] ∨ sign = ['-']) ∧
    IsInteger integer ∧ IsNumberEnd rest

namespace NumberPart

variable {part : NumberPart} {c : Char} {cs : List Char}

/-- Do the characters complete a number of which this part was read? -/
def Completes (part : NumberPart) (cs : List Char) : Prop :=
  ∃ last, cs.foldlM next? part = some last ∧ last.complete = true

theorem completes_nil : part.Completes [] ↔ part.complete = true := by
  simp [Completes]

theorem completes_cons :
    part.Completes (c :: cs) ↔ ∃ next, part.next? c = some next ∧ next.Completes cs := by
  simp only [Completes, List.foldlM_cons, Option.bind_eq_bind, Option.bind_eq_some_iff]
  constructor
  · rintro ⟨last, ⟨next, hnext, hlast⟩, hcomplete⟩
    exact ⟨next, hnext, last, hlast, hcomplete⟩
  · rintro ⟨next, hnext, last, hlast, hcomplete⟩
    exact ⟨last, ⟨next, hnext, hlast⟩, hcomplete⟩

/-- A part that consists of digits is read to the first character that is none. -/
theorem completes_digits {R : List Char → Prop}
    (hloop : ∀ c, c.isDigit = true → part.next? c = some part)
    (hhead : ∀ c cs, R (c :: cs) → c.isDigit = false)
    (hrest : ∀ cs, (∀ c ∈ cs.head?, c.isDigit = false) → (part.Completes cs ↔ R cs)) :
    part.Completes cs ↔ ∃ ds rest, cs = ds ++ rest ∧ AllDigits ds ∧ R rest := by
  -- `hhead` leaves only one way to part the digits from the rest
  induction cs with
  | nil =>
    rw [hrest [] (by simp)]
    constructor
    · intro h
      exact ⟨[], [], rfl, by simp [AllDigits], h⟩
    · rintro ⟨ds, rest, hcs, -, h⟩
      obtain ⟨rfl, rfl⟩ := List.append_eq_nil_iff.mp hcs.symm
      exact h
  | cons c cs ih =>
    by_cases hc : c.isDigit = true
    · have hstep : part.Completes (c :: cs) ↔ part.Completes cs := by
        simp [completes_cons, hloop c hc]
      rw [hstep, ih]
      constructor
      · rintro ⟨ds, rest, rfl, hds, h⟩
        exact ⟨c :: ds, rest, rfl, List.forall_mem_cons.mpr ⟨hc, hds⟩, h⟩
      · rintro ⟨ds, rest, hcs, hds, h⟩
        cases ds with
        | nil =>
          obtain rfl : rest = c :: cs := hcs.symm
          rw [hhead c cs h] at hc
          cases hc
        | cons d ds =>
          obtain ⟨rfl, rfl⟩ := List.cons.inj hcs
          exact ⟨ds, rest, rfl, fun d hd => hds d (List.mem_cons_of_mem _ hd), h⟩
    · rw [hrest (c :: cs) (by simpa using hc)]
      constructor
      · intro h
        exact ⟨[], c :: cs, rfl, by simp [AllDigits], h⟩
      · rintro ⟨ds, rest, hcs, hds, h⟩
        cases ds with
        | nil => exact hcs ▸ h
        | cons d ds =>
          obtain ⟨rfl, rfl⟩ := List.cons.inj hcs
          exact absurd (hds c List.mem_cons_self) hc

theorem completes_exponent : exponent.Completes cs ↔ AllDigits cs := by
  rw [completes_digits (R := (· = [])) (fun c hc => by simp [next?, hc]) (by simp)]
  · simp
  · intro cs hcs
    cases cs with
    | nil => simp [completes_nil, complete]
    | cons c cs => simp [completes_cons, next?, hcs c rfl]

theorem completes_sign :
    sign.Completes cs ↔ ∃ d ds, cs = d :: ds ∧ AllDigits (d :: ds) := by
  cases cs with
  | nil => simp [completes_nil, complete]
  | cons c cs =>
    have hstep : sign.Completes (c :: cs) ↔ c.isDigit = true ∧ exponent.Completes cs := by
      by_cases hc : c.isDigit = true <;> simp [completes_cons, next?, hc]
    rw [hstep, completes_exponent]
    constructor
    · exact fun h => ⟨c, cs, rfl, List.forall_mem_cons.mpr h⟩
    · rintro ⟨d, ds, hcs, hds⟩
      obtain ⟨rfl, rfl⟩ := List.cons.inj hcs
      exact List.forall_mem_cons.mp hds

theorem completes_mark : mark.Completes cs ↔ ∃ sign d ds, cs = sign ++ d :: ds ∧
    (sign = [] ∨ sign = ['+'] ∨ sign = ['-']) ∧ AllDigits (d :: ds) := by
  have hsign : ∀ c, (c = '+' ∨ c = '-') → c.isDigit = false := by
    rintro c (rfl | rfl) <;> rfl
  cases cs with
  | nil => simp [completes_nil, complete]
  | cons c cs =>
    by_cases hc : c = '+' ∨ c = '-'
    · have hstep : mark.Completes (c :: cs) ↔ sign.Completes cs := by
        simp [completes_cons, next?, hc]
      rw [hstep, completes_sign]
      constructor
      · rintro ⟨d, ds, rfl, hds⟩
        refine ⟨[c], d, ds, rfl, ?_, hds⟩
        rcases hc with rfl | rfl <;> simp
      · rintro ⟨sign, d, ds, hcs, rfl | rfl | rfl, hds⟩
        · obtain ⟨rfl, rfl⟩ := List.cons.inj hcs
          have hd := hds c List.mem_cons_self
          rw [hsign c hc] at hd
          cases hd
        · exact ⟨d, ds, (List.cons.inj hcs).2, hds⟩
        · exact ⟨d, ds, (List.cons.inj hcs).2, hds⟩
    · have hstep : mark.Completes (c :: cs) ↔ c.isDigit = true ∧ exponent.Completes cs := by
        by_cases hdigit : c.isDigit = true <;> simp [completes_cons, next?, hc, hdigit]
      rw [hstep, completes_exponent]
      constructor
      · rintro ⟨hdigit, hcs⟩
        exact ⟨[], c, cs, rfl, .inl rfl, List.forall_mem_cons.mpr ⟨hdigit, hcs⟩⟩
      · rintro ⟨sign, d, ds, hcs, rfl | rfl | rfl, hds⟩
        · obtain ⟨rfl, rfl⟩ := List.cons.inj hcs
          exact List.forall_mem_cons.mp hds
        · exact absurd (.inl (List.cons.inj hcs).1) hc
        · exact absurd (.inr (List.cons.inj hcs).1) hc

/-- What may follow the digits of a fraction. -/
theorem isExponent_cons : IsExponent (c :: cs) ↔ (c = 'e' ∨ c = 'E') ∧ mark.Completes cs := by
  rw [completes_mark, IsExponent]
  constructor
  · rintro (hnil | ⟨mark, sign, d, ds, hcs, hmark, hsign, hds⟩)
    · cases hnil
    · obtain ⟨rfl, rfl⟩ := List.cons.inj hcs
      exact ⟨hmark, sign, d, ds, rfl, hsign, hds⟩
  · rintro ⟨hmark, sign, d, ds, rfl, hsign, hds⟩
    exact .inr ⟨c, sign, d, ds, rfl, hmark, hsign, hds⟩

theorem not_isDigit_mark (h : c = 'e' ∨ c = 'E') : c.isDigit = false := by
  rcases h with rfl | rfl <;> rfl

theorem completes_fraction :
    fraction.Completes cs ↔ ∃ ds rest, cs = ds ++ rest ∧ AllDigits ds ∧ IsExponent rest := by
  refine completes_digits (fun c hc => by simp [next?, hc]) (fun c cs h => ?_) fun cs hcs => ?_
  · exact not_isDigit_mark (isExponent_cons.mp h).1
  · cases cs with
    | nil => simp [completes_nil, complete, IsExponent]
    | cons c cs =>
      rw [isExponent_cons]
      by_cases hc : c = 'e' ∨ c = 'E' <;> simp [completes_cons, next?, hcs c rfl, hc]

theorem isNumberEnd_cons : IsNumberEnd (c :: cs) ↔
    c = '.' ∧ point.Completes cs ∨ (c = 'e' ∨ c = 'E') ∧ mark.Completes cs := by
  have hpoint : point.Completes cs ↔ ∃ d ds rest, cs = d :: ds ++ rest ∧ AllDigits (d :: ds) ∧
      IsExponent rest := by
    cases cs with
    | nil => simp [completes_nil, complete]
    | cons d cs =>
      have hstep : point.Completes (d :: cs) ↔ d.isDigit = true ∧ fraction.Completes cs := by
        by_cases hd : d.isDigit = true <;> simp [completes_cons, next?, hd]
      rw [hstep, completes_fraction]
      constructor
      · rintro ⟨hd, ds, rest, rfl, hds, hrest⟩
        exact ⟨d, ds, rest, rfl, List.forall_mem_cons.mpr ⟨hd, hds⟩, hrest⟩
      · rintro ⟨e, ds, rest, hcs, hds, hrest⟩
        obtain ⟨rfl, rfl⟩ := List.cons.inj hcs
        obtain ⟨hd, hds⟩ := List.forall_mem_cons.mp hds
        exact ⟨hd, ds, rest, rfl, hds, hrest⟩
  rw [hpoint, IsNumberEnd, ← isExponent_cons]
  constructor
  · rintro ⟨fraction, exponent, hcs, rfl | ⟨d, ds, rfl, hds⟩, hexponent⟩
    · exact .inr (hcs ▸ hexponent)
    · obtain ⟨rfl, rfl⟩ := List.cons.inj hcs
      exact .inl ⟨rfl, d, ds, exponent, rfl, hds, hexponent⟩
  · rintro (⟨rfl, d, ds, rest, rfl, hds, hrest⟩ | hexponent)
    · exact ⟨'.' :: d :: ds, rest, rfl, .inr ⟨d, ds, rfl, hds⟩, hrest⟩
    · exact ⟨[], c :: cs, rfl, .inl rfl, hexponent⟩

theorem isNumberEnd_nil : IsNumberEnd [] := ⟨[], [], rfl, .inl rfl, .inl rfl⟩

theorem completes_zero : zero.Completes cs ↔ IsNumberEnd cs := by
  cases cs with
  | nil => simp [completes_nil, complete, isNumberEnd_nil]
  | cons c cs =>
    rw [isNumberEnd_cons, completes_cons, next?]
    by_cases hpoint : c = '.'
    · subst hpoint
      simp
    · by_cases hmark : c = 'e' ∨ c = 'E' <;> simp [hpoint, hmark]

theorem completes_integer :
    integer.Completes cs ↔ ∃ ds rest, cs = ds ++ rest ∧ AllDigits ds ∧ IsNumberEnd rest := by
  refine completes_digits (fun c hc => by simp [next?, hc]) (fun c cs h => ?_) fun cs hcs => ?_
  · rcases isNumberEnd_cons.mp h with ⟨rfl, -⟩ | ⟨hmark, -⟩
    · rfl
    · exact not_isDigit_mark hmark
  · rw [← completes_zero]
    cases cs with
    | nil => simp [completes_nil, complete]
    | cons c cs => simp [completes_cons, next?, hcs c rfl]

/-- The part of a number that its first character is. -/
def first? (c : Char) : Option NumberPart :=
  if c = '-' then some .minus
  else if c = '0' then some .zero
  else if c.isDigit then some .integer else none

end NumberPart

/-- Is this how a number is spelled? -/
def IsNumeral : List Char → Prop
  | [] => False
  | c :: cs => ∃ part last, NumberPart.first? c = some part ∧
      cs.foldlM NumberPart.next? part = some last ∧ last.complete = true

theorem completes_minus {cs : List Char} : NumberPart.minus.Completes cs ↔
    ∃ integer rest, cs = integer ++ rest ∧ IsInteger integer ∧ IsNumberEnd rest := by
  cases cs with
  | nil =>
    refine iff_of_false (by simp [NumberPart.completes_nil, NumberPart.complete]) ?_
    rintro ⟨integer, rest, hcs, hinteger, -⟩
    obtain ⟨rfl, rfl⟩ := List.append_eq_nil_iff.mp hcs.symm
    rcases hinteger with h | ⟨d, ds, h, -⟩ <;> cases h
  | cons c cs =>
    rw [NumberPart.completes_cons, NumberPart.next?]
    constructor
    · rintro ⟨next, hnext, hcs⟩
      split at hnext
      · next hzero =>
        obtain rfl := Option.some.inj hnext
        exact ⟨['0'], cs, by rw [hzero]; rfl, .inl rfl, NumberPart.completes_zero.mp hcs⟩
      split at hnext
      · next hzero hdigit =>
        obtain rfl := Option.some.inj hnext
        obtain ⟨ds, rest, rfl, hds, hrest⟩ := NumberPart.completes_integer.mp hcs
        exact ⟨c :: ds, rest, rfl, .inr ⟨c, ds, rfl, hzero, List.forall_mem_cons.mpr ⟨hdigit, hds⟩⟩,
          hrest⟩
      · cases hnext
    · rintro ⟨integer, rest, hcs, rfl | ⟨d, ds, rfl, hzero, hds⟩, hrest⟩
      · obtain ⟨rfl, rfl⟩ := List.cons.inj hcs
        exact ⟨.zero, rfl, NumberPart.completes_zero.mpr hrest⟩
      · obtain ⟨rfl, rfl⟩ := List.cons.inj hcs
        obtain ⟨hdigit, hds⟩ := List.forall_mem_cons.mp hds
        exact ⟨.integer, by rw [if_neg hzero, if_pos hdigit],
          NumberPart.completes_integer.mpr ⟨ds, rest, rfl, hds, hrest⟩⟩

/-- **The lexer completes just the characters that spell a number.** -/
theorem isNumeral_iff {cs : List Char} : IsNumeral cs ↔ SpelledNumber cs := by
  -- after its sign a number is what it would be without one
  have hsplit : SpelledNumber cs ↔ NumberPart.minus.Completes cs ∨
      ∃ rest, cs = '-' :: rest ∧ NumberPart.minus.Completes rest := by
    rw [completes_minus]
    constructor
    · rintro ⟨sign, integer, rest, rfl, rfl | rfl, hinteger, hrest⟩
      · exact .inl ⟨integer, rest, rfl, hinteger, hrest⟩
      · exact .inr ⟨_, rfl, completes_minus.mpr ⟨integer, rest, rfl, hinteger, hrest⟩⟩
    · rintro (⟨integer, rest, rfl, h⟩ | ⟨cs, rfl, h⟩)
      · exact ⟨[], integer, rest, rfl, .inl rfl, h⟩
      · obtain ⟨integer, rest, rfl, hparts⟩ := completes_minus.mp h
        exact ⟨['-'], integer, rest, rfl, .inr rfl, hparts⟩
  rw [hsplit]
  cases cs with
  | nil => simp [IsNumeral, NumberPart.completes_nil, NumberPart.complete]
  | cons c cs =>
    have hnumeral : IsNumeral (c :: cs) ↔
        ∃ part, NumberPart.first? c = some part ∧ part.Completes cs := by
      simp only [IsNumeral, NumberPart.Completes]
      grind
    rw [hnumeral, NumberPart.completes_cons]
    by_cases hminus : c = '-'
    · subst hminus
      simp [NumberPart.first?, NumberPart.next?]
    · simp [NumberPart.first?, NumberPart.next?, hminus]

end AccessReplay.Json
