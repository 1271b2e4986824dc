import AccessReplay.Text.Decimal
import Mathlib.Data.List.Induction
import Mathlib.Data.Nat.Digits.Defs

/-!
# Numerals are read as what they denote

What counts as a decimal numeral is said here without the reader (`Denotes`): digits with their
value by place, after at most one sign.  The reader accepts just these, as long as the number is in
range (`readUnsigned_eq_ok_iff`), and every number is denoted by its written form.
-/
namespace AccessReplay.Text

variable {bound n : Nat} {cs : List Char}

/-- The characters are a decimal numeral for `n`: at least one digit, after at most one plus sign.
Zeros may lead. -/
def Denotes (cs : List Char) (n : Nat) : Prop :=
  ∃ digits : List Nat, digits ≠ [] ∧ (∀ d ∈ digits, d < 10) ∧
    (cs = digits.map Nat.digitChar ∨ cs = '+' :: digits.map Nat.digitChar) ∧
    n = Nat.ofDigits 10 digits.reverse

/-! ## Written digits -/

theorem digit?_digitChar {d : Nat} (h : d < 10) : digit? (Nat.digitChar d) = some d := by
  have hall : ∀ d < 10, digit? (Nat.digitChar d) = some d := by decide
  exact hall d h

/-- One digit more at the end. -/
theorem readDigits_concat {value n d : Nat} (h : readDigits bound value cs = .ok n) (hd : d < 10)
    (hlt : 10 * n + d < bound) :
    readDigits bound value (cs ++ [Nat.digitChar d]) = .ok (10 * n + d) := by
  induction cs generalizing value with
  | nil =>
    obtain rfl := Except.ok.inj h
    simp [readDigits, digit?_digitChar hd, hlt]
  | cons c cs ih =>
    rw [List.cons_append, readDigits]
    rw [readDigits] at h
    cases hc : digit? c with
    | none => simp [hc] at h
    | some e =>
      simp only [hc] at h ⊢
      by_cases hbound : 10 * value + e < bound
      · rw [if_pos hbound] at h ⊢
        exact ih h
      · rw [if_neg hbound] at h
        cases h

/-- **A number is read as it is written.** -/
theorem readDigits_toDigits (h : n < bound) : readDigits bound 0 (Nat.toDigits 10 n) = .ok n := by
  induction n using Nat.strongRecOn with
  | ind n ih =>
    by_cases hn : n < 10
    · rw [Nat.toDigits_of_lt_base hn]
      simp [readDigits, digit?_digitChar hn, h]
    · have hrest := ih (n / 10) (by omega) (by omega)
      rw [Nat.toDigits_of_base_le (by decide) (Nat.not_lt.mp hn)]
      have hvalue : 10 * (n / 10) + n % 10 = n := Nat.div_add_mod n 10
      have hdigits := readDigits_concat hrest (Nat.mod_lt n (by decide)) (by omega)
      rwa [hvalue] at hdigits

/-! ## Digits that are read -/

theorem digit?_eq_some_iff {c : Char} {d : Nat} :
    digit? c = some d ↔ d < 10 ∧ c = Nat.digitChar d := by
  constructor
  · intro h
    unfold digit? at h
    split at h
    · next hrange =>
      have hlow : 48 ≤ c.toNat := hrange.1
      have hhigh : c.toNat ≤ 57 := hrange.2
      have hvalue : c.toNat - 48 = d := Option.some.inj h
      refine ⟨by omega, ?_⟩
      have hchar : ∀ e < 10, Char.ofNat (48 + e) = Nat.digitChar e := by decide
      rw [← hchar d (by omega), ← Char.ofNat_toNat c]
      congr 1
      omega
    · cases h
  · rintro ⟨hd, rfl⟩
    exact digit?_digitChar hd

/-- The value that digits come to when they are read onto another one. -/
def onto (value : Nat) (digits : List Nat) : Nat := digits.foldl (fun v d => 10 * v + d) value

theorem le_onto (value : Nat) (digits : List Nat) : value ≤ onto value digits := by
  induction digits generalizing value with
  | nil => exact Nat.le_refl value
  | cons d digits ih =>
    have hrest : 10 * value + d ≤ onto value (d :: digits) := ih (10 * value + d)
    omega

theorem onto_zero (digits : List Nat) : onto 0 digits = Nat.ofDigits 10 digits.reverse := by
  induction digits using List.reverseRecOn with
  | nil => rfl
  | append_singleton digits d ih =>
    rw [onto, List.foldl_append, List.reverse_concat, Nat.ofDigits_cons, ← ih]
    show 10 * onto 0 digits + d = d + 10 * onto 0 digits
    omega

/-- **Digits are read if there is nothing else, and if what they come to is below the bound.** -/
theorem readDigits_eq_ok_iff {value : Nat} : readDigits bound value cs = .ok n ↔
    ∃ digits : List Nat, (∀ d ∈ digits, d < 10) ∧ cs = digits.map Nat.digitChar ∧
      n = onto value digits ∧ (digits ≠ [] → n < bound) := by
  induction cs generalizing value with
  | nil =>
    constructor
    · intro h
      exact ⟨[], by simp, rfl, (Except.ok.inj h).symm, fun hne => absurd rfl hne⟩
    · rintro ⟨digits, -, hcs, rfl, -⟩
      obtain rfl : digits = [] := List.map_eq_nil_iff.mp hcs.symm
      rfl
  | cons c cs ih =>
    rw [readDigits]
    constructor
    · intro h
      cases hc : digit? c with
      | none => simp [hc] at h
      | some d =>
        obtain ⟨hd, rfl⟩ := digit?_eq_some_iff.mp hc
        simp only [hc] at h
        by_cases hbelow : 10 * value + d < bound
        · rw [if_pos hbelow] at h
          obtain ⟨digits, hdigits, rfl, rfl, hbound⟩ := ih.mp h
          refine ⟨d :: digits, List.forall_mem_cons.mpr ⟨hd, hdigits⟩, rfl, rfl, fun _ => ?_⟩
          by_cases hlast : digits = []
          · subst hlast
            exact hbelow
          · exact hbound hlast
        · rw [if_neg hbelow] at h
          cases h
    · rintro ⟨digits, hdigits, hcs, rfl, hbound⟩
      cases digits with
      | nil => cases hcs
      | cons d digits =>
        obtain ⟨rfl, rfl⟩ := List.cons.inj hcs
        obtain ⟨hd, hrest⟩ := List.forall_mem_cons.mp hdigits
        have hlt := hbound (List.cons_ne_nil d digits)
        -- what is read so far never exceeds what is read in the end
        have hle : 10 * value + d ≤ onto value (d :: digits) := le_onto _ digits
        simp only [digit?_digitChar hd]
        rw [if_pos (by omega)]
        exact ih.mpr ⟨digits, hrest, rfl, rfl, fun _ => hlt⟩

/-- What is no digit does not stand among digits. -/
theorem notMem_digits {c : Char} (hc : digit? c = none) {digits : List Nat}
    (h : ∀ d ∈ digits, d < 10) : c ∉ digits.map Nat.digitChar := by
  intro hmem
  obtain ⟨d, hd, rfl⟩ := List.mem_map.mp hmem
  rw [digit?_digitChar (h d hd)] at hc
  cases hc

/-- Digits alone, of which there is at least one. -/
theorem readDigits_zero_eq_ok_iff (hcs : cs ≠ []) : readDigits bound 0 cs = .ok n ↔
    ∃ digits : List Nat, digits ≠ [] ∧ (∀ d ∈ digits, d < 10) ∧
      cs = digits.map Nat.digitChar ∧ n = Nat.ofDigits 10 digits.reverse ∧ n < bound := by
  rw [readDigits_eq_ok_iff]
  refine exists_congr fun digits => ?_
  rw [onto_zero]
  constructor
  · rintro ⟨hsmall, rfl, hn, hbound⟩
    have hne : digits ≠ [] := by
      rintro rfl
      exact hcs rfl
    exact ⟨hne, hsmall, rfl, hn, hbound hne⟩
  · rintro ⟨-, hsmall, hds, hn, hbound⟩
    exact ⟨hsmall, hds, hn, fun _ => hbound⟩

/-- **A text is read as a number just if it denotes that number, and the number is in range.** -/
theorem readUnsigned_eq_ok_iff : readUnsigned bound cs = .ok n ↔ Denotes cs n ∧ n < bound := by
  have hsign : ∀ digits : List Nat, (∀ d ∈ digits, d < 10) → '+' ∉ digits.map Nat.digitChar :=
    fun _ hsmall => notMem_digits (by decide) hsmall
  unfold readUnsigned
  split
  · -- no character at all
    refine iff_of_false nofun ?_
    rintro ⟨⟨digits, hne, -, hcs | hcs, -⟩, -⟩
    · exact hne (List.map_eq_nil_iff.mp hcs.symm)
    · cases hcs
  · -- a sign alone
    refine iff_of_false nofun ?_
    rintro ⟨⟨digits, hne, hsmall, hcs | hcs, -⟩, -⟩
    · exact hsign digits hsmall (hcs ▸ List.mem_cons_self)
    · exact hne (List.map_eq_nil_iff.mp (List.cons.inj hcs).2.symm)
  · next ds hds =>
    rw [readDigits_zero_eq_ok_iff fun hnil => hds hnil]
    constructor
    · rintro ⟨digits, hne, hsmall, rfl, hn, hbound⟩
      exact ⟨⟨digits, hne, hsmall, .inr rfl, hn⟩, hbound⟩
    · rintro ⟨⟨digits, hne, hsmall, hcs | hcs, hn⟩, hbound⟩
      · exact absurd (hcs ▸ List.mem_cons_self) (hsign digits hsmall)
      · exact ⟨digits, hne, hsmall, (List.cons.inj hcs).2, hn, hbound⟩
  · next hnil _ hunsigned =>
    rw [readDigits_zero_eq_ok_iff fun h => hnil h]
    constructor
    · rintro ⟨digits, hne, hsmall, hcs, hn, hbound⟩
      exact ⟨⟨digits, hne, hsmall, .inl hcs, hn⟩, hbound⟩
    · rintro ⟨⟨digits, hne, hsmall, hcs | hcs, hn⟩, hbound⟩
      · exact ⟨digits, hne, hsmall, hcs, hn, hbound⟩
      · exact absurd hcs (hunsigned _)

/-- The written form of a number denotes it. -/
theorem denotes_toDigits (n : Nat) : Denotes (Nat.toDigits 10 n) n := by
  have hread := readDigits_toDigits (Nat.lt_succ_self n)
  obtain ⟨digits, hsmall, hcs, hn, -⟩ := readDigits_eq_ok_iff.mp hread
  refine ⟨digits, ?_, hsmall, .inl hcs, by rw [← onto_zero]; exact hn⟩
  intro hnil
  rw [hnil] at hcs
  exact Nat.toDigits_ne_nil hcs

/-- A number of 64 bits is written in decimal. -/
theorem toList_toString (n : UInt64) : (toString n).toList = Nat.toDigits 10 n.toNat := by
  show (String.ofList (Nat.toDigits 10 n.toNat)).toList = _
  rw [String.toList_ofList]

/-! ## Texts in two parts -/

/-- A text is split at the first of its separators. -/
theorem split_at_first {sep : Char} {before : List Char} (h : sep ∉ before) (after : List Char) :
    (before ++ sep :: after).takeWhile (· != sep) = before ∧
      (before ++ sep :: after).dropWhile (· != sep) = sep :: after := by
  have hall : ∀ c ∈ before, (c != sep) = true := by
    intro c hc
    rw [bne_iff_ne]
    rintro rfl
    exact h hc
  constructor
  · rw [List.takeWhile_append_of_pos hall]
    simp
  · rw [List.dropWhile_append_of_pos hall]
    simp

end AccessReplay.Text
