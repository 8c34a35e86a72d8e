import Mathlib.Algebra.Group.Nat.Defs
import ViewEngine.Decimal.Reader

/-!
# Numerals

The parts of a numeral that text may hold: a sign, a whole part without needless zeros, perhaps a
fraction and perhaps an exponent. Its characters are put together from the parts, and the reader takes
them apart again.
-/

namespace ViewEngine

/-! ## Digits -/

/-- One decimal digit or more. -/
structure DigitText where
  chars : List Char
  ne_nil : chars ≠ []
  isDigit : ∀ c ∈ chars, c.isDigit = true

namespace DigitText

/-- The digits of a number. -/
def ofNat (n : Nat) : DigitText where
  chars := Nat.toDigits 10 n
  ne_nil := Nat.toDigits_ne_nil
  isDigit _ h := Nat.isDigit_of_mem_toDigits (by decide) (by decide) h

theorem digitsValue_ofNat (n : Nat) : digitsValue (ofNat n).chars = n := Nat.ofDigitChars_ten_toDigits

theorem readDigits?_chars (t : DigitText) : readDigits? t.chars = some (digitsValue t.chars) :=
  if_pos ⟨t.ne_nil, List.all_eq_true.2 t.isDigit⟩

theorem splitSign_chars (t : DigitText) : splitSign t.chars = (false, t.chars) := by
  have hdigit := t.isDigit
  unfold splitSign
  split
  · rename_i rest hminus
    exact absurd (hdigit '-' (hminus ▸ List.mem_cons_self)) (by decide)
  · rename_i rest hplus
    exact absurd (hdigit '+' (hplus ▸ List.mem_cons_self)) (by decide)
  · rfl

theorem readNatBelow?_chars (t : DigitText) {bound : Nat} (h : digitsValue t.chars < bound) :
    readNatBelow? bound t.chars = some (digitsValue t.chars) := by
  unfold readNatBelow?
  split
  · rename_i rest hplus
    exact absurd (t.isDigit '+' (hplus ▸ List.mem_cons_self)) (by decide)
  · simp only [readDigits?_chars, Option.bind_some, if_pos h]

theorem readNatBelow?_toDigits {n bound : Nat} (h : n < bound) :
    readNatBelow? bound (Nat.toDigits 10 n) = some n := by
  have hread := readNatBelow?_chars (ofNat n) (by rwa [digitsValue_ofNat])
  rwa [digitsValue_ofNat] at hread

theorem head?_toDigits_ne_zero {n : Nat} (h : 0 < n) : (Nat.toDigits 10 n).head? ≠ some '0' := by
  induction n using Nat.strongRecOn with
  | _ n ih =>
    by_cases hsmall : n < 10
    · rw [Nat.toDigits_of_lt_base hsmall, List.head?_cons]
      simp only [ne_eq, Option.some.injEq, Nat.digitChar_eq_zero]
      omega
    · obtain ⟨c, cs, hdigits⟩ := List.exists_cons_of_ne_nil (Nat.toDigits_ne_nil (b := 10) (n := n / 10))
      have htail := ih (n / 10) (by omega) (by omega)
      rw [hdigits] at htail
      rw [Nat.toDigits_of_base_le (by decide) (by omega), hdigits]
      exact htail

theorem leading_toDigits (n : Nat) :
    Nat.toDigits 10 n = ['0'] ∨ (Nat.toDigits 10 n).head? ≠ some '0' := by
  rcases Nat.eq_zero_or_pos n with rfl | h
  · exact Or.inl (Nat.toDigits_zero 10)
  · exact Or.inr (head?_toDigits_ne_zero h)

end DigitText

theorem digitsValue_append (cs ds : List Char) :
    digitsValue (cs ++ ds) = 10 ^ ds.length * digitsValue cs + digitsValue ds := by
  rw [digitsValue, Nat.ofDigitChars_append, Nat.ofDigitChars_eq_ofDigitChars_zero]
  rfl

theorem digitsValue_replicate_zero (n : Nat) : digitsValue (List.replicate n '0') = 0 := by
  rw [digitsValue, Nat.ofDigitChars_replicate_zero, Nat.mul_zero]

/-- Digits in front of what is not a digit are what is taken. -/
theorem takeWhile_isDigit (t : DigitText) (rest : List Char)
    (h : ∀ c ∈ rest.head?, c.isDigit = false) :
    (t.chars ++ rest).takeWhile Char.isDigit = t.chars ∧
      (t.chars ++ rest).dropWhile Char.isDigit = rest := by
  rw [List.takeWhile_append_of_pos t.isDigit, List.dropWhile_append_of_pos t.isDigit]
  cases rest with
  | nil => exact ⟨List.append_nil _, rfl⟩
  | cons c rest =>
    have hc : c.isDigit = false := h c rfl
    simp [hc]

/-- Digits that do not begin with a zero denote no zero. -/
theorem DigitText.digitsValue_pos (t : DigitText) (h : t.chars.head? ≠ some '0') : 0 < digitsValue t.chars := by
  obtain ⟨c, cs, hchars⟩ := List.exists_cons_of_ne_nil t.ne_nil
  have hdigit := t.isDigit c (hchars ▸ List.mem_cons_self)
  rw [hchars] at h ⊢
  have hpos : 0 < digitsValue [c] := by
    have hvalue : digitsValue [c] = c.toNat - '0'.toNat := by simp [digitsValue, Nat.ofDigitChars]
    have hlow := (Char.isDigit_iff_toNat.1 hdigit).1
    have hne : '0'.toNat ≠ c.toNat := fun heq => h (by rw [List.head?_cons, Char.toNat_inj.1 heq])
    omega
  have happend := digitsValue_append [c] cs
  rw [List.singleton_append] at happend
  have := Nat.mul_pos (Nat.pow_pos (n := cs.length) (by decide : 0 < 10)) hpos
  omega

/-! ## Numerals -/

/-- A numeral in its parts. -/
structure Numeral where
  negative : Bool
  whole : DigitText
  fraction : Option DigitText := none
  /-- The sign of the exponent, true for minus, and its digits. -/
  exponent : Option (Bool × DigitText) := none
  /-- The exponent is marked with a capital letter. -/
  isCapital : Bool := false
  /-- A positive exponent goes without its sign. -/
  isPlusless : Bool := false
  /-- Only a whole part that is zero starts with a zero. -/
  leading : whole.chars = ['0'] ∨ whole.chars.head? ≠ some '0'

namespace Numeral

def signChars (n : Numeral) : List Char := if n.negative then ['-'] else []

def fractionChars (n : Numeral) : List Char :=
  match n.fraction with
  | some t => '.' :: t.chars
  | none => []

def exponentMark (n : Numeral) : Char := if n.isCapital then 'E' else 'e'

/-- The sign of an exponent that is negative or not. -/
def exponentSign (n : Numeral) (negative : Bool) : List Char :=
  if negative then ['-'] else if n.isPlusless then [] else ['+']

def exponentChars (n : Numeral) : List Char :=
  match n.exponent with
  | some (negative, t) => n.exponentMark :: (n.exponentSign negative ++ t.chars)
  | none => []

/-- The characters after the sign. -/
def unsigned (n : Numeral) : List Char := n.whole.chars ++ (n.fractionChars ++ n.exponentChars)

/-- The characters of a numeral. -/
def chars (n : Numeral) : List Char := n.signChars ++ n.unsigned

/-- The characters of a numeral are digits, signs, a point and the mark of the exponent. -/
theorem not_mem_chars {c : Char} (hdigit : c.isDigit = false) (hc : c ∉ ['-', '+', '.', 'e', 'E'])
    (n : Numeral) : c ∉ n.chars := by
  have hdigits (t : DigitText) : c ∉ t.chars := fun h => by simp [t.isDigit c h] at hdigit
  simp only [List.mem_cons, List.not_mem_nil, or_false, not_or] at hc
  obtain ⟨hminus, hplus, hpoint, he, hcapital⟩ := hc
  have hsign : c ∉ n.signChars := by
    unfold signChars
    split <;> simp [hminus]
  have hfraction : c ∉ n.fractionChars := by
    unfold fractionChars
    split <;> simp [hpoint, hdigits]
  have hmark : c ≠ n.exponentMark := by
    unfold exponentMark
    split <;> assumption
  have hpower (negative : Bool) : c ∉ n.exponentSign negative := by
    unfold exponentSign
    split
    · simp [hminus]
    · split <;> simp [hplus]
  have hexponent : c ∉ n.exponentChars := by
    unfold exponentChars
    split <;> simp [hmark, hpower, hdigits]
  simp [chars, unsigned, hsign, hdigits, hfraction, hexponent]

/-- A numeral with a point or an exponent, which is never taken for an integer. -/
def IsReal (n : Numeral) : Prop := n.fraction.isSome ∨ n.exponent.isSome

/-- The digits after the point. -/
def fractionDigits (n : Numeral) : List Char :=
  match n.fraction with
  | some t => t.chars
  | none => []

/-- The exponent, as a number. -/
def power (n : Numeral) : Int :=
  match n.exponent with
  | some (negative, t) => if negative then -(digitsValue t.chars : Int) else digitsValue t.chars
  | none => 0

/-- The decimal number that a numeral denotes. -/
def decimal (n : Numeral) : Decimal where
  negative := n.negative
  digits := digitsValue (n.whole.chars ++ n.fractionDigits)
  exponent := n.power - n.fractionDigits.length

/-- The numeral of an integer, without fraction and exponent. -/
def ofInt (i : Int) : Numeral where
  negative := decide (i < 0)
  whole := DigitText.ofNat i.natAbs
  leading := DigitText.leading_toDigits i.natAbs

theorem digitsValue_whole_ofInt (i : Int) : digitsValue (ofInt i).whole.chars = i.natAbs :=
  DigitText.digitsValue_ofNat i.natAbs

theorem not_isReal_ofInt (i : Int) : ¬ (ofInt i).IsReal := by simp [IsReal, ofInt]

theorem unsigned_of_not_isReal {n : Numeral} (h : ¬ n.IsReal) : n.unsigned = n.whole.chars := by
  obtain ⟨hfraction, hexponent⟩ := not_or.1 h
  rw [Option.not_isSome_iff_eq_none] at hfraction hexponent
  simp [unsigned, fractionChars, exponentChars, hfraction, hexponent]

/-- A numeral with a point or an exponent is no list of digits. -/
theorem readDigits?_unsigned {n : Numeral} (h : n.IsReal) : readDigits? n.unsigned = none := by
  obtain ⟨c, hmem, hc⟩ : ∃ c ∈ n.unsigned, c.isDigit = false := by
    unfold unsigned fractionChars exponentChars
    rcases h with h | h
    · obtain ⟨t, ht⟩ := Option.isSome_iff_exists.1 h
      exact ⟨'.', by simp [ht], rfl⟩
    · obtain ⟨⟨negative, t⟩, ht⟩ := Option.isSome_iff_exists.1 h
      refine ⟨n.exponentMark, by simp [ht], ?_⟩
      unfold exponentMark
      cases n.isCapital <;> rfl
  refine if_neg fun hdigits => ?_
  have := List.all_eq_true.1 hdigits.2 c hmem
  rw [hc] at this
  cases this

theorem splitSign_exponentSign (n : Numeral) (negative : Bool) (t : DigitText) :
    splitSign (n.exponentSign negative ++ t.chars) = (negative, t.chars) := by
  cases negative
  · unfold exponentSign
    cases n.isPlusless
    · rfl
    · exact t.splitSign_chars
  · rfl

theorem readExponent?_exponentChars (n : Numeral) :
    Decimal.readExponent? n.exponentChars = some n.power := by
  have hmark : n.exponentMark = 'e' ∨ n.exponentMark = 'E' := by
    unfold exponentMark
    cases n.isCapital <;> simp
  unfold exponentChars power
  rcases n.exponent with _ | ⟨negative, t⟩
  · rfl
  · simp only [Decimal.readExponent?, if_pos hmark, n.splitSign_exponentSign, t.readDigits?_chars]
    rfl

theorem exponentChars_head? (n : Numeral) : ∀ c ∈ n.exponentChars.head?, c = n.exponentMark := by
  unfold exponentChars
  rcases n.exponent with _ | ⟨negative, t⟩
  · intro c hc
    cases hc
  · intro c hc
    exact (Option.some.inj hc).symm

theorem isDigit_of_exponentChars_head? (n : Numeral) : ∀ c ∈ n.exponentChars.head?, c.isDigit = false := by
  intro c hc
  rw [n.exponentChars_head? c hc, exponentMark]
  cases n.isCapital <;> rfl

theorem exponentChars_ne_point (n : Numeral) (rest : List Char) : n.exponentChars ≠ '.' :: rest := by
  intro heq
  have hmark := n.exponentChars_head? '.' (by rw [heq]; rfl)
  rw [exponentMark] at hmark
  cases hcapital : n.isCapital <;> rw [hcapital] at hmark <;> cases hmark

/-- What follows the sign starts with a digit. -/
theorem exists_unsigned_eq_cons (n : Numeral) : ∃ c cs, n.unsigned = c :: cs ∧ c.isDigit = true := by
  obtain ⟨c, cs, hwhole⟩ := List.exists_cons_of_ne_nil n.whole.ne_nil
  have hc : c.isDigit = true := n.whole.isDigit c (by rw [hwhole]; exact List.mem_cons_self)
  exact ⟨c, _, by rw [unsigned, hwhole, List.cons_append], hc⟩

theorem chars_ne_nil (n : Numeral) : n.chars ≠ [] := by
  obtain ⟨c, cs, hunsigned, -⟩ := n.exists_unsigned_eq_cons
  simp [chars, hunsigned]

theorem readMagnitude?_unsigned (n : Numeral) :
    Decimal.readMagnitude? n.negative n.unsigned = some n.decimal := by
  have hexponent := n.isDigit_of_exponentChars_head?
  have hread := n.readExponent?_exponentChars
  unfold Decimal.readMagnitude? decimal unsigned fractionChars fractionDigits
  rcases n.fraction with _ | t
  · obtain ⟨htake, hdrop⟩ := takeWhile_isDigit n.whole _ hexponent
    simp only [List.nil_append, htake, hdrop]
    split
    · rename_i rest heq
      exact absurd heq (n.exponentChars_ne_point rest)
    · simp [n.whole.ne_nil, hread]
  · obtain ⟨htake, hdrop⟩ := takeWhile_isDigit n.whole ('.' :: t.chars ++ n.exponentChars)
      (by intro c hc; rw [← Option.some.inj hc]; rfl)
    obtain ⟨htake', hdrop'⟩ := takeWhile_isDigit t _ hexponent
    simp only [List.cons_append] at htake hdrop
    simp only [List.cons_append, htake, hdrop, htake', hdrop']
    rw [if_neg (by simp [n.whole.ne_nil]), hread]
    rfl

theorem splitSign_chars (n : Numeral) : splitSign n.chars = (n.negative, n.unsigned) := by
  unfold chars signChars
  obtain ⟨c, cs, hunsigned, hc⟩ := n.exists_unsigned_eq_cons
  cases n.negative
  · simp only [hunsigned, Bool.false_eq_true, if_false, List.nil_append]
    unfold splitSign
    split
    · rename_i heq
      cases heq
      cases hc
    · rename_i heq
      cases heq
      cases hc
    · rfl
  · rfl

/-- **A numeral is read as the number it denotes.** -/
theorem read?_chars (n : Numeral) : Decimal.read? n.chars = some n.decimal := by
  rw [Decimal.read?, n.splitSign_chars]
  exact n.readMagnitude?_unsigned

end Numeral

end ViewEngine
