import ViewEngine.Json.Printer
import ViewEngine.Proofs.Decimal.Layout
import ViewEngine.Proofs.Json.Lexing
import ViewEngine.Proofs.Json.Parts

/-!
# Numbers in JSON text

Every numeral goes through the phases of a number and may end where it ends. The text of an integer is
a numeral without point and exponent and is read as that integer; the text of a double has one of them
and is read as that double.
-/

namespace ViewEngine.Json

/-! ## Phases -/

namespace NumberPhase

theorem foldlM_digits {phase : NumberPhase} (hphase : ∀ c, c.isDigit = true → phase.step? c = some phase)
    (cs : List Char) (h : ∀ c ∈ cs, c.isDigit = true) : cs.foldlM step? phase = some phase := by
  induction cs with
  | nil => rfl
  | cons c cs ih =>
    rw [List.foldlM_cons, hphase c (h c List.mem_cons_self)]
    exact ih fun x hx => h x (List.mem_cons_of_mem c hx)

/-- Digits where they may start, and go on in `next`. -/
theorem foldlM_digitText {phase next : NumberPhase}
    (hfirst : ∀ c, c.isDigit = true → phase.step? c = some next)
    (hnext : ∀ c, c.isDigit = true → next.step? c = some next) (t : DigitText) :
    t.chars.foldlM step? phase = some next := by
  obtain ⟨c, cs, hchars⟩ := List.exists_cons_of_ne_nil t.ne_nil
  have hdigit := t.isDigit
  rw [hchars] at hdigit ⊢
  rw [List.foldlM_cons, hfirst c (hdigit c List.mem_cons_self)]
  exact foldlM_digits hnext cs fun x hx => hdigit x (List.mem_cons_of_mem c hx)

theorem step?_of_isDigit {c : Char} (h : c.isDigit = true) :
    whole.step? c = some whole ∧ point.step? c = some fraction ∧ fraction.step? c = some fraction ∧
      markSign.step? c = some exponent ∧ exponent.step? c = some exponent := by
  simp [step?, h]

/-- A digit is no sign. -/
theorem step?_mark_of_isDigit {c : Char} (h : c.isDigit = true) : mark.step? c = some exponent := by
  have hplus : c ≠ '+' := by
    rintro rfl
    cases h
  have hminus : c ≠ '-' := by
    rintro rfl
    cases h
  simp [step?, hplus, hminus, h]

/-- The whole part. -/
theorem foldlM_whole (n : Numeral) :
    n.whole.chars.foldlM step? minus = some zero ∨ n.whole.chars.foldlM step? minus = some whole := by
  rcases n.leading with h | h
  · rw [h]
    exact Or.inl rfl
  · obtain ⟨c, cs, hchars⟩ := List.exists_cons_of_ne_nil n.whole.ne_nil
    have hdigit := n.whole.isDigit
    rw [hchars] at h hdigit ⊢
    have hc := hdigit c List.mem_cons_self
    have hne : c ≠ '0' := by simpa using h
    have hstep : minus.step? c = some whole := by simp [step?, hne, hc]
    rw [List.foldlM_cons, hstep]
    exact Or.inr (foldlM_digits (fun _ h => (step?_of_isDigit h).1) cs
      fun x hx => hdigit x (List.mem_cons_of_mem c hx))

/-- The fraction, if there is one. -/
theorem foldlM_fraction (n : Numeral) {phase : NumberPhase} (h : phase = zero ∨ phase = whole) :
    n.fractionChars.foldlM step? phase = some phase ∨
      n.fractionChars.foldlM step? phase = some fraction := by
  unfold Numeral.fractionChars
  rcases n.fraction with _ | t
  · exact Or.inl rfl
  · have hpoint : phase.step? '.' = some point := by rcases h with rfl | rfl <;> rfl
    refine Or.inr ?_
    simp only [List.foldlM_cons, hpoint]
    exact foldlM_digitText (fun _ h => (step?_of_isDigit h).2.1) (fun _ h => (step?_of_isDigit h).2.2.1) t

/-- What follows the mark of an exponent. -/
theorem foldlM_power (n : Numeral) (negative : Bool) (t : DigitText) :
    (n.exponentSign negative ++ t.chars).foldlM step? mark = some exponent := by
  have hdigits : t.chars.foldlM step? mark = some exponent :=
    foldlM_digitText (fun _ h => step?_mark_of_isDigit h) (fun _ h => (step?_of_isDigit h).2.2.2.2) t
  have hsigned : t.chars.foldlM step? markSign = some exponent :=
    foldlM_digitText (fun _ h => (step?_of_isDigit h).2.2.2.1) (fun _ h => (step?_of_isDigit h).2.2.2.2) t
  unfold Numeral.exponentSign
  split
  · exact hsigned
  · split
    · exact hdigits
    · exact hsigned

/-- The exponent, if there is one. -/
theorem foldlM_exponent (n : Numeral) {phase : NumberPhase}
    (h : phase = zero ∨ phase = whole ∨ phase = fraction) :
    n.exponentChars.foldlM step? phase = some phase ∨
      n.exponentChars.foldlM step? phase = some exponent := by
  unfold Numeral.exponentChars
  rcases n.exponent with _ | ⟨negative, t⟩
  · exact Or.inl rfl
  · have hmark : phase.step? n.exponentMark = some mark := by
      unfold Numeral.exponentMark
      cases n.isCapital <;> rcases h with rfl | rfl | rfl <;> rfl
    refine Or.inr ?_
    rw [List.foldlM_cons, hmark]
    exact foldlM_power n negative t

/-- A numeral without its sign may end where it ends. -/
theorem foldlM_unsigned (n : Numeral) :
    ∃ phase, n.unsigned.foldlM step? minus = some phase ∧ phase.isComplete = true := by
  obtain ⟨p, hwhole, hp⟩ : ∃ p, n.whole.chars.foldlM step? minus = some p ∧
      (p = zero ∨ p = whole) := by
    rcases foldlM_whole n with h | h
    · exact ⟨_, h, Or.inl rfl⟩
    · exact ⟨_, h, Or.inr rfl⟩
  obtain ⟨q, hfraction, hq⟩ : ∃ q, n.fractionChars.foldlM step? p = some q ∧
      (q = zero ∨ q = whole ∨ q = fraction) := by
    rcases foldlM_fraction n hp with h | h
    · exact ⟨_, h, hp.imp_right Or.inl⟩
    · exact ⟨_, h, Or.inr (Or.inr rfl)⟩
  rw [Numeral.unsigned, List.foldlM_append, hwhole]
  show ∃ phase, (n.fractionChars ++ n.exponentChars).foldlM step? p = some phase ∧ _
  rw [List.foldlM_append, hfraction]
  show ∃ phase, n.exponentChars.foldlM step? q = some phase ∧ _
  rcases foldlM_exponent n hq with h | h
  · exact ⟨_, h, by rcases hq with rfl | rfl | rfl <;> rfl⟩
  · exact ⟨_, h, rfl⟩

end NumberPhase

/-! ## Reading numerals -/

namespace Lexer

/-- The first character of a number without sign. -/
theorem start?_digit {c : Char} {phase : NumberPhase} (h : NumberPhase.minus.step? c = some phase) :
    start? c = some ([], number phase [c]) := by
  by_cases hzero : c = '0'
  · subst hzero
    cases h
    rfl
  · have hstep : (if c.isDigit = true then some NumberPhase.whole else none) = some phase := by
      simpa [NumberPhase.step?, hzero] using h
    obtain ⟨hdigit, hphase⟩ : c.isDigit = true ∧ NumberPhase.whole = phase := by simpa using hstep
    have hne {d : Char} (hd : d.isDigit = false) : c ≠ d := by
      rintro rfl
      rw [hd] at hdigit
      cases hdigit
    rw [← hphase]
    simp [start?, hne (d := ' ') rfl, hne (d := '\t') rfl, hne (d := '\n') rfl, hne (d := '\r') rfl,
      hne (d := '[') rfl, hne (d := ']') rfl, hne (d := '{') rfl, hne (d := '}') rfl,
      hne (d := ',') rfl, hne (d := ':') rfl, hne (d := '"') rfl, hne (d := '-') rfl, hzero, hdigit]

variable [NumberReader]

theorem reads_number {phase last : NumberPhase} {cs done : List Char}
    (h : cs.foldlM NumberPhase.step? phase = some last) :
    Reads (number phase done) cs [] (number last (cs.reverse ++ done)) := by
  induction cs generalizing phase done with
  | nil =>
    cases h
    exact Reads.nil
  | cons c cs ih =>
    rw [List.foldlM_cons] at h
    obtain ⟨next, hstep, hrest⟩ := Option.bind_eq_some_iff.1 h
    rw [List.reverse_cons, List.append_assoc]
    refine Reads.silent _ ?_ (ih hrest)
    simp [step?, hstep]

theorem ends_number {phase : NumberPhase} (cs : List Char) (h : phase.isComplete = true) :
    Ends (number phase cs) [.scalar (ofNumeral cs.reverse)] := by
  have hstop : ∀ c, IsMark c → phase.step? c = none :=
    forall_isMark (by cases phase <;> exact ⟨rfl, rfl, rfl, rfl, rfl, rfl, rfl⟩)
  refine ⟨by simp [finish?, h], fun c hc => ?_⟩
  simp [step?, hstop c hc]

/-- **Every numeral is read as one number.** -/
theorem spells_numeral (n : Numeral) : Spells n.chars [.scalar (ofNumeral n.chars)] := by
  obtain ⟨phase, hphase, hcomplete⟩ := NumberPhase.foldlM_unsigned n
  obtain ⟨c, cs, hunsigned, -⟩ := n.exists_unsigned_eq_cons
  have hends := ends_number n.chars.reverse hcomplete
  rw [List.reverse_reverse] at hends
  refine ⟨number phase n.chars.reverse, [], _, ?_, hends, rfl⟩
  unfold Numeral.chars Numeral.signChars
  cases n.negative
  · simp only [Bool.false_eq_true, if_false, List.nil_append]
    rw [hunsigned, List.foldlM_cons] at hphase
    obtain ⟨next, hnext, hrest⟩ := Option.bind_eq_some_iff.1 hphase
    rw [hunsigned, List.reverse_cons]
    exact Reads.silent _ (start?_digit hnext) (reads_number hrest)
  · simp only [if_true, List.singleton_append, List.reverse_cons]
    exact Reads.silent _ rfl (reads_number hphase)

end Lexer

/-! ## What a numeral denotes -/

theorem chars_ofInt (i : Int) : (Numeral.ofInt i).chars = intText i := by
  unfold intText Numeral.chars Numeral.signChars Numeral.unsigned Numeral.fractionChars Numeral.exponentChars
  by_cases hneg : i < 0 <;> simp [Numeral.ofInt, hneg, DigitText.ofNat]

variable [NumberReader]

/-- What a numeral denotes is a finite double, or cannot be read. -/
theorem ofDecimal_cases (numeral : List Char) :
    (∃ d : Binary64, d.isFinite = true ∧ ofDecimal numeral = double d) ∨ ofDecimal numeral = unreadable := by
  by_cases hfin : (NumberReader.read numeral).isFinite = true
  · exact .inl ⟨_, hfin, if_pos hfin⟩
  · exact .inr (if_neg hfin)

/-- Any characters give an integer that fits text, or what they denote as a numeral. -/
theorem ofNumeral_cases (numeral : List Char) :
    (∃ i : Int, FitsInt i ∧ ofNumeral numeral = int i) ∨ ofNumeral numeral = ofDecimal numeral := by
  have hmin : Int64.minValue.toInt ≤ 0 := by decide
  unfold ofNumeral
  split
  · split
    · rename_i n _
      by_cases hfits : 0 < n ∧ Int64.minValue.toInt ≤ -(n : Int)
      · exact .inl ⟨_, ⟨hfits.2, by omega⟩, if_pos hfits⟩
      · exact .inr (if_neg hfits)
    · exact .inr rfl
  · split
    · rename_i n _
      by_cases hfits : n < UInt64.size
      · exact .inl ⟨_, ⟨by omega, by omega⟩, if_pos hfits⟩
      · exact .inr (if_neg hfits)
    · exact .inr rfl

theorem ofNumeral_of_isReal {n : Numeral} (h : n.IsReal) : ofNumeral n.chars = ofDecimal n.chars := by
  have hnone := Numeral.readDigits?_unsigned h
  obtain ⟨c, cs, hunsigned, hc⟩ := n.exists_unsigned_eq_cons
  unfold Numeral.chars Numeral.signChars
  rw [hunsigned] at hnone ⊢
  cases n.negative
  · simp only [Bool.false_eq_true, if_false, List.nil_append]
    unfold ofNumeral
    split
    · rename_i heq
      cases heq
      cases hc
    · rw [hnone]
  · simp only [if_true, List.singleton_append, ofNumeral, hnone]

/-- **The text of a finite double is read as one number**, which is what the reader makes of it. -/
theorem spells_double {d : Binary64} (h : d.isFinite = true) :
    Lexer.Spells (doubleText d) [.scalar (ofDecimal (doubleText d))] := by
  obtain ⟨n, hchars, hreal, -⟩ := Layout.exists_numeral_text Layout.json h
  have hspells := Lexer.spells_numeral n
  rw [ofNumeral_of_isReal hreal, hchars] at hspells
  rw [doubleText, if_pos h]
  exact hspells

/-- A numeral without point and exponent is an integer where one is kept apart. -/
theorem ofNumeral_of_not_isReal {n : Numeral} (h : ¬ n.IsReal) : ofNumeral n.chars =
    if n.negative then
      if 0 < digitsValue n.whole.chars ∧ Int64.minValue.toInt ≤ -(digitsValue n.whole.chars : Int)
      then int (-(digitsValue n.whole.chars : Int)) else ofDecimal n.chars
    else if digitsValue n.whole.chars < UInt64.size then int (digitsValue n.whole.chars)
    else ofDecimal n.chars := by
  have hread := n.whole.readDigits?_chars
  unfold Numeral.chars Numeral.signChars
  rw [Numeral.unsigned_of_not_isReal h]
  cases n.negative
  · simp only [Bool.false_eq_true, if_false, List.nil_append]
    unfold ofNumeral
    split
    · rename_i digits hminus
      exact absurd (n.whole.isDigit '-' (hminus ▸ List.mem_cons_self)) (by decide)
    · simp only [hread]
  · simp only [if_true, List.singleton_append, ofNumeral, hread]

/-- **The text of an integer spells that integer.** -/
theorem spells_int {i : Int} (h : FitsInt i) : Lexer.Spells (intText i) [.scalar (int i)] := by
  have hdatum : ofNumeral (Numeral.ofInt i).chars = int i := by
    obtain ⟨hlow, hhigh⟩ := h
    rw [ofNumeral_of_not_isReal (Numeral.not_isReal_ofInt i), Numeral.digitsValue_whole_ofInt]
    by_cases hneg : i < 0
    · have hi : -(i.natAbs : Int) = i := by omega
      rw [if_pos (by simpa [Numeral.ofInt] using hneg), hi, if_pos ⟨by omega, hlow⟩]
    · have hi : (i.natAbs : Int) = i := by omega
      rw [if_neg (by simpa [Numeral.ofInt] using hneg), hi, if_pos (by omega)]
  have hspells := Lexer.spells_numeral (Numeral.ofInt i)
  rwa [hdatum, chars_ofInt] at hspells

end ViewEngine.Json

/-! ## What is asked of a reader -/

namespace ViewEngine.NumberReader

section
variable [NumberReader]

/-- Every numeral is read as the double nearest to it. -/
def IsExact : Prop := ∀ n : Numeral, read n.chars = n.decimal.nearest

/-- The text of a double is read as that double. -/
def ReadsBack (d : Binary64) : Prop := read (Json.doubleText d) = d

/-- The text of every finite double is read as that double. -/
def IsFaithful : Prop := ∀ d : Binary64, d.isFinite = true → ReadsBack d

/-- The digits that are written for a double lead an exact reader back to it. -/
theorem IsExact.isFaithful (h : IsExact) : IsFaithful := by
  intro d hfin
  obtain ⟨n, hchars, -, hnearest⟩ := Layout.exists_numeral_text Layout.json hfin
  rw [ReadsBack, Json.doubleText, if_pos hfin, ← hchars, h n, hnearest]

theorem ReadsBack.ofDecimal {d : Binary64} (h : ReadsBack d) (hfin : d.isFinite = true) :
    Json.ofDecimal (Json.doubleText d) = .double d := by
  have hread : read (Json.doubleText d) = d := h
  simp only [Json.ofDecimal, hread, hfin, if_true]

end

theorem isExact_exact : @IsExact exact := by
  intro n
  show ((Decimal.read? n.chars).map Decimal.nearest).getD .nan = n.decimal.nearest
  rw [n.read?_chars]
  rfl

theorem isFaithful_exact : @IsFaithful exact := @IsExact.isFaithful exact isExact_exact

end ViewEngine.NumberReader
