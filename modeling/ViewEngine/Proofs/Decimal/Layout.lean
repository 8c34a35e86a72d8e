import ViewEngine.Decimal.Layout
import ViewEngine.Proofs.Decimal.Nearest
import ViewEngine.Proofs.Decimal.Numeral

/-!
# The text of a double reads back

However the digits of a finite double are laid out, the text is a numeral with a point or an exponent
that denotes the number of the digits; so it is read as the same double, its sign included.
-/

namespace ViewEngine

namespace Numeral

/-- The numeral denotes the number of `d`. A whole number may be written out, with a zero after the
point. -/
def Writes (n : Numeral) (d : Digits) : Prop :=
  n.decimal.magnitude = d ∨
    (0 ≤ d.exponent ∧ n.decimal.magnitude = ⟨d.digits * 10 ^ (d.exponent.toNat + 1), -1⟩)

theorem Writes.pass {n : Numeral} {d : Digits} {reads : Nat → Bool} (h : n.Writes d)
    (hpass : d.Pass reads) : n.decimal.magnitude.Pass reads := by
  rcases h with h | ⟨hexp, h⟩
  · exact h ▸ hpass
  · rw [h]
    obtain ⟨-, hreads⟩ := hpass
    refine ⟨by simp only []; omega, ?_⟩
    have hpow : d.exponent.toNat + 1 + ((-1 : Int) + 1074).toNat = (d.exponent + 1074).toNat := by omega
    simp only []
    rw [Nat.mul_assoc, ← Nat.pow_add, hpow]
    exact hreads

theorem Writes.digits_eq_zero {n : Numeral} {d : Digits} (h : n.Writes d) (hzero : d.digits = 0) :
    n.decimal.digits = 0 := by
  show n.decimal.magnitude.digits = 0
  rcases h with h | ⟨-, h⟩
  · rw [h, hzero]
  · rw [h, hzero]
    exact Nat.zero_mul _

end Numeral

namespace Layout

/-- What the layouts need of digits: no number is written with zeros only, but zero itself. -/
def Legible (d : Digits) : Prop := 0 < d.digits ∨ d.exponent = 0

/-- A whole number, written out with a zero after the point. -/
theorem exists_numeral_whole (negative : Bool) {d : Digits} (hexp : 0 ≤ d.exponent) (h : Legible d) :
    ∃ n : Numeral, n.negative = negative ∧ n.IsReal ∧ n.Writes d ∧
      n.unsigned = positional d := by
  have hleading : Nat.toDigits 10 d.digits ++ List.replicate d.exponent.toNat '0' = ['0'] ∨
      (Nat.toDigits 10 d.digits ++ List.replicate d.exponent.toNat '0').head? ≠ some '0' := by
    rcases h with h | h
    · refine Or.inr ?_
      obtain ⟨c, cs, hdigits⟩ :=
        List.exists_cons_of_ne_nil (Nat.toDigits_ne_nil (b := 10) (n := d.digits))
      have hhead := DigitText.head?_toDigits_ne_zero h
      rw [hdigits] at hhead ⊢
      exact hhead
    · rw [h]
      simpa using DigitText.leading_toDigits d.digits
  let whole : DigitText := {
    chars := Nat.toDigits 10 d.digits ++ List.replicate d.exponent.toNat '0'
    ne_nil := by simp [Nat.toDigits_ne_nil]
    isDigit := by
      intro c hc
      rcases List.mem_append.1 hc with hc | hc
      · exact (DigitText.ofNat d.digits).isDigit c hc
      · rw [List.eq_of_mem_replicate hc]
        rfl }
  refine ⟨{ negative, whole, fraction := some (DigitText.ofNat 0), leading := hleading }, rfl,
    Or.inl rfl, Or.inr ⟨hexp, ?_⟩, ?_⟩
  · have hvalue : digitsValue (whole.chars ++ ['0']) = d.digits * 10 ^ (d.exponent.toNat + 1) := by
      have hwhole : digitsValue whole.chars = d.digits * 10 ^ d.exponent.toNat := by
        rw [digitsValue_append, digitsValue_replicate_zero, List.length_replicate, Nat.add_zero,
          Nat.mul_comm]
        exact congrArg (· * _) (DigitText.digitsValue_ofNat d.digits)
      rw [digitsValue_append, hwhole, Nat.pow_succ, ← Nat.mul_assoc d.digits]
      exact Nat.mul_comm _ _
    exact congrArg (Digits.mk · (-1)) hvalue
  · rw [positional, if_pos hexp]
    simp only [Numeral.unsigned, Numeral.fractionChars, Numeral.exponentChars, List.append_nil]
    rfl

/-- A number with digits after the point. -/
theorem exists_numeral_point (negative : Bool) {d : Digits} (hexp : d.exponent < 0) (h : Legible d) :
    ∃ n : Numeral, n.negative = negative ∧ n.IsReal ∧ n.Writes d ∧
      n.unsigned = positional d := by
  obtain ⟨places, hplaces⟩ : ∃ places, (-d.exponent).toNat = places := ⟨_, rfl⟩
  have hm : 0 < d.digits := h.resolve_right (by omega)
  have hlen := Nat.length_toDigits_pos (b := 10) (n := d.digits)
  let padded := List.replicate (places + 1 - (Nat.toDigits 10 d.digits).length) '0'
    ++ Nat.toDigits 10 d.digits
  have hpadded : padded.length = max (places + 1) (Nat.toDigits 10 d.digits).length := by
    simp only [padded, List.length_append, List.length_replicate]
    omega
  have hisDigit : ∀ c ∈ padded, c.isDigit = true := by
    intro c hc
    rcases List.mem_append.1 hc with hc | hc
    · rw [List.eq_of_mem_replicate hc]
      rfl
    · exact (DigitText.ofNat d.digits).isDigit c hc
  let whole : DigitText := {
    chars := padded.take (padded.length - places)
    ne_nil := List.ne_nil_of_length_pos (by rw [List.length_take]; omega)
    isDigit := fun c hc => hisDigit c (List.mem_of_mem_take hc) }
  let fraction : DigitText := {
    chars := padded.drop (padded.length - places)
    ne_nil := List.ne_nil_of_length_pos (by rw [List.length_drop]; omega)
    isDigit := fun c hc => hisDigit c (List.mem_of_mem_drop hc) }
  -- Zeros are put in front only where no digit would stand before the point, and then one does.
  have hleading : whole.chars = ['0'] ∨ whole.chars.head? ≠ some '0' := by
    by_cases hlong : places < (Nat.toDigits 10 d.digits).length
    · refine Or.inr ?_
      have hzeros : places + 1 - (Nat.toDigits 10 d.digits).length = 0 := by omega
      have hdigits : padded = Nat.toDigits 10 d.digits := by
        simp only [padded, hzeros, List.replicate_zero, List.nil_append]
      show (padded.take (padded.length - places)).head? ≠ some '0'
      rw [List.head?_take, if_neg (by omega), hdigits]
      exact DigitText.head?_toDigits_ne_zero hm
    · refine Or.inl ?_
      have hone : padded.length - places = 1 := by omega
      have hzeros : places + 1 - (Nat.toDigits 10 d.digits).length
          = places - (Nat.toDigits 10 d.digits).length + 1 := by omega
      show padded.take (padded.length - places) = ['0']
      rw [hone]
      simp only [padded, hzeros, List.replicate_succ, List.cons_append]
      rfl
  refine ⟨{ negative, whole, fraction := some fraction, leading := hleading }, rfl,
    Or.inl rfl, Or.inl ?_, ?_⟩
  · have hvalue : digitsValue (whole.chars ++ fraction.chars) = d.digits := by
      show digitsValue (padded.take _ ++ padded.drop _) = _
      rw [List.take_append_drop, digitsValue_append, digitsValue_replicate_zero, Nat.mul_zero,
        Nat.zero_add]
      exact DigitText.digitsValue_ofNat d.digits
    have hpower : (0 : Int) - fraction.chars.length = d.exponent := by
      have : fraction.chars.length = places := by
        show (padded.drop _).length = _
        rw [List.length_drop]
        omega
      omega
    show Digits.mk (digitsValue (whole.chars ++ fraction.chars)) (0 - fraction.chars.length) = d
    rw [hvalue, hpower]
  · rw [positional, if_neg (by omega), hplaces]
    simp only [Numeral.unsigned, Numeral.fractionChars, Numeral.exponentChars, List.append_nil]
    rfl

theorem exists_numeral_positional (negative : Bool) {d : Digits} (h : Legible d) :
    ∃ n : Numeral, n.negative = negative ∧ n.IsReal ∧ n.Writes d ∧
      n.unsigned = positional d := by
  rcases Int.lt_or_le d.exponent 0 with hexp | hexp
  · exact exists_numeral_point negative hexp h
  · exact exists_numeral_whole negative hexp h

/-- The digits of the absolute value, with the sign, denote the number. -/
theorem power_natAbs (power : Int) :
    (if decide (power < 0) then -(digitsValue (DigitText.ofNat power.natAbs).chars : Int)
      else digitsValue (DigitText.ofNat power.natAbs).chars) = power := by
  rw [DigitText.digitsValue_ofNat]
  split
  · rename_i h
    have := of_decide_eq_true h
    omega
  · rename_i h
    have := of_decide_eq_false (Bool.not_eq_true _ ▸ h)
    omega

/-- A number with an exponent. -/
theorem exists_numeral_scientific (negative : Bool) (d : Digits) :
    ∃ n : Numeral, n.negative = negative ∧ n.IsReal ∧ n.Writes d ∧
      n.unsigned = scientific d (leadingPower d) := by
  obtain ⟨power, hpower⟩ : ∃ power, leadingPower d = power := ⟨_, rfl⟩
  have hsign : (if decide (power < 0) then ['-'] else ['+']) = [if power < 0 then '-' else '+'] := by
    by_cases h : power < 0 <;> simp [h]
  have hvalue := DigitText.digitsValue_ofNat d.digits
  have hisDigit := (DigitText.ofNat d.digits).isDigit
  have hfirst (c : Char) : [c] = ['0'] ∨ [c].head? ≠ some '0' := by
    by_cases h : c = '0'
    · exact Or.inl (by rw [h])
    · exact Or.inr (by simpa using h)
  let exponent := some (decide (power < 0), DigitText.ofNat power.natAbs)
  match hdigits : Nat.toDigits 10 d.digits with
  | [] => exact absurd hdigits Nat.toDigits_ne_nil
  | [c] =>
    have hchars : (DigitText.ofNat d.digits).chars = [c] := hdigits
    rw [hchars] at hvalue hisDigit
    refine ⟨{ negative, whole := ⟨[c], by simp, hisDigit⟩, exponent, leading := hfirst c }, rfl,
      Or.inr rfl, Or.inl ?_, ?_⟩
    · have hexp : power - (0 : Nat) = d.exponent := by
        rw [leadingPower, hdigits] at hpower
        simp at hpower
        omega
      show Digits.mk (digitsValue ([c] ++ [])) ((if _ then _ else _) - ((0 : Nat) : Int)) = d
      rw [power_natAbs, hexp, List.append_nil, hvalue]
    · simp only [Numeral.unsigned, Numeral.fractionChars, Numeral.exponentChars, Numeral.exponentSign,
        exponent, Bool.false_eq_true, if_false, hsign, scientific, hdigits, hpower]
      rfl
  | c :: e :: rest =>
    have hchars : (DigitText.ofNat d.digits).chars = c :: e :: rest := hdigits
    rw [hchars] at hvalue hisDigit
    let whole : DigitText := ⟨[c], by simp, fun x hx => hisDigit x (by simp_all)⟩
    let fraction : DigitText := ⟨e :: rest, by simp, fun x hx => hisDigit x (List.mem_cons_of_mem c hx)⟩
    refine ⟨{ negative, whole, fraction := some fraction, exponent, leading := hfirst c }, rfl,
      Or.inl rfl, Or.inl ?_, ?_⟩
    · have hexp : power - ((e :: rest).length : Int) = d.exponent := by
        rw [leadingPower, hdigits] at hpower
        simp at hpower ⊢
        omega
      show Digits.mk (digitsValue ([c] ++ e :: rest)) ((if _ then _ else _) - ((e :: rest).length : Int)) = d
      rw [power_natAbs, hexp, List.singleton_append, hvalue]
    · simp only [Numeral.unsigned, Numeral.fractionChars, Numeral.exponentChars, Numeral.exponentSign,
        exponent, Bool.false_eq_true, if_false, hsign, scientific, hdigits, hpower]
      rfl

theorem exists_numeral (isScientific negative : Bool) {d : Digits} (h : Legible d) :
    ∃ n : Numeral, n.negative = negative ∧ n.IsReal ∧ n.Writes d ∧
      n.unsigned = if isScientific then scientific d (leadingPower d) else positional d := by
  cases isScientific
  · exact exists_numeral_positional negative h
  · exact exists_numeral_scientific negative d

/-! ## The text of a double -/

theorem legible_shortest (tie : Tie) (d : Binary64) : Legible (d.shortest tie) := by
  rcases Nat.eq_zero_or_pos d.rank with h | h
  · rw [Binary64.shortest_of_rank_eq_zero tie h]
    exact Or.inr rfl
  · obtain ⟨-, hread⟩ := Binary64.shortest_pass tie h
    exact Or.inl (Decimal.pos_of_ten_pow_le (Binary64.le_of_readsAs h hread))

theorem text_eq (l : Layout) (d : Binary64) : ∃ isScientific : Bool,
    let digits := d.shortest l.tie
    let magnitude := if isScientific then scientific digits (leadingPower digits) else positional digits
    l.text d = if d.negative then '-' :: magnitude else magnitude :=
  ⟨_, rfl⟩

/-- **The text of a finite double reads back**: it is a numeral, with a point or an exponent, whose
nearest double is the one that was written. -/
theorem exists_numeral_text (l : Layout) {d : Binary64} (hfin : d.isFinite = true) :
    ∃ n : Numeral, n.chars = l.text d ∧ n.IsReal ∧ n.decimal.nearest = d := by
  obtain ⟨n, hsign, hreal, hwrites, hchars⟩ : ∃ n : Numeral, n.negative = d.negative ∧ n.IsReal ∧
      n.Writes (d.shortest l.tie) ∧ n.chars = l.text d := by
    obtain ⟨isScientific, htext⟩ := text_eq l d
    obtain ⟨n, hn, hreal, hwrites, hunsigned⟩ :=
      exists_numeral isScientific d.negative (legible_shortest l.tie d)
    refine ⟨n, hn, hreal, hwrites, ?_⟩
    rw [htext, Numeral.chars, hunsigned, Numeral.signChars, hn]
    cases d.negative <;> rfl
  refine ⟨n, hchars, hreal, ?_⟩
  rcases Nat.eq_zero_or_pos d.rank with h | h
  · rw [Binary64.shortest_of_rank_eq_zero l.tie h] at hwrites
    refine Decimal.nearest_eq hfin hsign ?_
    rw [Decimal.nearestRank, if_pos (hwrites.digits_eq_zero rfl), h]
  · exact Decimal.nearest_of_pass hfin h hsign (hwrites.pass (Binary64.shortest_pass l.tie h))

end Layout

end ViewEngine
