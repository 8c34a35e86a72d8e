import ViewEngine.Proofs.Binary64.Exact
import ViewEngine.Proofs.Json.Numbers

/-!
# The stepwise reader on short numerals

The stepwise reader rounds twice, but where the digits of a numeral are a number below `2 ^ 53` and the power of ten
is at most the 22nd, both are doubles, and only their product or quotient is rounded. So such a numeral is read as
the nearest double (`Stepwise.read_chars`), and a double that is written like this is read back.
-/

namespace ViewEngine

/-! ## Taking digits -/

theorem le_ofDigitChars (cs : List Char) (n : Nat) : n ≤ Nat.ofDigitChars 10 cs n := by
  rw [Nat.ofDigitChars_eq_ofDigitChars_zero]
  have hpow : 0 < 10 ^ cs.length := Nat.pow_pos (by decide)
  have := Nat.le_mul_of_pos_left n hpow
  omega

namespace Stepwise

/-- All digits are taken where the whole number fits. -/
theorem takeDigits_append {cs rest : List Char} (hdigits : ∀ c ∈ cs, c.isDigit = true)
    (hrest : ∀ c ∈ rest.head?, c.isDigit = false) (n : Nat) (hfits : Nat.ofDigitChars 10 cs n < UInt64.size) :
    takeDigits n (cs ++ rest) = (Nat.ofDigitChars 10 cs n, rest) := by
  induction cs generalizing n with
  | nil =>
    cases rest with
    | nil => rfl
    | cons c rest =>
      have hc : c.isDigit = false := hrest c rfl
      simp [takeDigits, hc, Nat.ofDigitChars]
  | cons c cs ih =>
    obtain ⟨hc, hcs⟩ := List.forall_mem_cons.1 hdigits
    have hnext : 10 * n + (c.toNat - '0'.toNat) < UInt64.size :=
      Nat.lt_of_le_of_lt (le_ofDigitChars cs _) hfits
    rw [List.cons_append, takeDigits, if_pos ⟨hc, hnext⟩]
    exact ih hcs _ hfits

/-- **The digits of a numeral are kept whole where they fit**, and those after the point are counted. -/
theorem significand_unsigned (n : Numeral) (hfits : n.decimal.digits < UInt64.size) :
    significand n.unsigned = (n.decimal.digits, -(n.fractionDigits.length : Int), n.exponentChars) := by
  have hexponent := n.isDigit_of_exponentChars_head?
  have hstop : n.exponentChars.takeWhile Char.isDigit = [] ∧
      n.exponentChars.dropWhile Char.isDigit = n.exponentChars := by
    cases hchars : n.exponentChars with
    | nil => exact ⟨rfl, rfl⟩
    | cons c cs =>
      have hc : c.isDigit = false := hexponent c (by rw [hchars]; rfl)
      simp [hc]
  have hdigits : n.decimal.digits = Nat.ofDigitChars 10 n.fractionDigits (digitsValue n.whole.chars) :=
    Nat.ofDigitChars_append ..
  have hwhole : digitsValue n.whole.chars < UInt64.size :=
    Nat.lt_of_le_of_lt (le_ofDigitChars _ _) (hdigits ▸ hfits)
  unfold significand Numeral.unsigned Numeral.fractionChars
  rw [hdigits] at hfits ⊢
  unfold Numeral.fractionDigits at *
  cases hfraction : n.fraction with
  | none =>
    have htake : takeDigits 0 (n.whole.chars ++ n.exponentChars) = (digitsValue n.whole.chars, n.exponentChars) :=
      takeDigits_append n.whole.isDigit hexponent 0 hwhole
    simp only [List.nil_append, htake, hstop.1, hstop.2]
    split
    · rename_i rest heq
      exact absurd heq (n.exponentChars_ne_point rest)
    · rfl
  | some t =>
    rw [hfraction] at hfits
    have hpoint : ∀ c ∈ ('.' :: (t.chars ++ n.exponentChars)).head?, c.isDigit = false := by
      intro c hc
      rw [← Option.some.inj hc]
      rfl
    have htake : takeDigits 0 (n.whole.chars ++ '.' :: (t.chars ++ n.exponentChars)) =
        (digitsValue n.whole.chars, '.' :: (t.chars ++ n.exponentChars)) :=
      takeDigits_append n.whole.isDigit hpoint 0 hwhole
    have htake' := takeDigits_append t.isDigit hexponent (digitsValue n.whole.chars) hfits
    have hcount : (t.chars ++ n.exponentChars).length - n.exponentChars.length = t.chars.length := by
      rw [List.length_append, Nat.add_sub_cancel_right]
    have hskipped : ('.' :: (t.chars ++ n.exponentChars)).takeWhile Char.isDigit = [] := rfl
    have hleft : ('.' :: (t.chars ++ n.exponentChars)).dropWhile Char.isDigit =
        '.' :: (t.chars ++ n.exponentChars) := rfl
    simp only [List.cons_append, htake, hskipped, hleft, htake', hcount, hstop.2,
      List.length_nil, Int.natCast_zero, Int.zero_sub]

/-! ## Rounding once -/

theorem nearestRank_zero (d : Nat) (hd : 0 < d) : Binary64.nearestRank 0 d = 0 := by
  have := Binary64.nearestRank_mul_right 0 1 hd
  rw [Nat.zero_mul, Nat.one_mul] at this
  rw [this]
  decide +kernel

/-- A short decimal number is far from both ends at which its digits no longer count. -/
theorem nearestRank_of_short {x : Decimal} (hdigits : x.digits < 2 * Binary64.ranksPerScale)
    (hpower : x.exponent.natAbs ≤ 22) : x.nearestRank =
      if 0 ≤ x.exponent then Binary64.nearestRank (x.digits * Nat.pow 10 x.exponent.toNat) 1
      else Binary64.nearestRank x.digits (Nat.pow 10 (-x.exponent).toNat) := by
  by_cases hzero : x.digits = 0
  · rw [Decimal.nearestRank, if_pos hzero, hzero, Nat.zero_mul]
    split
    · exact (nearestRank_zero 1 Nat.one_pos).symm
    · exact (nearestRank_zero _ (Nat.pow_pos (by decide))).symm
  · have hlength : (Nat.toDigits 10 x.digits).length ≤ 16 :=
      (Nat.length_toDigits_le_iff (by decide) (by decide)).2 (Nat.lt_trans hdigits (by decide))
    unfold Decimal.nearestRank
    simp only []
    rw [if_neg hzero, if_neg (by omega), if_neg (by omega)]

/-- **A short number is scaled exactly**, and rounded once. -/
theorem scale_of_short {x : Decimal} (hdigits : x.digits < 2 * Binary64.ranksPerScale)
    (hpower : x.exponent.natAbs ≤ 22) : scale x.digits x.exponent = Binary64.ofRank false x.nearestRank := by
  have hexact := Binary64.holdsExactly_of_lt hdigits
  have hten := Binary64.holdsExactly_ten_pow hpower
  have hmax : (maxPower : Int) = 308 := rfl
  rw [nearestRank_of_short hdigits hpower]
  unfold scale
  simp only []
  by_cases hneg : x.exponent < 0
  · have hrounds : (x.exponent.natAbs - 1) / maxPower = 0 := Nat.div_eq_of_lt (by unfold maxPower; omega)
    have htoNat : (-x.exponent).toNat = x.exponent.natAbs := by omega
    rw [if_pos hneg, if_neg (by omega), hrounds, Nat.zero_mul, Nat.sub_zero, shrink, powerOfTen,
      Binary64.div_exact hexact hten, htoNat]
    rfl
  · have htoNat : x.exponent.toNat = x.exponent.natAbs := by omega
    rw [if_neg hneg, if_pos (by omega), if_pos (by omega), htoNat, powerOfTen, Binary64.mul_exact hexact hten]
    rfl

/-- **A short numeral is read as the nearest double.** -/
theorem read_chars {n : Numeral} (hdigits : n.decimal.digits < 2 * Binary64.ranksPerScale)
    (hpower : n.decimal.exponent.natAbs ≤ 22) : read n.chars = n.decimal.nearest := by
  have hfits : n.decimal.digits < UInt64.size := Nat.lt_trans hdigits (by decide)
  have hexponent : -(n.fractionDigits.length : Int) + n.power = n.decimal.exponent := by
    show _ = n.power - (n.fractionDigits.length : Int)
    omega
  unfold read
  simp only [n.splitSign_chars, significand_unsigned n hfits, n.readExponent?_exponentChars, Option.getD_some,
    hexponent, scale_of_short hdigits hpower]
  rfl

/-- A double that is written with few digits and a small power of ten is read back by the program. -/
theorem readsBack_of_short {d : Binary64} (hfin : d.isFinite = true) {n : Numeral}
    (hchars : n.chars = Json.doubleText d) (hdigits : n.decimal.digits < 2 * Binary64.ranksPerScale)
    (hpower : n.decimal.exponent.natAbs ≤ 22) : NumberReader.ReadsBack d := by
  obtain ⟨m, hm, -, hnearest⟩ := Layout.exists_numeral_text Layout.json hfin
  have hdecimal : n.decimal = m.decimal := by
    have htext : n.chars = m.chars := by rw [hchars, hm, Json.doubleText, if_pos hfin]
    exact Option.some.inj (n.read?_chars.symm.trans (htext ▸ m.read?_chars))
  show read (Json.doubleText d) = d
  rw [← hchars, read_chars hdigits hpower, hdecimal, hnearest]

end Stepwise

end ViewEngine
