import ViewEngine.Decimal.Reader
import ViewEngine.Proofs.Binary64.Shortest

/-!
# The double nearest to a decimal number

A decimal number in the interval of a finite rank is read as the double of that rank: it lies far from
both ends at which the reader stops looking at digits, and between them it is rounded exactly.
-/

namespace ViewEngine

open Binary64

/-! ## Powers of ten -/

theorem ten_pow_eq {k : Nat} (h : k = 1074) : 10 ^ k = unitsPerOne * decimalUnits := by
  subst h
  decide +kernel

theorem le_of_length_toDigits {n : Nat} (h : 0 < n) : 10 ^ ((Nat.toDigits 10 n).length - 1) ≤ n := by
  by_cases hone : (Nat.toDigits 10 n).length = 1
  · rw [hone]
    exact h
  · have hpos := Nat.length_toDigits_pos (b := 10) (n := n)
    refine Nat.le_of_not_lt fun hlt => ?_
    have := (Nat.length_toDigits_le_iff (by decide) (by omega)).2 hlt
    omega

theorem lt_of_length_toDigits (n : Nat) : n < 10 ^ (Nat.toDigits 10 n).length :=
  (Nat.length_toDigits_le_iff (by decide) Nat.length_toDigits_pos).1 (Nat.le_refl _)

namespace Binary64

theorem shiftLeft_le {a b : Nat} (h : a ≤ b) : 1 <<< a ≤ 1 <<< b := by
  rw [Nat.shiftLeft_eq, Nat.shiftLeft_eq]
  exact Nat.mul_le_mul_left 1 (Nat.pow_le_pow_right (by decide) h)

/-! ## The interval of a finite rank is bounded -/

theorem unitsOf_le {rank : Nat} (h : rank < infinityRank) :
    4 * unitsOf rank + 2 * (1 <<< scaleOf rank) ≤ 8 * ranksPerScale * (1 <<< 2045) := by
  have hscale : scaleOf rank ≤ 2045 := by
    unfold scaleOf ranksPerScale
    unfold infinityRank at h
    omega
  have hunits : unitsOf rank = significandOf rank * (1 <<< scaleOf rank) := by
    rw [unitsOf, Nat.shiftLeft_eq, Nat.shiftLeft_eq, Nat.one_mul]
  have hsig : 4 * significandOf rank + 2 ≤ 8 * ranksPerScale := by
    have := significandOf_lt rank
    omega
  calc 4 * unitsOf rank + 2 * (1 <<< scaleOf rank)
      = (4 * significandOf rank + 2) * (1 <<< scaleOf rank) := by
        rw [hunits, Nat.add_mul, Nat.mul_assoc]
    _ ≤ 8 * ranksPerScale * (1 <<< 2045) := Nat.mul_le_mul hsig (shiftLeft_le hscale)

theorem lt_of_readsAs {rank n : Nat} (hfin : rank < infinityRank) (h : readsAs rank (4 * n) = true) :
    n < 10 ^ 1383 := by
  obtain ⟨-, hhigh, -⟩ := (readsAs_iff rank (4 * n)).1 h
  have hbound := Nat.mul_le_mul_right decimalUnits (unitsOf_le hfin)
  have hten : 8 * ranksPerScale * (1 <<< 2045) * decimalUnits < 4 * 10 ^ 1383 := by decide +kernel
  have hquarters := Nat.lt_of_le_of_lt (Nat.le_trans hhigh hbound) hten
  generalize 10 ^ 1383 = bound at hquarters ⊢
  omega

theorem le_of_readsAs {rank n : Nat} (hpos : 0 < rank) (h : readsAs rank (4 * n) = true) :
    10 ^ 744 ≤ n := by
  obtain ⟨hlow, -, -⟩ := (readsAs_iff rank (4 * n)).1 h
  have hunits : 1 <<< scaleOf rank ≤ unitsOf rank := by
    rw [unitsOf, Nat.shiftLeft_eq, Nat.shiftLeft_eq]
    exact Nat.mul_le_mul_right _ (significandOf_pos hpos)
  have hspacing := shiftLeft_pos Nat.one_pos (scaleOf rank)
  have hbelow := belowOf_le rank
  have hunit : 2 * decimalUnits ≤ (4 * unitsOf rank - belowOf rank) * decimalUnits :=
    Nat.mul_le_mul_right _ (by omega)
  have hfive : 2 * 10 ^ 744 ≤ decimalUnits := by decide +kernel
  omega

end Binary64

/-! ## Reading a decimal number -/

namespace Decimal

/-- The magnitude of a decimal number. -/
def magnitude (x : Decimal) : Digits := ⟨x.digits, x.exponent⟩

theorem pos_of_ten_pow_le {m E low : Nat} (h : 10 ^ low ≤ m * 10 ^ E) : 0 < m := by
  refine Nat.pos_of_ne_zero fun h0 => ?_
  have hpos : 0 < 10 ^ low := Nat.pow_pos (by decide)
  rw [h0, Nat.zero_mul] at h
  omega

/-- The number of digits of `m * 10 ^ E`, bounded by powers of ten. -/
theorem length_bounds {m E low high : Nat} (hlow : 10 ^ low ≤ m * 10 ^ E)
    (hhigh : m * 10 ^ E < 10 ^ high) :
    low < (Nat.toDigits 10 m).length + E ∧ (Nat.toDigits 10 m).length + E ≤ high := by
  have hE : 0 < 10 ^ E := Nat.pow_pos (by decide)
  have hm := pos_of_ten_pow_le hlow
  have hpos := Nat.length_toDigits_pos (b := 10) (n := m)
  constructor
  · have hlt := Nat.mul_lt_mul_of_pos_right (lt_of_length_toDigits m) hE
    rw [← Nat.pow_add] at hlt
    exact (Nat.pow_lt_pow_iff_right (by decide)).1 (Nat.lt_of_le_of_lt hlow hlt)
  · have hle := Nat.mul_le_mul_right (10 ^ E) (le_of_length_toDigits hm)
    rw [← Nat.pow_add] at hle
    have := (Nat.pow_lt_pow_iff_right (by decide)).1 (Nat.lt_of_le_of_lt hle hhigh)
    omega

/-- **A decimal number in the interval of a finite rank is read as that rank.** -/
theorem nearestRank_of_pass {x : Decimal} {rank : Nat} (hpos : 0 < rank) (hfin : rank < infinityRank)
    (h : x.magnitude.Pass (readsAs rank)) : x.nearestRank = rank := by
  obtain ⟨hexp, hread⟩ := h
  have hexp : -1074 ≤ x.exponent := hexp
  have hread : readsAs rank (4 * (x.digits * 10 ^ (x.exponent + 1074).toNat)) = true := hread
  have hlow := le_of_readsAs hpos hread
  have hdigits := pos_of_ten_pow_le hlow
  obtain ⟨hbottom, htop⟩ := length_bounds hlow (lt_of_readsAs hfin hread)
  unfold nearestRank
  simp only []
  rw [if_neg (by omega), if_neg (by omega), if_neg (by omega)]
  split
  · rename_i hnonneg
    -- The exponent gets a name, so that no step computes the power.
    obtain ⟨k, hk⟩ : ∃ k, k = 1074 := ⟨_, rfl⟩
    have hE : (x.exponent + 1074).toNat = x.exponent.toNat + k := by omega
    rw [hE, Nat.pow_add, ten_pow_eq hk] at hread
    refine nearestRank_of_near Nat.one_pos (near_of_readsAs Nat.one_pos ?_ hread)
    rw [Nat.mul_one, ← Nat.mul_assoc, ← Nat.mul_assoc]
    rfl
  · rename_i hneg
    have hten : 10 ^ (x.exponent + 1074).toNat * 10 ^ (-x.exponent).toNat = unitsPerOne * decimalUnits := by
      rw [← Nat.pow_add, ten_pow_eq (by omega)]
    have hpow : 0 < 10 ^ (-x.exponent).toNat := Nat.pow_pos (by decide)
    refine nearestRank_of_near hpow (near_of_readsAs hpow ?_ hread)
    show x.digits * 10 ^ (x.exponent + 1074).toNat * 10 ^ (-x.exponent).toNat = _
    rw [Nat.mul_assoc, hten, Nat.mul_assoc]

theorem nearest_eq {x : Decimal} {d : Binary64} (hfin : d.isFinite = true)
    (hsign : x.negative = d.negative) (hrank : x.nearestRank = d.rank) : x.nearest = d := by
  have hlt : d.rank < infinityRank := of_decide_eq_true hfin
  obtain ⟨negative, rank, hrank_lt⟩ := d
  simp only at hsign hrank hlt
  simp only [nearest, ofRank, hsign, hrank, Nat.min_eq_right (Nat.le_of_lt hlt)]

/-- A decimal number with the digits of a finite double is read as that double. -/
theorem nearest_of_pass {x : Decimal} {d : Binary64} (hfin : d.isFinite = true) (hpos : 0 < d.rank)
    (hsign : x.negative = d.negative) (h : x.magnitude.Pass (readsAs d.rank)) : x.nearest = d :=
  nearest_eq hfin hsign (nearestRank_of_pass hpos (of_decide_eq_true hfin) h)

/-- **A whole number is read as it is converted.** It has too few digits to be taken for infinite. -/
theorem nearest_whole {x : Decimal} (hexp : x.exponent = 0) (hsmall : x.digits < UInt64.size) :
    x.nearest = ofQuotient x.negative x.digits 1 := by
  have hrank : x.nearestRank = Binary64.nearestRank x.digits 1 := by
    by_cases hzero : x.digits = 0
    · rw [nearestRank, if_pos hzero, hzero]
      decide
    · have hlength : (Nat.toDigits 10 x.digits).length ≤ 20 :=
        (Nat.length_toDigits_le_iff (by decide) (by decide)).2 (Nat.lt_trans hsmall (by decide))
      unfold nearestRank
      simp only []
      rw [if_neg hzero, if_neg (by omega), if_neg (by omega), if_pos (by omega), hexp]
      exact congrArg (Binary64.nearestRank · 1) (Nat.mul_one x.digits)
  rw [nearest, hrank, ofQuotient]

end Decimal

end ViewEngine
