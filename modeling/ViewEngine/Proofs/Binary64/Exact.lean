import Mathlib.Algebra.Group.Nat.Defs
import ViewEngine.Proofs.Binary64.Rounding

/-!
# Numbers that doubles hold exactly

A whole number below `2 ^ 53` is a double, and so is a power of ten up to `10 ^ 22`. The product or quotient of
two doubles that hold their numbers exactly is rounded once: it is the double nearest to the product or quotient
of the numbers (`mul_exact`, `div_exact`).
-/

namespace ViewEngine.Binary64

/-! ## Quotients in other terms -/

theorem roundQuotient_mul_right (n d : Nat) {k : Nat} (hk : 0 < k) :
    roundQuotient (n * k) (d * k) = roundQuotient n d := by
  have hlt (a b : Nat) : 2 * (a * k) < b * k ↔ 2 * a < b := by
    rw [← Nat.mul_assoc]
    exact Nat.mul_lt_mul_right hk
  have hgt (a b : Nat) : b * k < 2 * (a * k) ↔ b < 2 * a := by
    rw [← Nat.mul_assoc]
    exact Nat.mul_lt_mul_right hk
  unfold roundQuotient
  simp only [Nat.mul_div_mul_right n d hk, Nat.mul_mod_mul_right, hlt, hgt]

/-- Only the quotient counts, not the terms that it is given in. -/
theorem nearestRank_mul_right (n d : Nat) {k : Nat} (hk : 0 < k) :
    nearestRank (n * k) (d * k) = nearestRank n d := by
  have hunits : n * k * unitsPerOne = n * unitsPerOne * k := Nat.mul_right_comm n k unitsPerOne
  have hscale : scaleFor (n * unitsPerOne * k) (d * k) = scaleFor (n * unitsPerOne) d := by
    rw [scaleFor, scaleFor, Nat.mul_div_mul_right _ d hk]
  unfold nearestRank
  simp only [hunits, hscale]
  have hshift : (d * k) <<< scaleFor (n * unitsPerOne) d = d <<< scaleFor (n * unitsPerOne) d * k := by
    rw [Nat.shiftLeft_eq, Nat.shiftLeft_eq, Nat.mul_right_comm]
  rw [hshift, roundQuotient_mul_right _ _ hk]

theorem ofQuotient_mul_right (negative : Bool) (n d : Nat) {k : Nat} (hk : 0 < k) :
    ofQuotient negative (n * k) (d * k) = ofQuotient negative n d := by
  rw [ofQuotient, ofQuotient, nearestRank_mul_right n d hk]

/-! ## Exact doubles -/

/-- The double nearest to a whole number is that number. -/
def HoldsExactly (n : Nat) : Prop := unitsOf (ofQuotient false n 1).rank = n * unitsPerOne

instance (n : Nat) : Decidable (HoldsExactly n) := inferInstanceAs (Decidable (_ = _))

/-- A magnitude is rounded to its own rank. -/
theorem near_unitsOf (rank : Nat) : Near rank (unitsOf rank) 1 := by
  have hunits : significandOf rank * (1 <<< scaleOf rank) = unitsOf rank := by
    rw [unitsOf, Nat.shiftLeft_eq, Nat.shiftLeft_eq, Nat.one_mul]
  have hpos := shiftLeft_pos Nat.one_pos (scaleOf rank)
  constructor <;> rw [hunits] <;> omega

theorem holdsExactly_of_unitsOf {n rank : Nat} (hfin : rank < infinityRank) (h : unitsOf rank = n * unitsPerOne) :
    HoldsExactly n := by
  have hrank : nearestRank n 1 = rank := nearestRank_of_near Nat.one_pos (h ▸ near_unitsOf rank)
  rw [HoldsExactly, ofQuotient, hrank, ofRank, ← h]
  exact congrArg unitsOf (Nat.min_eq_right (Nat.le_of_lt hfin))

/-- A whole number moved to the highest of 53 binary digits. -/
theorem shifted_bounds {n : Nat} (h0 : n ≠ 0) (h : n.log2 ≤ 52) :
    ranksPerScale ≤ n * 2 ^ (52 - n.log2) ∧ n * 2 ^ (52 - n.log2) < 2 * ranksPerScale := by
  have hsplit (a : Nat) : 2 ^ (n.log2 + a) * 2 ^ (52 - n.log2) = 2 ^ (52 + a) := by
    rw [← Nat.pow_add]
    congr 1
    omega
  have hlow := Nat.mul_le_mul_right (2 ^ (52 - n.log2)) (Nat.log2_self_le h0)
  have hhigh := Nat.mul_lt_mul_of_pos_right (Nat.lt_log2_self (n := n)) (Nat.two_pow_pos (52 - n.log2))
  have hfirst : 2 ^ n.log2 * 2 ^ (52 - n.log2) = ranksPerScale := hsplit 0
  rw [hfirst] at hlow
  rw [hsplit 1] at hhigh
  exact ⟨hlow, hhigh⟩

theorem two_pow_eq {k : Nat} (h : k = 1074) : 2 ^ k = unitsPerOne := by
  subst h
  decide +kernel

/-- **Whole numbers of at most 53 binary digits are doubles.** -/
theorem holdsExactly_of_lt {n : Nat} (h : n < 2 * ranksPerScale) : HoldsExactly n := by
  by_cases h0 : n = 0
  · subst h0
    decide +kernel
  · have hlog : n.log2 ≤ 52 := by
      have hlt : n.log2 < 53 := (Nat.log2_lt h0).2 h
      omega
    obtain ⟨hlow, hhigh⟩ := shifted_bounds h0 hlog
    have hunits : n * 2 ^ (52 - n.log2) * 2 ^ (n.log2 + 1022) = n * unitsPerOne := by
      rw [Nat.mul_assoc, ← Nat.pow_add, two_pow_eq (by omega)]
    generalize n * 2 ^ (52 - n.log2) = significand at hlow hhigh hunits
    have hscale : scaleOf ((n.log2 + 1022) * ranksPerScale + significand) = n.log2 + 1022 := by
      unfold scaleOf ranksPerScale at *
      omega
    have hfin : (n.log2 + 1022) * ranksPerScale + significand < infinityRank := by
      unfold ranksPerScale infinityRank at *
      omega
    refine holdsExactly_of_unitsOf hfin ?_
    rw [unitsOf, significandOf, hscale, Nat.add_sub_cancel_left, Nat.shiftLeft_eq, hunits]

theorem holdsExactly_ten_pow {e : Nat} (h : e ≤ 22) : HoldsExactly (Nat.pow 10 e) := by
  have hall : ∀ e < 23, HoldsExactly (Nat.pow 10 e) := by decide +kernel
  exact hall e (Nat.lt_succ_of_le h)

theorem unitsPerOne_pos : 0 < unitsPerOne := shiftLeft_pos Nat.one_pos 1074

/-- The product of two exact numbers is rounded once. -/
theorem mul_exact {m n : Nat} (hm : HoldsExactly m) (hn : HoldsExactly n) :
    (ofQuotient false m 1).mul (ofQuotient false n 1) = ofQuotient false (m * n) 1 := by
  have hunits : m * unitsPerOne * (n * unitsPerOne) = m * n * (unitsPerOne * unitsPerOne) :=
    Nat.mul_mul_mul_comm m unitsPerOne n unitsPerOne
  have hround := ofQuotient_mul_right false (m * n) 1 (Nat.mul_pos unitsPerOne_pos unitsPerOne_pos)
  rw [Nat.one_mul] at hround
  rw [mul, hm, hn, hunits]
  exact hround

/-- The quotient of two exact numbers is rounded once. -/
theorem div_exact {m n : Nat} (hm : HoldsExactly m) (hn : HoldsExactly n) :
    (ofQuotient false m 1).div (ofQuotient false n 1) = ofQuotient false m n := by
  rw [div, hm, hn]
  exact ofQuotient_mul_right false m n unitsPerOne_pos

end ViewEngine.Binary64
