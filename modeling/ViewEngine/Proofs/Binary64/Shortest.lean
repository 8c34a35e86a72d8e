import Mathlib.Algebra.Group.Nat.Defs
import ViewEngine.Binary64.Shortest
import ViewEngine.Proofs.Binary64.Rounding

/-!
# Shortest digits read back

The digits chosen for a double lie in the interval of numbers for which it is the nearest double.
Whatever grid they come from, the choice is made by the test itself; so nothing has to be known of how
many digits are enough.
-/

namespace ViewEngine

/-! ## Grids -/

/-- The neighbour taken on a grid has passed the test. -/
theorem reads_of_onGrid? {tie : Tie} {reads : Nat → Bool} {exact step c : Nat}
    (h : onGrid? tie reads exact step = some c) : reads (4 * (c * step)) = true := by
  unfold onGrid? at h
  simp only [] at h
  generalize exact / step = lower at h
  split at h
  · rename_i hlower _
    cases h
    exact hlower
  · rename_i _ hupper
    cases h
    exact hupper
  · cases h
  · rename_i hlower hupper
    have hc : c = lower ∨ c = lower + 1 := by grind
    rcases hc with rfl | rfl
    · exact hlower
    · exact hupper

/-- The number `digits * 10 ^ exponent` is a multiple of `10 ^ (-1074)` and passes the test. -/
structure Digits.Pass (d : Digits) (reads : Nat → Bool) : Prop where
  le_exponent : -1074 ≤ d.exponent
  reads : reads (4 * (d.digits * 10 ^ (d.exponent + 1074).toNat)) = true

theorem pass_firstGrid {tie : Tie} {reads : Nat → Bool} {exact : Nat} (places : Nat)
    (h : reads (4 * exact) = true) :
    ∀ fuel count : Nat, (firstGrid tie reads exact places fuel count).Pass reads
  | 0, _ => ⟨Int.le_refl _, by rw [firstGrid]; simpa using h⟩
  | fuel + 1, count => by
    rw [firstGrid]
    split
    · rename_i c hgrid
      have hexp : (((places - count : Nat) : Int) - 1074 + 1074).toNat = places - count := by omega
      refine ⟨by simp only []; omega, ?_⟩
      simp only [hexp]
      exact reads_of_onGrid? hgrid
    · exact pass_firstGrid places h fuel (count + 1)

/-- Dropping a zero from the end and raising the exponent is no change of the number. -/
theorem Digits.Pass.strip {reads : Nat → Bool} : ∀ {d : Digits} (fuel : Nat), d.Pass reads →
    (d.strip fuel).Pass reads
  | _, 0, h => h
  | d, fuel + 1, h => by
    rw [Digits.strip]
    split
    · rename_i hzero
      obtain ⟨hle, hreads⟩ := h
      have hexp : (d.exponent + 1 + 1074).toNat = (d.exponent + 1074).toNat.succ := by omega
      have hdigits : d.digits = 10 * (d.digits / 10) := by omega
      rw [hdigits, Nat.mul_comm 10, Nat.mul_assoc, ← Nat.pow_succ', ← hexp] at hreads
      exact Digits.Pass.strip fuel ⟨by simp only []; omega, hreads⟩
    · exact h

namespace Binary64

/-! ## The interval of a rank -/

theorem decimalUnits_pos : 0 < decimalUnits := by decide +kernel

/-- The half of the interval below the magnitude of a rank. -/
def belowOf (rank : Nat) : Nat := if IsFirst rank then 1 <<< scaleOf rank else 2 * (1 <<< scaleOf rank)

theorem belowOf_pos (rank : Nat) : 0 < belowOf rank := by
  have := shiftLeft_pos Nat.one_pos (scaleOf rank)
  unfold belowOf
  split <;> omega

theorem belowOf_le (rank : Nat) : belowOf rank ≤ 2 * (1 <<< scaleOf rank) := by
  unfold belowOf
  split <;> omega

theorem readsAs_iff (rank quarters : Nat) :
    readsAs rank quarters = true ↔
      (4 * unitsOf rank - belowOf rank) * decimalUnits ≤ quarters ∧
      quarters ≤ (4 * unitsOf rank + 2 * (1 <<< scaleOf rank)) * decimalUnits ∧
      (significandOf rank % 2 = 1 →
        (4 * unitsOf rank - belowOf rank) * decimalUnits < quarters ∧
        quarters < (4 * unitsOf rank + 2 * (1 <<< scaleOf rank)) * decimalUnits) := by
  have hinterval : interval rank = ((4 * unitsOf rank - belowOf rank) * decimalUnits,
      (4 * unitsOf rank + 2 * (1 <<< scaleOf rank)) * decimalUnits) := rfl
  rw [readsAs, hinterval]
  simp only []
  by_cases heven : significandOf rank % 2 = 0
  · rw [if_pos heven, decide_eq_true_iff]
    constructor
    · rintro ⟨hlow, hhigh⟩
      exact ⟨hlow, hhigh, fun hodd => by omega⟩
    · rintro ⟨hlow, hhigh, -⟩
      exact ⟨hlow, hhigh⟩
  · rw [if_neg heven, decide_eq_true_iff]
    constructor
    · rintro ⟨hlow, hhigh⟩
      exact ⟨Nat.le_of_lt hlow, Nat.le_of_lt hhigh, fun _ => ⟨hlow, hhigh⟩⟩
    · rintro ⟨-, -, hodd⟩
      exact hodd (by omega)

/-- The magnitude of a rank reads as itself. -/
theorem readsAs_units {rank : Nat} (h : 0 < rank) :
    readsAs rank (4 * (unitsOf rank * decimalUnits)) = true := by
  rw [← Nat.mul_assoc]
  have hunits : 0 < unitsOf rank := shiftLeft_pos (significandOf_pos h) _
  have hspacing := shiftLeft_pos Nat.one_pos (scaleOf rank)
  have hbelow := belowOf_pos rank
  have hlow : (4 * unitsOf rank - belowOf rank) * decimalUnits
      < 4 * unitsOf rank * decimalUnits :=
    Nat.mul_lt_mul_of_pos_right (by omega) decimalUnits_pos
  have hhigh : 4 * unitsOf rank * decimalUnits
      < (4 * unitsOf rank + 2 * (1 <<< scaleOf rank)) * decimalUnits :=
    Nat.mul_lt_mul_of_pos_right (by omega) decimalUnits_pos
  exact (readsAs_iff _ _).2 ⟨Nat.le_of_lt hlow, Nat.le_of_lt hhigh, fun _ => ⟨hlow, hhigh⟩⟩

/-- **The digits of a double read back**: they lie in the interval of numbers that round to it. -/
theorem shortest_pass (tie : Tie) {d : Binary64} (h : 0 < d.rank) :
    (d.shortest tie).Pass (readsAs d.rank) := by
  unfold shortest
  rw [if_neg (by omega)]
  exact (pass_firstGrid _ (readsAs_units h) 17 1).strip 17

theorem shortest_of_rank_eq_zero (tie : Tie) {d : Binary64} (h : d.rank = 0) :
    d.shortest tie = ⟨0, 0⟩ := by
  unfold shortest
  rw [if_pos h]

/-! ## From the interval to the nearest double -/

/-- Comparing with a multiple of `k` is comparing with that multiple of `d`, after a change of units. -/
theorem le_iff_of_mul_eq {n d units k : Nat} (hd : 0 < d) (hk : 0 < k) (h : n * d = units * k)
    (x : Nat) : x * k ≤ 4 * n ↔ x * d ≤ 4 * units := by
  have hscaled : 4 * n * d = 4 * units * k := by rw [Nat.mul_assoc, h, Nat.mul_assoc]
  rw [← Nat.mul_le_mul_right_iff hd, hscaled, Nat.mul_right_comm x, Nat.mul_le_mul_right_iff hk]

theorem ge_iff_of_mul_eq {n d units k : Nat} (hd : 0 < d) (hk : 0 < k) (h : n * d = units * k)
    (x : Nat) : 4 * n ≤ x * k ↔ 4 * units ≤ x * d := by
  have hscaled : 4 * n * d = 4 * units * k := by rw [Nat.mul_assoc, h, Nat.mul_assoc]
  rw [← Nat.mul_le_mul_right_iff hd, hscaled, Nat.mul_right_comm x, Nat.mul_le_mul_right_iff hk]

theorem near_of_readsAs {rank n units d : Nat} (hd : 0 < d) (hn : n * d = units * decimalUnits)
    (h : readsAs rank (4 * n) = true) : Near rank units d := by
  have hle := le_iff_of_mul_eq hd decimalUnits_pos hn
  have hge := ge_iff_of_mul_eq hd decimalUnits_pos hn
  -- Strict comparisons change their units as the converse ones do.
  rw [readsAs_iff, hle, hge, ← Nat.not_le, ← Nat.not_le, hge, hle, Nat.not_le, Nat.not_le] at h
  obtain ⟨hlow, hhigh, hodd⟩ := h
  have hspacing : 1 <<< scaleOf rank * d = d <<< scaleOf rank := by
    rw [Nat.shiftLeft_eq, Nat.shiftLeft_eq, Nat.one_mul, Nat.mul_comm]
  have hunits : 4 * unitsOf rank * d = 4 * (significandOf rank * (d <<< scaleOf rank)) := by
    rw [unitsOf, Nat.shiftLeft_eq, Nat.shiftLeft_eq, Nat.mul_assoc, Nat.mul_assoc, Nat.mul_comm d]
  have hbelow : belowOf rank * d ≤ 2 * (d <<< scaleOf rank) := by
    rw [← hspacing, ← Nat.mul_assoc]
    exact Nat.mul_le_mul_right d (belowOf_le rank)
  have hfirst : IsFirst rank → belowOf rank * d = d <<< scaleOf rank := fun hf => by
    rw [belowOf, if_pos hf, hspacing]
  rw [Nat.sub_mul, hunits] at hlow hodd
  rw [Nat.add_mul, hunits, Nat.mul_assoc, hspacing] at hhigh hodd
  refine ⟨by omega, fun hf => ?_, by omega, fun hs => ?_⟩
  · have := hfirst hf
    omega
  · have := hodd hs
    omega

end Binary64

end ViewEngine
