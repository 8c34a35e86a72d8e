import ViewEngine.Binary64.Nearest

/-!
# Rounding to the nearest double

A number close enough to the magnitude of a rank is rounded to that rank. Close enough is `Near`:
within half a spacing, or a quarter of it below the first magnitude of a scale, where the spacing
halves; the ends count when the significand is even.
-/

namespace ViewEngine

/-- The integer nearest to a quotient, from the bounds that single it out. -/
theorem roundQuotient_eq {n d k : Nat} (hd : 0 < d) (hlow : 2 * (k * d) ≤ 2 * n + d)
    (hhigh : 2 * n ≤ 2 * (k * d) + d)
    (hodd : k % 2 = 1 → 2 * (k * d) < 2 * n + d ∧ 2 * n < 2 * (k * d) + d) :
    roundQuotient n d = k := by
  have hr : n % d < d := Nat.mod_lt n hd
  have hn : n / d * d + n % d = n := by rw [Nat.mul_comm]; exact Nat.div_add_mod n d
  have hkq : k = n / d ∨ k = n / d + 1 := by
    have hle : k ≤ n / d + 1 := by
      refine Nat.le_of_not_lt fun h => ?_
      have : (n / d + 2) * d ≤ k * d := Nat.mul_le_mul_right d (by omega)
      rw [Nat.add_mul] at this
      omega
    have hge : n / d ≤ k := by
      refine Nat.le_of_not_lt fun h => ?_
      have : (k + 1) * d ≤ n / d * d := Nat.mul_le_mul_right d (by omega)
      rw [Nat.add_mul] at this
      omega
    omega
  unfold roundQuotient
  simp only []
  rcases hkq with hk | hk
  · rw [hk] at hlow hhigh hodd ⊢
    split
    · rfl
    · rename_i hlt
      rw [if_neg (by omega), if_pos (by omega)]
  · rw [hk] at hlow hhigh hodd ⊢
    rw [Nat.add_mul] at hlow hhigh hodd
    rw [if_neg (by omega)]
    split
    · rfl
    · rw [if_neg (by omega)]

namespace Binary64

/-! ## Scale and significand -/

theorem rank_eq (rank : Nat) : rank = scaleOf rank * ranksPerScale + significandOf rank := by
  unfold significandOf scaleOf ranksPerScale
  omega

theorem significandOf_lt (rank : Nat) : significandOf rank < 2 * ranksPerScale := by
  unfold significandOf scaleOf ranksPerScale
  omega

theorem le_significandOf {rank : Nat} (h : 0 < scaleOf rank) : ranksPerScale ≤ significandOf rank := by
  unfold significandOf scaleOf ranksPerScale at *
  omega

theorem significandOf_pos {rank : Nat} (h : 0 < rank) : 0 < significandOf rank := by
  unfold significandOf scaleOf ranksPerScale
  omega

/-- A rank is the first of its scale and the spacing below it is half as wide. -/
def IsFirst (rank : Nat) : Prop := 0 < scaleOf rank ∧ significandOf rank = ranksPerScale

instance (rank : Nat) : Decidable (IsFirst rank) := inferInstanceAs (Decidable (_ ∧ _))

/-- The number `units / d`, in units of `2 ^ (-1074)`, reads as the magnitude of this rank. -/
structure Near (rank units d : Nat) : Prop where
  low : 2 * (significandOf rank * (d <<< scaleOf rank)) ≤ 2 * units + d <<< scaleOf rank
  first : IsFirst rank →
    4 * (significandOf rank * (d <<< scaleOf rank)) ≤ 4 * units + d <<< scaleOf rank
  high : 2 * units ≤ 2 * (significandOf rank * (d <<< scaleOf rank)) + d <<< scaleOf rank
  strict : significandOf rank % 2 = 1 →
    2 * (significandOf rank * (d <<< scaleOf rank)) < 2 * units + d <<< scaleOf rank ∧
      2 * units < 2 * (significandOf rank * (d <<< scaleOf rank)) + d <<< scaleOf rank

/-! ## The scale of a quotient -/

theorem shiftLeft_pos {d : Nat} (hd : 0 < d) (scale : Nat) : 0 < d <<< scale := by
  rw [Nat.shiftLeft_eq]
  exact Nat.mul_pos hd (Nat.two_pow_pos scale)

theorem shiftLeft_succ (d scale : Nat) : d <<< (scale + 1) = 2 * (d <<< scale) := by
  rw [Nat.shiftLeft_succ]

theorem scaleFor_lt {units d scale : Nat} (hd : 0 < d) (hs : 0 < scale)
    (h : units < ranksPerScale * (d <<< scale)) : scaleFor units d < scale := by
  unfold scaleFor
  by_cases h0 : units / d = 0
  · simp [h0, hs]
  · have hlog : (units / d).log2 < 52 + scale := by
      rw [Nat.log2_lt h0, Nat.div_lt_iff_lt_mul hd, Nat.pow_add, Nat.mul_assoc]
      rw [Nat.shiftLeft_eq, Nat.mul_comm d] at h
      exact h
    omega

theorem le_scaleFor {units d scale : Nat} (hd : 0 < d) (h : ranksPerScale * (d <<< scale) ≤ units) :
    scale ≤ scaleFor units d := by
  have hpow : 2 ^ (52 + scale) ≤ units / d := by
    rw [Nat.le_div_iff_mul_le hd, Nat.pow_add, Nat.mul_assoc]
    rw [Nat.shiftLeft_eq, Nat.mul_comm d] at h
    exact h
  have hlog : 52 + scale ≤ (units / d).log2 := by
    rw [Nat.le_log2]
    · exact hpow
    · have := Nat.two_pow_pos (52 + scale)
      omega
  unfold scaleFor
  omega

/-- The scale at which a number near a rank is rounded: that of the rank, or the one below it where
the number lies below the first magnitude of the scale. -/
theorem Near.scaleFor_cases {rank units d : Nat} (hd : 0 < d) (h : Near rank units d) :
    scaleFor units d = scaleOf rank ∨
      (scaleFor units d + 1 = scaleOf rank ∧ significandOf rank = ranksPerScale ∧
        units < ranksPerScale * (d <<< scaleOf rank)) := by
  have hle : scaleFor units d < scaleOf rank + 1 := by
    refine scaleFor_lt hd (Nat.succ_pos _) ?_
    rw [shiftLeft_succ]
    have hsig : significandOf rank * (d <<< scaleOf rank)
        ≤ (2 * ranksPerScale - 1) * (d <<< scaleOf rank) :=
      Nat.mul_le_mul_right _ (by have := significandOf_lt rank; omega)
    have hpos := shiftLeft_pos hd (scaleOf rank)
    have hhigh := h.high
    unfold ranksPerScale at *
    omega
  by_cases hin : scaleOf rank = 0 ∨ ranksPerScale * (d <<< scaleOf rank) ≤ units
  · refine Or.inl (Nat.le_antisymm (Nat.le_of_lt_succ hle) ?_)
    rcases hin with h0 | hin
    · omega
    · exact le_scaleFor hd hin
  · obtain ⟨hscale, hunits⟩ := not_or.1 hin
    have hsig : significandOf rank = ranksPerScale := by
      refine Nat.le_antisymm (Nat.le_of_not_lt fun hlt => ?_) (le_significandOf (by omega))
      have hmul : (ranksPerScale + 1) * (d <<< scaleOf rank)
          ≤ significandOf rank * (d <<< scaleOf rank) := Nat.mul_le_mul_right _ hlt
      have hlow := h.low
      rw [Nat.add_mul] at hmul
      omega
    have hfirst := h.first ⟨by omega, hsig⟩
    obtain ⟨scale, hs⟩ := Nat.exists_eq_add_one_of_ne_zero hscale
    have hbelow : scale ≤ scaleFor units d := by
      refine le_scaleFor hd ?_
      rw [hsig, hs, shiftLeft_succ] at hfirst
      unfold ranksPerScale at *
      omega
    have habove : scaleFor units d < scaleOf rank := scaleFor_lt hd (by omega) (by omega)
    exact Or.inr ⟨by omega, hsig, by omega⟩

/-- **A number near a rank is rounded to it**, also where it lies in the scale below. -/
theorem nearestRank_of_near {rank n d : Nat} (hd : 0 < d) (h : Near rank (n * unitsPerOne) d) :
    nearestRank n d = rank := by
  unfold nearestRank
  simp only []
  generalize n * unitsPerOne = units at h ⊢
  have hpos := shiftLeft_pos hd (scaleFor units d)
  rcases h.scaleFor_cases hd with hs | ⟨hs, hsig, hunits⟩
  · rw [hs] at hpos ⊢
    rw [roundQuotient_eq hpos h.low h.high h.strict]
    exact (rank_eq rank).symm
  · -- One scale below, the first magnitude of the scale is the multiple that ends it.
    have hfirst := h.first ⟨by omega, hsig⟩
    rw [← hs, shiftLeft_succ] at hunits hfirst
    rw [hsig] at hfirst
    have hround : roundQuotient units (d <<< scaleFor units d) = 2 * ranksPerScale :=
      roundQuotient_eq hpos (by unfold ranksPerScale at *; omega) (by unfold ranksPerScale at *; omega)
        (by unfold ranksPerScale; omega)
    have hrank := rank_eq rank
    rw [hround]
    rw [hsig, ← hs, Nat.add_mul] at hrank
    omega

/-! ## The rank of a bounded quotient -/

theorem roundQuotient_le (n d : Nat) : roundQuotient n d ≤ n / d + 1 := by
  unfold roundQuotient
  simp only []
  split
  · omega
  · split
    · omega
    · split <;> omega

theorem lt_scaleFor {units d : Nat} (hd : 0 < d) :
    units < 2 * ranksPerScale * (d <<< scaleFor units d) := by
  have hlog : units / d < 2 ^ ((units / d).log2 + 1) := Nat.lt_log2_self
  have hscale : (units / d).log2 + 1 ≤ 53 + scaleFor units d := by
    unfold scaleFor
    omega
  have hpow := Nat.pow_le_pow_right (by decide : 0 < 2) hscale
  have hquot := (Nat.div_lt_iff_lt_mul hd).1 (Nat.lt_of_lt_of_le hlog hpow)
  rw [Nat.pow_add, Nat.mul_assoc] at hquot
  rw [Nat.shiftLeft_eq, Nat.mul_comm d]
  exact hquot

/-- What lies below a scale is rounded to at most the first magnitude of that scale. -/
theorem nearestRank_le {n d scale : Nat} (hd : 0 < d) (hs : 0 < scale)
    (h : n * unitsPerOne < ranksPerScale * (d <<< scale)) :
    nearestRank n d ≤ (scale + 1) * ranksPerScale := by
  unfold nearestRank
  simp only []
  generalize n * unitsPerOne = units at h ⊢
  have hscale : scaleFor units d + 1 ≤ scale := scaleFor_lt hd hs h
  have hquot : units / (d <<< scaleFor units d) < 2 * ranksPerScale :=
    (Nat.div_lt_iff_lt_mul (shiftLeft_pos hd _)).2 (lt_scaleFor hd)
  have hround := roundQuotient_le units (d <<< scaleFor units d)
  have hmul := Nat.mul_le_mul_right ranksPerScale (Nat.add_le_add_right hscale 1)
  rw [Nat.add_mul, Nat.add_mul] at hmul
  omega

/-- An integer of at most 64 binary digits has a finite nearest double. -/
theorem ofInt_isFinite {i : Int} (h : i.natAbs < UInt64.size) : (ofInt i).isFinite = true := by
  have hunits : i.natAbs * unitsPerOne < ranksPerScale * (1 <<< 1086) :=
    Nat.lt_of_lt_of_le (Nat.mul_lt_mul_of_pos_right h (shiftLeft_pos Nat.one_pos 1074))
      (by decide +kernel)
  have hrank := nearestRank_le Nat.one_pos (by decide) hunits
  refine decide_eq_true (Nat.lt_of_le_of_lt (Nat.min_le_right _ _) (Nat.lt_of_le_of_lt hrank ?_))
  decide

end Binary64

end ViewEngine
