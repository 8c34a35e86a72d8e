import ViewEngine.Proofs.Decimal.Numeral
import ViewEngine.Transform

/-!
# Truncation

A text that is longer than a bound is cut to it, and an ellipsis is put after it. So a cut text is one longer than
its bound: where it is cut again to the same bound the ellipsis goes and comes back, and a smaller bound leaves
nothing of the first cut. Two truncations in a row are therefore one, to the smaller bound
(`Transform.truncations_compose`). Numbers and truth values are texts too as far as they are cut, and stay what they
are otherwise.
-/

namespace ViewEngine.Transform

variable {n m : Nat} {cs : List Char} {v : Option Value} {s : String}

/-! ## Cutting a text -/

theorem length_cut (h : n ≤ cs.length) : (cut n cs).length = n + 1 := by
  rw [cut, List.length_append, List.length_take_of_le h, List.length_singleton]

/-- A second cut takes the ellipsis of the first off. -/
theorem cut_cut (hmn : m ≤ n) (hn : n ≤ cs.length) : cut m (cut n cs) = cut m cs := by
  have hfirst : m ≤ (cs.take n).length := by rwa [List.length_take_of_le hn]
  rw [cut, cut, List.take_append_of_le_length hfirst, List.take_take, Nat.min_eq_left hmn, cut]

/-! ## Truncating a value -/

/-- What truncation to a number of characters makes of a value, which may be absent. -/
def truncated (n : Nat) (v : Option Value) : Option Value :=
  match v.bind Value.asText? with
  | some s => if n < s.toList.length then some (.string (String.ofList (cut n s.toList))) else v
  | none => v

theorem apply_truncate (n : Nat) (v : Option Value) : (truncate (some n)).apply v = .ok (truncated n v) := by
  cases hs : v.bind Value.asText? with
  | none => simp only [apply, truncated, hs]
  | some s =>
    simp only [apply, truncated, hs]
    exact (apply_ite Except.ok _ _ _).symm

/-- The value has a text of more than so many characters. -/
def IsLonger (n : Nat) (v : Option Value) : Prop := ∃ s, v.bind Value.asText? = some s ∧ n < s.toList.length

theorem IsLonger.mono (hmn : m ≤ n) (h : IsLonger n v) : IsLonger m v := by
  obtain ⟨s, hs, hlong⟩ := h
  exact ⟨s, hs, Nat.lt_of_le_of_lt hmn hlong⟩

theorem truncated_of_lt (hs : v.bind Value.asText? = some s) (h : n < s.toList.length) :
    truncated n v = some (.string (String.ofList (cut n s.toList))) := by
  simp only [truncated, hs, if_pos h]

theorem truncated_of_not_isLonger (h : ¬ IsLonger n v) : truncated n v = v := by
  cases hs : v.bind Value.asText? with
  | none => simp only [truncated, hs]
  | some s =>
    have hshort : ¬ n < s.toList.length := fun hlong => h ⟨s, hs, hlong⟩
    simp only [truncated, hs, if_neg hshort]

theorem truncated_truncated (n m : Nat) (v : Option Value) :
    truncated m (truncated n v) = truncated (min n m) v := by
  by_cases hlong : IsLonger n v
  · obtain ⟨s, hs, hlt⟩ := hlong
    have hlength := length_cut (Nat.le_of_lt hlt)
    have htext : (truncated n v).bind Value.asText? = some (String.ofList (cut n s.toList)) := by
      rw [truncated_of_lt hs hlt]
      rfl
    rcases Nat.lt_or_ge n m with hnm | hmn
    · -- The cut text is just short enough for a larger bound.
      have hfits : ¬ IsLonger m (truncated n v) := by
        rintro ⟨t, ht, hlonger⟩
        obtain rfl := Option.some.inj (htext.symm.trans ht)
        rw [String.toList_ofList] at hlonger
        omega
      rw [truncated_of_not_isLonger hfits, Nat.min_eq_left (Nat.le_of_lt hnm)]
    · have hlonger : m < (String.ofList (cut n s.toList)).toList.length := by
        rw [String.toList_ofList]
        omega
      rw [truncated_of_lt htext hlonger, String.toList_ofList, cut_cut hmn (Nat.le_of_lt hlt),
        Nat.min_eq_right hmn, truncated_of_lt hs (Nat.lt_of_le_of_lt hmn hlt)]
  · rw [truncated_of_not_isLonger hlong]
    rcases Nat.le_total n m with hnm | hmn
    · rw [Nat.min_eq_left hnm, truncated_of_not_isLonger hlong, truncated_of_not_isLonger (mt (.mono hnm) hlong)]
    · rw [Nat.min_eq_right hmn]

/-! ## The stage -/

/-- The text of the stage that truncates to a number of characters. -/
def truncationStage (n : Nat) : List Char := "truncate:".toList ++ Nat.toDigits 10 n

theorem ofStage_truncationStage (h : n < UInt64.size) : ofStage (truncationStage n) = truncate (some n) := by
  have hcut : splitFirst? [':'] (truncationStage n) = some ("truncate".toList, Nat.toDigits 10 n) := rfl
  have hpieces : pieces (truncationStage n) = ["truncate".toList, Nat.toDigits 10 n] := by
    simp [pieces, hcut, Nat.toDigits_ne_nil]
  have hnamed : ofStage (truncationStage n) =
      truncate ((some (Nat.toDigits 10 n)).bind (readNatBelow? UInt64.size)) := by
    rw [ofStage, hpieces]
    rfl
  rw [hnamed, Option.bind_some, DigitText.readNatBelow?_toDigits h]

theorem applyStage_truncationStage (h : n < UInt64.size) (v : Option Value) :
    applyStage (truncationStage n) v = .ok (truncated n v) := by
  rw [applyStage, ofStage_truncationStage h, apply_truncate]

/-- **Truncation composes to the shorter bound.** A second truncation gives what the truncation to the smaller of
both bounds gives at once; so a second one to the same bound changes nothing. A value with a text of more
characters than the bound becomes the first of them with an ellipsis, and any other value stays as it is. -/
theorem truncations_compose (hn : n < UInt64.size) (hm : m < UInt64.size) (v : Option Value) :
    ∃ once twice,
      applyStage (truncationStage n) v = .ok once ∧
      applyStage (truncationStage m) once = .ok twice ∧
      applyStage (truncationStage (min n m)) v = .ok twice ∧
      applyStage (truncationStage n) once = .ok once ∧
      (∀ s, v.bind Value.asText? = some s → n < s.toList.length →
        once = some (.string (String.ofList (s.toList.take n ++ ['…'])))) ∧
      ((∀ s, v.bind Value.asText? = some s → s.toList.length ≤ n) → once = v) := by
  refine ⟨truncated n v, truncated m (truncated n v), applyStage_truncationStage hn v,
    applyStage_truncationStage hm _, ?_, ?_, fun s hs hlt => truncated_of_lt hs hlt, fun hshort => ?_⟩
  · rw [truncated_truncated, applyStage_truncationStage (Nat.lt_of_le_of_lt (Nat.min_le_left n m) hn)]
  · rw [applyStage_truncationStage hn, truncated_truncated, Nat.min_self]
  · refine truncated_of_not_isLonger ?_
    rintro ⟨s, hs, hlt⟩
    exact absurd hlt (Nat.not_lt.2 (hshort s hs))

/-- A number whose text is cut to three characters. With the ellipsis there are four, so a bound of four leaves them. -/
theorem truncations_compose_shown :
    3 < UInt64.size ∧ 4 < UInt64.size ∧
    applyStage "truncate:3".toList (some (.int (-12345))) = .ok (some (.string "-12…")) ∧
    applyStage "truncate:4".toList (some (.string "-12…")) = .ok (some (.string "-12…")) := by
  have hthree : 3 < UInt64.size := by decide
  have hfour : 4 < UInt64.size := by decide
  obtain ⟨once, twice, honce, htwice, hmin, -, hcut, -⟩ :=
    truncations_compose hthree hfour (some (.int (-12345)))
  obtain rfl : once = some (.string "-12…") := hcut "-12345" rfl (by decide)
  obtain rfl : some (.string "-12…") = twice := Except.ok.inj (honce.symm.trans hmin)
  exact ⟨hthree, hfour, honce, htwice⟩

end ViewEngine.Transform
