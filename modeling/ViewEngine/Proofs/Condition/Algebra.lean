import ViewEngine.Condition
import ViewEngine.Proofs.Decimal.Reading
import ViewEngine.Proofs.Value.Equality
import ViewEngine.Proofs.Value.Routes

/-!
# The algebra of comparisons

Loose equality goes by the texts of values and, where one side has none, by equality of values; the order goes by
the numbers that values are read as. Equality is symmetric and transitive, the order of two values is that of
the swapped ones reversed (`numericOrder_swap`), and the two never contradict each other
(`numericOrder_of_looselyEqual`): a value with a text and a number has the number that its text is read as
(`sameNumber_of_asText?`), so values with one text are not ordered.
-/

namespace ViewEngine

/-! ## Doubles -/

namespace Binary64

theorem less_of_sameNumber {a b c : Binary64} (ha : a.SameNumber c) (hb : b.SameNumber c) : a.less b = false := by
  rcases ha with rfl | ⟨hnan, -⟩
  · rcases hb with rfl | ⟨hnan, -⟩
    · simp [less]
    · simp [less, hnan]
  · simp [less, hnan]

theorem less_asymm {a b : Binary64} (h : a.less b = true) : b.less a = false := by
  simp only [less, Bool.and_eq_true, decide_eq_true_eq] at h
  simp only [less, Bool.and_eq_false_iff, decide_eq_false_iff_not]
  exact .inr (by omega)

end Binary64

/-! ## Texts and numbers of values -/

namespace Value

variable {v w : Value}

/-- An integer is converted to a double as its text is read. -/
theorem readBinary64?_intText (i : Int64) :
    readBinary64? (Json.intText i.toInt) = some (Binary64.ofInt i.toInt) := by
  have hdigits := Numeral.digitsValue_whole_ofInt i.toInt
  have hsmall : i.toInt.natAbs < UInt64.size := by
    have hlow := i.le_toInt
    have hhigh := i.toInt_lt
    have hsize : UInt64.size = 2 ^ 64 := rfl
    omega
  rw [← Json.chars_ofInt, readBinary64?_chars,
    Numeral.nearest_of_not_isReal (Numeral.not_isReal_ofInt _) (hdigits ▸ hsmall), hdigits]
  rfl

/-- The number of a value with a text is the one that its text is read as. -/
theorem sameNumber_of_asText? {s : String} {d : Binary64} (htext : v.asText? = some s)
    (hnumber : v.asDouble? = some d) : ∃ e, readBinary64? s.toList = some e ∧ d.SameNumber e := by
  cases v with
  | null | bool _ | array _ | object _ => cases hnumber
  | int i =>
    cases htext
    cases hnumber
    exact ⟨_, by rw [intText, String.toList_ofList, readBinary64?_intText], .inl rfl⟩
  | double e =>
    cases htext
    cases hnumber
    exact d.sameNumber_of_shownText
  | string t =>
    cases htext
    exact ⟨d, hnumber, .inl rfl⟩

/-- A value without a text has no number. -/
theorem asDouble?_eq_none (h : v.asText? = none) : v.asDouble? = none := by
  cases v <;> first | rfl | cases h

/-- An array or an object. -/
def isContainer : Value → Bool
  | array _ | object _ => true
  | null | bool _ | int _ | double _ | string _ => false

theorem asText?_eq_none_iff : v.asText? = none ↔ v = null ∨ v.isContainer = true := by
  cases v <;> simp [asText?, isContainer]

/-- What equals a value without a text has none either. -/
theorem asText?_eq_none_of_equal (h : v.equal w = true) (hv : v.asText? = none) : w.asText? = none := by
  have hlike := (equal_iff v w).1 h
  cases v with
  | null => exact hlike ▸ rfl
  | array items =>
    obtain ⟨_, rfl, -⟩ := hlike
    rfl
  | object fields =>
    obtain ⟨_, rfl, -⟩ := hlike
    rfl
  | bool _ | int _ | double _ | string _ => cases hv

end Value

namespace Comparison

variable {v w : Value} {a b c : Option Value}

/-! ## Equality -/

/-- Values are loosely equal if they have the same text, or have none and are equal. -/
theorem looselyEqual_some_iff : looselyEqual (some v) (some w) = true ↔
    v.asText? = w.asText? ∧ (v.asText? = none → v.equal w = true) := by
  simp only [looselyEqual]
  cases hv : v.asText? <;> cases hw : w.asText?
  · simp
  · -- Of two values only one of which has a text neither equals the other.
    simp only [reduceCtorEq, false_and, iff_false]
    intro h
    rw [Value.asText?_eq_none_of_equal h hv] at hw
    cases hw
  · simp only [reduceCtorEq, false_and, iff_false]
    intro h
    rw [Value.asText?_eq_none_of_equal (v.equal_comm w ▸ h) hw] at hv
    cases hv
  · simp

/-- What is loosely equal: two absent operands, or two values that are. -/
theorem looselyEqual_iff : looselyEqual a b = true ↔ (a = none ∧ b = none) ∨
    ∃ v w, a = some v ∧ b = some w ∧ v.asText? = w.asText? ∧ (v.asText? = none → v.equal w = true) := by
  rcases a with _ | v <;> rcases b with _ | w
  · simp [looselyEqual]
  · simp [looselyEqual]
  · simp [looselyEqual]
  · simp [looselyEqual_some_iff]

theorem looselyEqual_symm (h : looselyEqual a b = true) : looselyEqual b a = true := by
  obtain ⟨rfl, rfl⟩ | ⟨v, w, rfl, rfl, htext, hequal⟩ := looselyEqual_iff.1 h
  · rfl
  · exact looselyEqual_some_iff.2 ⟨htext.symm, fun hw => w.equal_comm v ▸ hequal (htext.trans hw)⟩

theorem looselyEqual_trans (hab : looselyEqual a b = true) (hbc : looselyEqual b c = true) :
    looselyEqual a c = true := by
  obtain ⟨rfl, rfl⟩ | ⟨u, v, rfl, rfl, huv, hequal⟩ := looselyEqual_iff.1 hab
  · exact hbc
  · obtain ⟨hnone, -⟩ | ⟨_, w, hv, rfl, hvw, hequal'⟩ := looselyEqual_iff.1 hbc
    · cases hnone
    · cases hv
      exact looselyEqual_some_iff.2 ⟨huv.trans hvw, fun hu => u.equal_trans (hequal hu) (hequal' (huv ▸ hu))⟩

/-- Only a container differs from itself, by a double inside it that is not a number. -/
theorem looselyEqual_self_iff (a : Option Value) :
    looselyEqual a a = true ↔ ∀ v, a = some v → v.isContainer = true → ¬ v.HoldsNaN := by
  cases a with
  | none => simp [looselyEqual]
  | some v =>
    rw [looselyEqual_some_iff, Value.equal_self_iff, Value.asText?_eq_none_iff]
    constructor
    · rintro ⟨-, h⟩ v ⟨⟩ hcontainer
      exact h (.inr hcontainer)
    · refine fun h => ⟨rfl, ?_⟩
      rintro (rfl | hcontainer)
      · simp [Value.HoldsNaN, Value.parts]
      · exact h v rfl hcontainer

/-! ## Order -/

theorem numericOrder_swap (a b : Option Value) : numericOrder b a = (numericOrder a b).swap := by
  unfold numericOrder
  cases a.bind Value.asDouble? with
  | none => cases b.bind Value.asDouble? <;> rfl
  | some x =>
    cases b.bind Value.asDouble? with
    | none => rfl
    | some y =>
      simp only
      by_cases hxy : x.less y = true
      · simp [hxy, Binary64.less_asymm hxy]
      · by_cases hyx : y.less x = true <;> simp [hxy, hyx]

/-- What is equal is not ordered. -/
theorem numericOrder_of_looselyEqual (h : looselyEqual a b = true) : numericOrder a b = .eq := by
  obtain ⟨rfl, rfl⟩ | ⟨v, w, rfl, rfl, htext, -⟩ := looselyEqual_iff.1 h
  · rfl
  · simp only [numericOrder, Option.bind_some]
    cases hv : v.asDouble? with
    | none => rfl
    | some d =>
      cases hw : w.asDouble? with
      | none => rfl
      | some e =>
        cases hs : v.asText? with
        | none => cases (Value.asDouble?_eq_none hs).symm.trans hv
        | some s =>
          -- Both numbers are the one that the common text is read as.
          obtain ⟨f, hf, hd⟩ := Value.sameNumber_of_asText? hs hv
          obtain ⟨g, hg, he⟩ := Value.sameNumber_of_asText? (htext ▸ hs) hw
          obtain rfl : f = g := Option.some.inj (hf.symm.trans hg)
          simp [Binary64.less_of_sameNumber hd he, Binary64.less_of_sameNumber he hd]

end Comparison

/-- **The algebra of comparisons.** Whatever the operands, absent ones among them: equality is symmetric and
transitive, and every operand equals itself but for an array or object that holds what is not a number. An operand
is below another exactly if the other is above it, and never both. What is equal is at least and at most each
other, and neither above nor below; so is every scalar and its own text. -/
theorem comparisons_algebra (a b c : Option Value) :
    (Comparison.equal.holds a b = true → Comparison.equal.holds b a = true) ∧
    (Comparison.equal.holds a b = true → Comparison.equal.holds b c = true →
      Comparison.equal.holds a c = true) ∧
    (Comparison.equal.holds a a = true ↔ ∀ v, a = some v → v.isContainer = true → ¬ v.HoldsNaN) ∧
    (Comparison.below.holds a b = true ↔ Comparison.above.holds b a = true) ∧
    ¬ (Comparison.below.holds a b = true ∧ Comparison.above.holds a b = true) ∧
    (Comparison.equal.holds a b = true → Comparison.atMost.holds a b = true ∧
      Comparison.atLeast.holds a b = true ∧ Comparison.below.holds a b = false ∧
      Comparison.above.holds a b = false) ∧
    (∀ v s, v.asText? = some s → Comparison.equal.holds (some v) (some (.string s)) = true) := by
  refine ⟨Comparison.looselyEqual_symm, Comparison.looselyEqual_trans, Comparison.looselyEqual_self_iff a, ?_, ?_,
    fun h => ?_, fun v s h => ?_⟩
  · simp only [Comparison.holds, Comparison.numericOrder_swap a b, beq_iff_eq]
    cases Comparison.numericOrder a b <;> simp
  · simp only [Comparison.holds, beq_iff_eq]
    rintro ⟨hbelow, habove⟩
    cases hbelow.symm.trans habove
  · simp only [Comparison.holds, Comparison.numericOrder_of_looselyEqual h]
    decide
  · exact Comparison.looselyEqual_some_iff.2 ⟨h, fun hnone => by rw [hnone] at h; cases h⟩

/-- Two doubles that are not numbers are equal by way of their text, an array of one differs from itself; a number
and a truth value are neither above nor below their texts; a text that reads as a larger number is above. -/
theorem comparisons_algebra_shown :
    Comparison.equal.holds (some (.double .nan)) (some (.double (.neg .nan))) = true ∧
    Comparison.equal.holds (some (.array [.double .nan])) (some (.array [.double .nan])) = false ∧
    Comparison.atMost.holds (some (.int 42)) (some (.string "42")) = true ∧
    Comparison.above.holds (some (.string "true")) (some (.bool true)) = false ∧
    Comparison.above.holds (some (.string "1e3")) (some (.int 999)) = true := by
  have hnan := (comparisons_algebra none none none).2.2.2.2.2.2 (.double .nan) "nan" rfl
  have hneg := (comparisons_algebra none none none).2.2.2.2.2.2 (.double (.neg .nan)) "nan" rfl
  have hint := (comparisons_algebra none none none).2.2.2.2.2.2 (.int 42) "42" rfl
  have hbool := (comparisons_algebra none none none).2.2.2.2.2.2 (.bool true) "true" rfl
  refine ⟨?_, ?_, ((comparisons_algebra _ _ none).2.2.2.2.2.1 hint).1, ?_, ?_⟩
  · exact (comparisons_algebra _ _ _).2.1 hnan ((comparisons_algebra _ _ none).1 hneg)
  · refine Bool.eq_false_iff.2 fun h => ?_
    exact (comparisons_algebra _ none none).2.2.1.1 h _ rfl rfl ⟨.nan, by simp [Value.parts, Value.itemParts], rfl⟩
  · exact ((comparisons_algebra _ _ none).2.2.2.2.2.1 ((comparisons_algebra _ _ none).1 hbool)).2.2.2
  · exact (comparisons_algebra (some (.int 999)) _ none).2.2.2.1.1 (by decide +kernel)

end ViewEngine
