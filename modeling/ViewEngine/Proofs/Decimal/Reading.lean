import ViewEngine.Proofs.Decimal.Layout

/-!
# Reading integers and doubles

An integer is read from a numeral without point and exponent. Two kinds of text are read as doubles: numerals, and
the names of infinity and of what is not a number. A numeral begins with a digit after its sign, so it is never
taken for a name (`readBinary64?_chars`); a text without digits is a name or no double at all
(`readBinary64?_of_digitless`). The text shown for a double is read as that double again, up to which of the doubles
that are not numbers it was (`sameNumber_of_shownText`).
-/

namespace ViewEngine

/-! ## Numerals -/

theorem readInt64?_of_isReal {n : Numeral} (h : n.IsReal) : readInt64? n.chars = none := by
  rw [readInt64?, n.splitSign_chars]
  simp only [Numeral.readDigits?_unsigned h, Option.bind_none]

theorem readInt64?_of_not_isReal {n : Numeral} (h : ¬ n.IsReal) : readInt64? n.chars =
    int64? (if n.negative then -(digitsValue n.whole.chars : Int) else digitsValue n.whole.chars) := by
  rw [readInt64?, n.splitSign_chars]
  simp only [n.unsigned_of_not_isReal h, n.whole.readDigits?_chars, Option.bind_some]

theorem toLower_of_isDigit {c : Char} (h : c.isDigit = true) : c.toLower = c := by
  refine dif_neg fun hupper => ?_
  have hlow : 65 ≤ c.toNat := UInt32.le_iff_toNat_le.1 hupper.1
  have hhigh : c.toNat ≤ 57 := (Char.isDigit_iff_toNat.1 h).2
  omega

theorem readBinary64?_chars (n : Numeral) : readBinary64? n.chars = some n.decimal.nearest := by
  obtain ⟨c, cs, hunsigned, hc⟩ := n.exists_unsigned_eq_cons
  have hhead : (n.unsigned.map Char.toLower).head? = some c := by
    rw [hunsigned, List.map_cons, List.head?_cons, toLower_of_isDigit hc]
  have hname (name : List Char) (hletter : name.head?.any Char.isDigit = false) :
      n.unsigned.map Char.toLower ≠ name := by
    rintro rfl
    rw [hhead, Option.any_some, hc] at hletter
    cases hletter
  unfold readBinary64?
  simp only [n.splitSign_chars, n.read?_chars]
  rw [if_neg, if_neg]
  · rfl
  · exact hname _ (by decide)
  · exact not_or.2 ⟨hname _ (by decide), hname _ (by decide)⟩

/-! ## Names -/

/-- The text shown for the double that a word names, whatever its sign and the case of its letters. -/
def shownName? (w : List Char) : Option (List Char) :=
  let (negative, word) := splitSign w
  let name := word.map Char.toLower
  if name = ['i', 'n', 'f'] ∨ name = "infinity".toList then
    some (if negative then "-inf".toList else "inf".toList)
  else if name = ['n', 'a', 'n'] then some name
  else none

theorem takeWhile_isDigit_of_digitless {cs : List Char} (h : ∀ c ∈ cs, c.isDigit = false) :
    cs.takeWhile Char.isDigit = [] ∧ cs.dropWhile Char.isDigit = cs := by
  cases cs with
  | nil => exact ⟨rfl, rfl⟩
  | cons c cs => simp [h c List.mem_cons_self]

theorem mem_of_mem_splitSign {w : List Char} {c : Char} (h : c ∈ (splitSign w).2) : c ∈ w := by
  unfold splitSign at h
  split at h
  · exact List.mem_cons_of_mem _ h
  · exact List.mem_cons_of_mem _ h
  · exact h

theorem readInt64?_of_digitless {w : List Char} (h : ∀ c ∈ w, c.isDigit = false) : readInt64? w = none := by
  have hdigits : readDigits? (splitSign w).2 = none := by
    refine if_neg fun ⟨hne, hall⟩ => ?_
    obtain ⟨c, hc⟩ := List.exists_mem_of_ne_nil _ hne
    exact Bool.noConfusion ((h c (mem_of_mem_splitSign hc)).symm.trans (List.all_eq_true.1 hall c hc))
  rw [readInt64?]
  simp only [hdigits, Option.bind_none]

theorem readMagnitude?_of_digitless {cs : List Char} (negative : Bool) (h : ∀ c ∈ cs, c.isDigit = false) :
    Decimal.readMagnitude? negative cs = none := by
  obtain ⟨htake, hdrop⟩ := takeWhile_isDigit_of_digitless h
  unfold Decimal.readMagnitude?
  simp only [htake, hdrop, List.nil_append]
  split
  · rename_i rest
    have hrest := takeWhile_isDigit_of_digitless fun c hc => h c (List.mem_cons_of_mem _ hc)
    simp only [hrest.1, if_true]
  · simp

/-- A text without digits is a name, or no double at all. -/
theorem readBinary64?_of_digitless {w : List Char} (h : ∀ c ∈ w, c.isDigit = false) :
    (readBinary64? w).map Binary64.shownText = (shownName? w).map String.ofList := by
  have hread : Decimal.read? w = none :=
    readMagnitude?_of_digitless _ fun c hc => h c (mem_of_mem_splitSign hc)
  unfold readBinary64? shownName?
  simp only [hread, Option.map_none]
  generalize (splitSign w).1 = negative
  generalize (splitSign w).2.map Char.toLower = name
  by_cases hinf : name = ['i', 'n', 'f'] ∨ name = "infinity".toList
  · rw [if_pos hinf, if_pos hinf]
    cases negative <;> rfl
  · rw [if_neg hinf, if_neg hinf]
    split
    · rename_i hnan
      subst hnan
      cases negative <;> rfl
    · rfl

/-! ## Shown texts -/

namespace Binary64

/-- The same double, or two that are not numbers: no comparison tells them apart. -/
def SameNumber (d e : Binary64) : Prop := d = e ∨ (d.isNaN = true ∧ e.isNaN = true)

/-- The text shown for a double is read as that double. -/
theorem sameNumber_of_shownText (d : Binary64) :
    ∃ e, readBinary64? d.shownText.toList = some e ∧ d.SameNumber e := by
  unfold shownText
  split
  · rename_i hnan
    exact ⟨nan, rfl, .inr ⟨hnan, rfl⟩⟩
  · rename_i hnan
    split
    · rename_i hfin
      obtain ⟨n, hchars, -, hnearest⟩ := Layout.exists_numeral_text Layout.shown hfin
      refine ⟨d, ?_, .inl rfl⟩
      rw [String.toList_ofList, ← hchars, readBinary64?_chars, hnearest]
    · rename_i hfin
      obtain ⟨negative, rank, hlt⟩ := d
      obtain rfl : rank = infinityRank := by
        simp [isNaN, isFinite] at hnan hfin
        omega
      have hrank : ofRank negative infinityRank = ⟨negative, infinityRank, hlt⟩ := by simp [ofRank]
      refine ⟨_, ?_, .inl rfl⟩
      rw [← hrank]
      cases negative <;> rfl

end Binary64

end ViewEngine
