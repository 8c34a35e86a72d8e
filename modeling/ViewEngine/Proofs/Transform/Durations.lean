import ViewEngine.Proofs.Calendar.Writing
import ViewEngine.Proofs.Text.Splitting
import ViewEngine.Transform

/-!
# The text of a duration

A duration is written as whole numbers between colons, the first as it is and the others with two places. Each is
read back by the reader of integers, so the text tells the seconds that are written there
(`readDuration?_durationText`). Hours are shown where there are any above zero, or where the hint asks for them. So
they are left out of a duration of an hour or more below zero without such a hint, and its text tells what the hours
leave over.
-/

namespace ViewEngine

/-! ## Signed numbers -/

/-- An integer that fits 64 bits, of a text of a sign and digits. -/
def readInt? (cs : List Char) : Option Int := (readInt64? cs).map Int64.toInt

/-- The text is a minus sign, if the number is below zero, and digits with its value. -/
def IsIntText (cs : List Char) (i : Int) : Prop :=
  ∃ t : DigitText, digitsValue t.chars = i.natAbs ∧ cs = if i < 0 then '-' :: t.chars else t.chars

theorem isIntText_intText (i : Int) : IsIntText (Json.intText i) i :=
  ⟨.ofNat i.natAbs, DigitText.digitsValue_ofNat _, rfl⟩

theorem isIntText_twoPlaces (i : Int) : IsIntText (Transform.twoPlaces i) i := by
  unfold Transform.twoPlaces
  by_cases hneg : i < 0
  · refine ⟨Calendar.Pattern.paddedText 1 i.natAbs, Calendar.Pattern.digitsValue_padded _ _, ?_⟩
    rw [if_pos hneg, if_pos hneg]
    rfl
  · refine ⟨Calendar.Pattern.paddedText 2 i.natAbs, Calendar.Pattern.digitsValue_padded _ _, ?_⟩
    rw [if_neg hneg, if_neg hneg]
    rfl

namespace IsIntText

variable {cs : List Char} {i : Int}

theorem colonless (h : IsIntText cs i) : ':' ∉ cs := by
  obtain ⟨t, -, rfl⟩ := h
  have hdigits : ':' ∉ t.chars := fun hmem => absurd (t.isDigit ':' hmem) (by decide)
  split <;> simp [hdigits]

theorem readInt? (h : IsIntText cs i) (hfits : i.natAbs < 2 ^ 63) : readInt? cs = some i := by
  obtain ⟨t, hvalue, rfl⟩ := h
  have hread := t.readDigits?_chars
  rw [hvalue] at hread
  have hint : int64? i = some (Int64.ofInt i) := by
    rw [int64?, if_pos]
    rw [Int64.toInt_minValue, Int64.toInt_maxValue]
    omega
  have htext : readInt64? (if i < 0 then '-' :: t.chars else t.chars) = some (Int64.ofInt i) := by
    by_cases hneg : i < 0
    · have habs : -(i.natAbs : Int) = i := by omega
      rw [if_pos hneg, readInt64?]
      simp only [splitSign, hread, Option.bind_some, if_true]
      rw [habs, hint]
    · have habs : (i.natAbs : Int) = i := by omega
      rw [if_neg hneg, readInt64?, t.splitSign_chars]
      simp only [hread, Option.bind_some, Bool.false_eq_true, if_false]
      rw [habs, hint]
  rw [ViewEngine.readInt?, htext, Option.map_some, Int64.toInt_ofInt_of_le (by omega) (by omega)]

end IsIntText

/-! ## Truncated division -/

/-- The quotient and the remainder toward zero, which has the sign of what is divided. -/
theorem trunc_cases (t : Int) {b : Int} (hb : 0 < b) : t = b * t.tdiv b + t.tmod b ∧
    (0 ≤ t ∧ 0 ≤ t.tmod b ∧ t.tmod b < b ∨ t < 0 ∧ -b < t.tmod b ∧ t.tmod b ≤ 0) := by
  refine ⟨(Int.mul_tdiv_add_tmod t b).symm, ?_⟩
  by_cases ht : 0 ≤ t
  · exact .inl ⟨ht, Int.tmod_nonneg b ht, Int.tmod_lt_of_pos t hb⟩
  · have hneg := Int.tmod_nonneg b (show 0 ≤ -t by omega)
    have hlt := Int.tmod_lt_of_pos (-t) hb
    rw [Int.neg_tmod] at hneg hlt
    exact .inr ⟨by omega, by omega, by omega⟩

namespace Transform

variable {hint : List Char} {total : Int}

/-! ## What is written -/

/-- Hours are shown: the hint asks for them, or there are any above zero. -/
def ShowsHours (hint : List Char) (total : Int) : Prop := ['H', 'H'] <:+: hint ∨ 3600 ≤ total

instance : Decidable (ShowsHours hint total) := inferInstanceAs (Decidable (_ ∨ _))

/-- The number that is written first: the hours, or the minutes without them. -/
def firstNumber (hint : List Char) (total : Int) : Int :=
  if ShowsHours hint total then total.tdiv 3600 else (total.tmod 3600).tdiv 60

/-- The numbers that are written with two places. -/
def laterNumbers (hint : List Char) (total : Int) : List Int :=
  if ShowsHours hint total then [(total.tmod 3600).tdiv 60, total.tmod 60] else [total.tmod 60]

/-- The parts of the text of a number of seconds. -/
def durationParts (hint : List Char) (total : Int) : List (List Char) :=
  Json.intText (firstNumber hint total) :: (laterNumbers hint total).map twoPlaces

theorem showsHours_iff (hint : List Char) (total : Int) :
    ((splitFirst? ['H', 'H'] hint).isSome || decide (0 < total.tdiv 3600)) = true ↔ ShowsHours hint total := by
  have hhours : 0 < total.tdiv 3600 ↔ 3600 ≤ total := by
    have := trunc_cases total (b := 3600) (by decide)
    omega
  rw [Bool.or_eq_true, isSome_splitFirst?_iff, decide_eq_true_iff, hhours, ShowsHours]

theorem durationText_eq (hint : List Char) (ms : Int) :
    durationText hint ms = joinWith [':'] (durationParts hint (ms.tdiv 1000)) := by
  unfold durationText durationParts firstNumber laterNumbers
  simp only [showsHours_iff]
  by_cases hshows : ShowsHours hint (ms.tdiv 1000)
  · simp [hshows, joinWith]
  · simp [hshows, joinWith]

theorem splitAt_durationText (hint : List Char) (ms : Int) :
    splitAt [':'] (durationText hint ms) = durationParts hint (ms.tdiv 1000) := by
  rw [durationText_eq]
  generalize ms.tdiv 1000 = total
  refine splitAt_joinWith (List.cons_ne_nil _ _) ?_ ?_ fun p _ b => noneAcross_singleton ':' _ _
  · exact List.cons_ne_nil _ _
  · have hfree : ∀ {p : List Char}, ':' ∉ p → ¬ [':'] <:+: p := fun h hoccurs => h (hoccurs.subset (by simp))
    simp [durationParts, hfree (isIntText_intText _).colonless, hfree (isIntText_twoPlaces _).colonless]

/-! ## What is read -/

/-- The seconds that a text of minutes and seconds denotes, with hours before them or without. -/
def readDuration? (text : List Char) : Option Int :=
  match (splitAt [':'] text).map readInt? with
  | [some m, some s] => some (m * 60 + s)
  | [some h, some m, some s] => some (h * 3600 + m * 60 + s)
  | _ => none

/-- The seconds that the text of a number of seconds tells. -/
def shownSeconds (hint : List Char) (total : Int) : Int :=
  if ShowsHours hint total then total else total.tmod 3600

/-- Hours are left out of no other number of seconds than those of an hour or more below zero. -/
theorem shownSeconds_eq_self_iff : shownSeconds hint total = total ↔ ShowsHours hint total ∨ -3600 < total := by
  unfold shownSeconds
  by_cases hshows : ShowsHours hint total
  · simp [hshows]
  · have hbelow : ¬ 3600 ≤ total := fun h => hshows (.inr h)
    have := trunc_cases total (b := 3600) (by decide)
    simp only [hshows, if_false, false_or]
    omega

/-- Minutes and seconds of a number of seconds, and the hours. -/
theorem sum_parts (total : Int) :
    total.tdiv 3600 * 3600 + (total.tmod 3600).tdiv 60 * 60 + total.tmod 60 = total ∧
      (total.tmod 3600).tdiv 60 * 60 + total.tmod 60 = total.tmod 3600 ∧
      ((total.tmod 3600).tdiv 60).natAbs < 60 ∧ (total.tmod 60).natAbs < 60 := by
  have hhours := trunc_cases total (b := 3600) (by decide)
  have hminutes := trunc_cases (total.tmod 3600) (b := 60) (by decide)
  have hseconds := trunc_cases total (b := 60) (by decide)
  omega

theorem readDuration?_durationText {ms : Int} (hms : ms.natAbs ≤ 2 ^ 63) (hint : List Char) :
    readDuration? (durationText hint ms) = some (shownSeconds hint (ms.tdiv 1000)) := by
  have htotal : (ms.tdiv 1000).natAbs < 2 ^ 60 := by
    have := trunc_cases ms (b := 1000) (by decide)
    omega
  rw [readDuration?, splitAt_durationText]
  generalize ms.tdiv 1000 = total at htotal
  obtain ⟨hsum, hrest, hminutes, hseconds⟩ := sum_parts total
  have hhours := (isIntText_intText (total.tdiv 3600)).readInt? (by omega)
  have hfirst := (isIntText_intText ((total.tmod 3600).tdiv 60)).readInt? (by omega)
  have hsecond := (isIntText_twoPlaces ((total.tmod 3600).tdiv 60)).readInt? (by omega)
  have hlast := (isIntText_twoPlaces (total.tmod 60)).readInt? (by omega)
  unfold durationParts firstNumber laterNumbers shownSeconds
  by_cases hshows : ShowsHours hint total
  · simp [hshows, hhours, hsecond, hlast, hsum]
  · simp [hshows, hfirst, hlast, hrest]

/-- The text is made of the seconds that it tells. -/
theorem durationParts_congr {other : Int} (h : shownSeconds hint total = shownSeconds hint other) :
    durationParts hint total = durationParts hint other := by
  have hrest := trunc_cases total (b := 3600) (by decide)
  have hrest' := trunc_cases other (b := 3600) (by decide)
  have hseconds := trunc_cases total (b := 60) (by decide)
  have hseconds' := trunc_cases other (b := 60) (by decide)
  unfold shownSeconds at h
  by_cases hshows : ShowsHours hint total
  · by_cases hshows' : ShowsHours hint other
    · rw [if_pos hshows, if_pos hshows'] at h
      rw [h]
    · -- Hours without a hint make more seconds than minutes alone.
      rw [if_pos hshows, if_neg hshows'] at h
      have hmany : 3600 ≤ total := hshows.resolve_left fun hhint => hshows' (.inl hhint)
      omega
  · by_cases hshows' : ShowsHours hint other
    · rw [if_neg hshows, if_pos hshows'] at h
      have hmany : 3600 ≤ other := hshows'.resolve_left fun hhint => hshows (.inl hhint)
      omega
    · rw [if_neg hshows, if_neg hshows'] at h
      have hlast : total.tmod 60 = other.tmod 60 := by omega
      simp [durationParts, firstNumber, laterNumbers, hshows, hshows', h, hlast]

/-! ## Places -/

theorem length_padded_one : ∀ n < 60, 10 ≤ n → (Calendar.Pattern.padded 1 n).length = 2 := by
  decide

/-- Two digits are written after the sign, if there is one. -/
theorem length_twoPlaces {i : Int} (h : i.natAbs < 60) (hplaces : i ≤ -10 ∨ 0 ≤ i) :
    (splitSign (twoPlaces i)).2.length = 2 := by
  unfold twoPlaces
  by_cases hneg : i < 0
  · rw [if_pos hneg, splitSign]
    exact length_padded_one _ h (by omega)
  · have hsign := (Calendar.Pattern.paddedText 2 i.natAbs).splitSign_chars
    have hlength := Calendar.Pattern.length_padded (show 0 < 2 by decide) (show i.natAbs < 10 ^ 2 by omega)
    simp only [Calendar.Pattern.paddedText] at hsign
    rw [if_neg hneg, hsign, hlength]

/-- Minutes and seconds, or hours, minutes and seconds, that make up a number of seconds. All but the first are below
sixty, and those of them that are not between -9 and -1 have two digits after the sign, if there is one. -/
structure DenotesDuration (text : List Char) (total : Int) : Prop where
  reads : readDuration? text = some total
  later : ∀ part ∈ (splitAt [':'] text).tail, ∃ i, readInt? part = some i ∧ i.natAbs < 60 ∧
    (i ≤ -10 ∨ 0 ≤ i → (splitSign part).2.length = 2)

theorem laterNumbers_lt (hint : List Char) (total : Int) : ∀ i ∈ laterNumbers hint total, i.natAbs < 60 := by
  obtain ⟨-, -, hminutes, hseconds⟩ := sum_parts total
  unfold laterNumbers
  split
  · exact List.forall_mem_cons.2 ⟨hminutes, List.forall_mem_singleton.2 hseconds⟩
  · exact List.forall_mem_singleton.2 hseconds

/-- What is written denotes the seconds that are shown. -/
theorem denotesDuration_durationText {ms : Int} (hms : ms.natAbs ≤ 2 ^ 63) (hint : List Char) :
    DenotesDuration (durationText hint ms) (shownSeconds hint (ms.tdiv 1000)) where
  reads := readDuration?_durationText hms hint
  later := by
    rw [splitAt_durationText, durationParts, List.tail_cons]
    refine List.forall_mem_map.2 fun i hi => ?_
    have hlt := laterNumbers_lt hint (ms.tdiv 1000) i hi
    exact ⟨i, (isIntText_twoPlaces i).readInt? (by omega), hlt, length_twoPlaces hlt⟩

theorem laterNumbers_nonneg {total : Int} (h : 0 ≤ total) (hint : List Char) :
    ∀ i ∈ laterNumbers hint total, 0 ≤ i := by
  have hrest := trunc_cases total (b := 3600) (by decide)
  have hminutes := trunc_cases (total.tmod 3600) (b := 60) (by decide)
  have hseconds := trunc_cases total (b := 60) (by decide)
  unfold laterNumbers
  split
  · exact List.forall_mem_cons.2 ⟨by omega, List.forall_mem_singleton.2 (by omega)⟩
  · exact List.forall_mem_singleton.2 (by omega)

/-- Three numbers where hours are shown, and two without them. -/
theorem length_splitAt (hint : List Char) (ms : Int) :
    (splitAt [':'] (durationText hint ms)).length = if ShowsHours hint (ms.tdiv 1000) then 3 else 2 := by
  rw [splitAt_durationText, durationParts, laterNumbers]
  split <;> rfl

/-- From zero on all numbers but the first have two digits and no sign. -/
theorem length_part {ms : Int} (h : 0 ≤ ms) (hint : List Char) :
    ∀ part ∈ (splitAt [':'] (durationText hint ms)).tail, part.length = 2 := by
  have htotal : 0 ≤ ms.tdiv 1000 := Int.tdiv_nonneg h (by decide)
  rw [splitAt_durationText, durationParts, List.tail_cons]
  refine List.forall_mem_map.2 fun i hi => ?_
  have hlt := laterNumbers_lt hint (ms.tdiv 1000) i hi
  have hnonneg := laterNumbers_nonneg htotal hint i hi
  rw [twoPlaces, if_neg (by omega)]
  exact Calendar.Pattern.length_padded (by decide) (show i.natAbs < 10 ^ 2 by omega)

/-- Two texts are the same exactly if they tell the same seconds. -/
theorem durationText_eq_iff {ms other : Int} (hms : ms.natAbs ≤ 2 ^ 63) (hother : other.natAbs ≤ 2 ^ 63) :
    durationText hint other = durationText hint ms ↔
      shownSeconds hint (other.tdiv 1000) = shownSeconds hint (ms.tdiv 1000) := by
  constructor
  · intro htext
    have hread := readDuration?_durationText hother hint
    rw [htext, readDuration?_durationText hms hint] at hread
    exact (Option.some.inj hread).symm
  · intro htold
    rw [durationText_eq, durationText_eq, durationParts_congr htold]

theorem apply_duration {v : Value} {ms : Int64} (hv : v.asInt? = some ms) (hint : List Char) :
    (duration hint).apply (some v) = .ok (some (.string (String.ofList (durationText hint ms.toInt)))) := by
  simp [apply, hv]

theorem natAbs_toInt_le (i : Int64) : i.toInt.natAbs ≤ 2 ^ 63 := by
  have := i.le_toInt
  have := i.toInt_lt
  omega

/-- **The text of a duration denotes the duration**, in minutes and seconds or with hours before them. Hours are
shown if the hint asks for them or if there are any above zero, and otherwise only an hour or more below zero has any
to leave out. All other seconds are read back, from zero on with two digits each after the first. Under one hint two
durations have the same text exactly if the same seconds are shown of them. -/
theorem durations_denote {v : Value} {ms : Int64} (hv : v.asInt? = some ms) (hint : List Char) :
    let total := ms.toInt.tdiv 1000
    ∃ text : List Char,
      (duration hint).apply (some v) = .ok (some (.string (String.ofList text))) ∧
      DenotesDuration text (shownSeconds hint total) ∧
      (splitAt [':'] text).length = (if ShowsHours hint total then 3 else 2) ∧
      (shownSeconds hint total = total ↔ ShowsHours hint total ∨ -3600 < total) ∧
      (0 ≤ ms.toInt → shownSeconds hint total = total ∧ ∀ part ∈ (splitAt [':'] text).tail, part.length = 2) ∧
      ∀ (w : Value) (other : Int64), w.asInt? = some other →
        ((duration hint).apply (some w) = .ok (some (.string (String.ofList text))) ↔
          shownSeconds hint (other.toInt.tdiv 1000) = shownSeconds hint total) := by
  intro total
  have hms := natAbs_toInt_le ms
  refine ⟨durationText hint ms.toInt, apply_duration hv hint, denotesDuration_durationText hms hint,
    length_splitAt hint ms.toInt, shownSeconds_eq_self_iff, fun hnonneg => ⟨?_, length_part hnonneg hint⟩, fun w other hw => ?_⟩
  · have htotal : 0 ≤ total := Int.tdiv_nonneg hnonneg (by decide)
    exact shownSeconds_eq_self_iff.2 (.inr (by omega))
  · rw [apply_duration hw hint, Except.ok.injEq, Option.some.injEq, Value.string.injEq, String.ofList_inj,
      durationText_eq_iff hms (natAbs_toInt_le other)]

/-- A text of milliseconds, and a duration below zero that is longer than an hour, under a hint that asks for hours. -/
theorem durations_denote_shown :
    (duration "mm:ss".toList).apply (some (.string "3725000")) = .ok (some (.string "1:02:05")) ∧
    DenotesDuration "1:02:05".toList 3725 ∧
    (duration "HH:mm:ss".toList).apply (some (.int (-4335000))) = .ok (some (.string "-1:-12:-15")) ∧
    DenotesDuration "-1:-12:-15".toList (-4335) := by
  have habove : (Value.string "3725000").asInt? = some 3725000 := rfl
  have hbelow : (Value.int (-4335000)).asInt? = some (-4335000) := rfl
  have haboveText : (duration "mm:ss".toList).apply (some (.string "3725000")) =
      .ok (some (.string (String.ofList "1:02:05".toList))) := rfl
  have hbelowText : (duration "HH:mm:ss".toList).apply (some (.int (-4335000))) =
      .ok (some (.string (String.ofList "-1:-12:-15".toList))) := rfl
  obtain ⟨above, happly, hdenotes, -⟩ := durations_denote habove "mm:ss".toList
  obtain ⟨below, happly', hdenotes', -⟩ := durations_denote hbelow "HH:mm:ss".toList
  rw [haboveText] at happly
  rw [hbelowText] at happly'
  obtain rfl : "1:02:05".toList = above := String.ofList_injective (by simpa using happly)
  obtain rfl : "-1:-12:-15".toList = below := String.ofList_injective (by simpa using happly')
  exact ⟨haboveText, hdenotes, hbelowText, hdenotes'⟩

/-- An hour or more below zero has hours that are not shown, so that different durations have one text. -/
theorem duration_leaves_out_hours :
    (duration "mm:ss".toList).apply (some (.int (-4335000))) = .ok (some (.string "-12:-15")) ∧
    (duration "mm:ss".toList).apply (some (.int (-735000))) = .ok (some (.string "-12:-15")) ∧
    (-4335000 : Int).tdiv 1000 ≠ (-735000 : Int).tdiv 1000 ∧
    readDuration? "-12:-15".toList = some (-735) ∧ (-4335000 : Int).tdiv 1000 = -4335 := by
  refine ⟨rfl, rfl, by decide, rfl, by decide⟩

end Transform

end ViewEngine
