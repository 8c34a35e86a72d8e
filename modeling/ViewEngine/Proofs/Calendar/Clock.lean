import Mathlib.Tactic.IntervalCases
import ViewEngine.Calendar.Date

/-!
# Days, years and clocks

The year of a day is the one that it lies in (`yearOf_spec`), although it is found from a guess; its month
and day of the month come out of the lengths of the months of that year (`locate_spec`). So whatever the
instant and the offset, a clock shows a date that there is and a time of day (`isValid_clockTime`).
-/

namespace ViewEngine.Calendar

/-! ## Years -/

theorem daysBefore_succ (year : Int) :
    daysBefore (year + 1) = daysBefore year + if isLeap year then 366 else 365 := by
  unfold daysBefore isLeap
  split <;> simp_all <;> omega

theorem daysBefore_mono {a b : Int} (h : a ≤ b) : daysBefore a ≤ daysBefore b := by
  unfold daysBefore
  omega

/-- The guess is wrong by one year at most. -/
theorem yearOf_spec (day : Int) : daysBefore (yearOf day) ≤ day ∧ day < daysBefore (yearOf day + 1) := by
  unfold yearOf
  simp only
  split
  · rw [Int.sub_add_cancel]
    unfold daysBefore at *
    omega
  · split <;>
    · unfold daysBefore at *
      omega

theorem le_yearOf_iff (year day : Int) : year ≤ yearOf day ↔ daysBefore year ≤ day := by
  obtain ⟨hle, hlt⟩ := yearOf_spec day
  constructor
  · intro h
    exact (daysBefore_mono h).trans hle
  · intro h
    by_contra hyear
    have hnext := daysBefore_mono (show yearOf day + 1 ≤ year by omega)
    omega

/-! ## Months -/

theorem daysBefore_succ_eq_sum (year : Int) :
    daysBefore (year + 1) = daysBefore year + ((monthLengths year).sum : Nat) := by
  rw [daysBefore_succ]
  cases h : isLeap year <;> simp [monthLengths, h]

theorem locate_spec {lengths : List Nat} {day : Nat} (h : day < lengths.sum) :
    ∃ length, lengths[(locate lengths day).1]? = some length ∧ (locate lengths day).2 < length ∧
      (lengths.take (locate lengths day).1).sum + (locate lengths day).2 = day := by
  induction lengths generalizing day with
  | nil => simp at h
  | cons length rest ih =>
    rw [locate]
    split
    · rename_i hday
      exact ⟨length, rfl, hday, by simp⟩
    · rename_i hday
      rw [List.sum_cons] at h
      obtain ⟨found, hfound, hlt, hsum⟩ := ih (show day - length < rest.sum by omega)
      refine ⟨found, hfound, hlt, ?_⟩
      simp only [List.take_succ_cons, List.sum_cons]
      omega

theorem dayNumber_eq (year : Int) (month day : Nat) :
    dayNumber year month day =
      daysBefore year + (day - 1 + ((monthLengths year).take (month - 1)).sum : Nat) :=
  congrArg (fun n : Nat => daysBefore year + n) List.foldl_eq_apply_foldr

theorem daysIn_le (year : Int) (month : Nat) : daysIn year month ≤ 31 := by
  have hlengths : ∀ length ∈ monthLengths year, length ≤ 31 := by
    cases h : isLeap year <;> simp [monthLengths, h]
  unfold daysIn
  split
  · exact Nat.zero_le _
  · rw [List.getD_eq_getElem?_getD]
    cases hlength : (monthLengths year)[month - 1]? with
    | none => exact Nat.zero_le _
    | some length => exact hlengths length (List.mem_of_getElem? hlength)

theorem month_of_le_daysIn {year : Int} {month day : Nat} (hday : 1 ≤ day) (h : day ≤ daysIn year month) :
    1 ≤ month ∧ month ≤ 12 := by
  by_contra hmonth
  have hnone : daysIn year month = 0 := by
    unfold daysIn
    split
    · rfl
    · rw [List.getD_eq_getElem?_getD, List.getElem?_eq_none (by simp [monthLengths]; omega)]
      rfl
  omega

/-- A date lies in its year, and only the thirty-first of December is its last day. -/
theorem dayNumber_mem_year {year : Int} {month day : Nat} (hday : 1 ≤ day) (h : day ≤ daysIn year month) :
    daysBefore year ≤ dayNumber year month day ∧ dayNumber year month day < daysBefore (year + 1) ∧
      (dayNumber year month day + 1 = daysBefore (year + 1) ↔ month = 12 ∧ day = 31) := by
  obtain ⟨hlow, hhigh⟩ := month_of_le_daysIn hday h
  rw [dayNumber_eq, daysBefore_succ_eq_sum]
  unfold daysIn at h
  cases hleap : isLeap year <;> simp only [monthLengths, hleap] at h ⊢ <;>
    interval_cases month <;> simp at h ⊢ <;> omega

/-! ## Clocks -/

/-- What is shown is a date that there is and a time of day. -/
structure ClockTime.IsValid (t : ClockTime) : Prop where
  month : 1 ≤ t.month ∧ t.month ≤ 12
  day : 1 ≤ t.day ∧ t.day ≤ daysIn t.year t.month
  weekday : t.weekday < 7
  hour : t.hour < 24
  minute : t.minute < 60
  second : t.second < 60

theorem dayOfYear_lt (day : Int) :
    (day - daysBefore (yearOf day)).toNat < (monthLengths (yearOf day)).sum := by
  have hyear := yearOf_spec day
  rw [daysBefore_succ_eq_sum] at hyear
  omega

/-- Every day has its place in a month of its year. -/
theorem locate_of_day (day : Int) :
    let place := locate (monthLengths (yearOf day)) (day - daysBefore (yearOf day)).toNat
    place.1 < 12 ∧ place.2 < daysIn (yearOf day) (place.1 + 1) := by
  intro place
  obtain ⟨length, hlength, hlt, -⟩ := locate_spec (dayOfYear_lt day)
  refine ⟨(List.getElem?_eq_some_iff.1 hlength).1, ?_⟩
  simp only [daysIn, Nat.succ_ne_zero, if_false, Nat.add_sub_cancel, List.getD_eq_getElem?_getD, place, hlength]
  exact hlt

/-- The date at the place of a day is that day. -/
theorem dayNumber_locate (day : Int) :
    let place := locate (monthLengths (yearOf day)) (day - daysBefore (yearOf day)).toNat
    dayNumber (yearOf day) (place.1 + 1) (place.2 + 1) = day := by
  intro place
  obtain ⟨-, -, -, hsum⟩ := locate_spec (dayOfYear_lt day)
  obtain ⟨hfirst, -⟩ := yearOf_spec day
  rw [dayNumber_eq, Nat.add_sub_cancel, Nat.add_sub_cancel, Nat.add_comm, hsum]
  omega

theorem isValid_clockTime (i : Instant) (offset : Int) : (i.clockTime offset).IsValid := by
  obtain ⟨hmonth, hday⟩ := locate_of_day ((i.seconds + offset) / 86400 + epoch)
  constructor <;> simp only [Instant.clockTime]
  · exact ⟨Nat.le_add_left 1 _, hmonth⟩
  · exact ⟨Nat.le_add_left 1 _, hday⟩
  all_goals omega

end ViewEngine.Calendar
