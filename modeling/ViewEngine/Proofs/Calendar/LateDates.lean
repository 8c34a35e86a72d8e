import Mathlib.Data.List.DropRight
import ViewEngine.Calendar.Pattern
import ViewEngine.Calendar.Timestamp
import ViewEngine.Proofs.Calendar.Clock
import ViewEngine.Proofs.Decimal.Numeral

/-!
# Late dates

A timestamp has four digits for its year, so only its offset can lead it out of the calendar: it passes the
last year exactly if it is written on the last day of the year 9999 and so far behind UTC that the next day
has begun there (`exists_late_iff`). It never passes the first year, and all other fields of what it shows
in UTC are in range (`fields_of_readTimestamp?`).
-/

namespace ViewEngine

theorem digitsValue_lt {cs : List Char} (h : cs.all Char.isDigit = true) :
    digitsValue cs < 10 ^ cs.length := by
  induction cs with
  | nil => simp [digitsValue]
  | cons c cs ih =>
    simp only [List.all_cons, Bool.and_eq_true, Char.isDigit_iff_toNat] at h
    have hcs := ih h.2
    have hc : digitsValue [c] ≤ 9 := by
      have hvalue : digitsValue [c] = c.toNat - '0'.toNat := by simp [digitsValue, Nat.ofDigitChars]
      have hzero : '0'.toNat = 48 := rfl
      have hnine : '9'.toNat = 57 := rfl
      omega
    have happend := digitsValue_append [c] cs
    rw [List.singleton_append] at happend
    rw [happend, List.length_cons, Nat.pow_succ]
    have hhigh := Nat.mul_le_mul_left (10 ^ cs.length) hc
    omega

namespace Calendar

namespace Timestamp

/-! ## What a timestamp can hold -/

theorem lt_of_digits? {count n : Nat} {cs rest : List Char} (h : digits? count cs = some (n, rest)) :
    n < 10 ^ count := by
  unfold digits? at h
  simp only at h
  split at h
  · rename_i hds
    cases h
    have hlt := digitsValue_lt hds.2
    rwa [hds.1] at hlt
  · cases h

/-- Digits after the ninth do not count. -/
theorem lt_of_fraction? {cs rest : List Char} {n : Nat} (h : fraction? cs = some (n, rest)) :
    n < 10 ^ 9 := by
  unfold fraction? at h
  split at h
  · rename_i after
    simp only at h
    split at h
    · cases h
    · cases h
      have hall : ((after.takeWhile Char.isDigit ++ List.replicate 9 '0').take 9).all Char.isDigit = true := by
        refine List.all_eq_true.2 fun c hc => ?_
        rcases List.mem_append.1 (List.mem_of_mem_take hc) with hdigit | hzero
        · exact List.mem_takeWhile_imp hdigit
        · rw [List.eq_of_mem_replicate hzero]
          rfl
      refine (digitsValue_lt hall).trans_le (Nat.pow_le_pow_right (by decide) ?_)
      rw [List.length_take]
      exact Nat.min_le_left _ _
  · cases h
    decide

/-- An offset is less than a day. -/
theorem bounds_of_offset? {cs : List Char} {offset : Int} (h : offset? cs = some offset) :
    -86340 ≤ offset ∧ offset ≤ 86340 := by
  unfold offset? at h
  split at h
  · cases h
  · split at h
    · split at h <;> cases h
      decide
    · split at h
      · simp only [Option.bind_eq_bind, Option.bind_eq_some_iff] at h
        obtain ⟨⟨hours, _⟩, -, _, -, ⟨minutes, _⟩, -, h⟩ := h
        split at h
        · rename_i hrange
          simp only at h hrange
          split at h <;> cases h <;> omega
        · cases h
      · cases h

/-- The bounds that the digits of a timestamp set. -/
structure IsBounded (t : Timestamp) : Prop where
  year : t.year ≤ 9999
  nanosecond : t.nanosecond < 10 ^ 9
  offset : -86340 ≤ t.offset ∧ t.offset ≤ 86340

theorem isBounded_of_parts? {cs : List Char} {t : Timestamp} (h : parts? cs = some t) : t.IsBounded := by
  unfold parts? at h
  simp only [Option.bind_eq_bind, Option.bind_eq_some_iff, Option.pure_def, Option.some.injEq] at h
  obtain ⟨⟨year, _⟩, hyear, _, -, ⟨month, _⟩, -, _, -, ⟨day, _⟩, -, _, -, ⟨hour, _⟩, -, _, -, ⟨minute, _⟩, -,
    _, -, ⟨second, _⟩, -, ⟨nanosecond, _⟩, hnanosecond, offset, hoffset, rfl⟩ := h
  exact ⟨Nat.le_of_lt_succ (lt_of_digits? hyear), lt_of_fraction? hnanosecond, bounds_of_offset? hoffset⟩

/-! ## Which timestamps pass the last year -/

/-- The time of day of a timestamp in seconds, taken to UTC. It may belong to the day before or after. -/
def secondsInUtc (t : Timestamp) : Int :=
  (t.hour * 3600 + t.minute * 60 + min t.second 59 : Nat) - t.offset

/-- Written on the last day of the last year, and so far behind UTC that the next day has begun there. A leap
second is never written so late. -/
def PassesLastYear (t : Timestamp) : Prop :=
  t.year = 9999 ∧ t.month = 12 ∧ t.day = 31 ∧ t.second ≠ 60 ∧ 86400 ≤ t.secondsInUtc

theorem year_clockTime_instant (t : Timestamp) :
    (t.instant.clockTime 0).year = yearOf (dayNumber t.year t.month t.day + t.secondsInUtc / 86400) := by
  simp only [Instant.clockTime, instant, secondsInUtc]
  congr 1
  omega

theorem secondsInUtc_bounds {t : Timestamp} (h : t.isPossible = true) (hbounds : t.IsBounded) :
    -86340 ≤ t.secondsInUtc ∧ t.secondsInUtc < 2 * 86400 := by
  obtain ⟨-, -, hhour, hminute, -⟩ := of_decide_eq_true h
  obtain ⟨hlow, hhigh⟩ := hbounds.offset
  unfold secondsInUtc
  omega

/-- The year before the first that can be written is still in the calendar. -/
theorem neg_one_le_year {t : Timestamp} (h : t.isPossible = true) (hbounds : t.IsBounded) :
    -1 ≤ (t.instant.clockTime 0).year := by
  obtain ⟨hday, hdays, -⟩ := of_decide_eq_true h
  obtain ⟨hfirst, -⟩ := dayNumber_mem_year hday hdays
  obtain ⟨hlow, -⟩ := secondsInUtc_bounds h hbounds
  have hstart : daysBefore (-1) = -365 := rfl
  have hzero : daysBefore 0 ≤ daysBefore t.year := daysBefore_mono (Int.natCast_nonneg _)
  have hyearZero : daysBefore 0 = 0 := rfl
  rw [year_clockTime_instant, le_yearOf_iff, hstart]
  omega

theorem lastYear_lt_year_iff {t : Timestamp} (h : t.isPossible = true) (hbounds : t.IsBounded) :
    lastYear < (t.instant.clockTime 0).year ↔
      t.year = 9999 ∧ t.month = 12 ∧ t.day = 31 ∧ 86400 ≤ t.secondsInUtc := by
  obtain ⟨hday, hdays, -⟩ := of_decide_eq_true h
  obtain ⟨hfirst, hnext, hlast⟩ := dayNumber_mem_year hday hdays
  obtain ⟨hlow, hhigh⟩ := secondsInUtc_bounds h hbounds
  have hend : daysBefore (lastYear + 1) = 3652425 := rfl
  rw [year_clockTime_instant, ← Int.add_one_le_iff, le_yearOf_iff, hend]
  by_cases hyear : t.year = 9999
  · have hyearEnd : daysBefore (((9999 : Nat) : Int) + 1) = 3652425 := rfl
    rw [hyear, hyearEnd] at hlast hnext
    rw [hyear]
    constructor
    · intro hlate
      obtain ⟨hmonth, hday⟩ := hlast.1 (by omega)
      exact ⟨rfl, hmonth, hday, by omega⟩
    · rintro ⟨-, hmonth, hday, hlate⟩
      have hlastDay := hlast.2 ⟨hmonth, hday⟩
      omega
  · -- A year earlier there is a whole year left, and an offset is less than a day.
    have hyearEnd := daysBefore_mono (show (t.year : Int) + 1 ≤ 9999 by have := hbounds.year; omega)
    have hbefore : daysBefore 9999 = 3652060 := rfl
    exact iff_of_false (by omega) fun hlate => hyear hlate.1

end Timestamp

theorem readTimestamp?_eq_some_iff {cs : List Char} {i : Instant} :
    readTimestamp? cs = some i ↔ ∃ t, Timestamp.parts? cs = some t ∧ t.isPossible = true ∧
      (t.second ≠ 60 ∨ Timestamp.endsMonth t.instant = true) ∧ t.instant = i := by
  simp only [readTimestamp?, Option.bind_eq_bind, Option.bind_eq_some_iff, ite_eq_iff, Bool.and_eq_true,
    Bool.or_eq_true, bne_iff_ne, Option.some.injEq, reduceCtorEq, and_false, or_false, and_assoc]

/-- A text leads past the last year exactly if it is written as a timestamp that does. -/
theorem exists_late_iff {cs : List Char} :
    (∃ i, readTimestamp? cs = some i ∧ lastYear < (i.clockTime 0).year) ↔
      ∃ t, Timestamp.parts? cs = some t ∧ t.isPossible = true ∧ t.PassesLastYear := by
  constructor
  · rintro ⟨i, hi, hlate⟩
    obtain ⟨t, hparts, hpossible, hleap, rfl⟩ := readTimestamp?_eq_some_iff.1 hi
    obtain ⟨hyear, hmonth, hday, hutc⟩ :=
      (Timestamp.lastYear_lt_year_iff hpossible (Timestamp.isBounded_of_parts? hparts)).1 hlate
    refine ⟨t, hparts, hpossible, hyear, hmonth, hday, hleap.resolve_right fun hends => ?_, hutc⟩
    obtain ⟨-, -, -, -, hle⟩ := of_decide_eq_true (by unfold Timestamp.endsMonth at hends; exact hends)
    omega
  · rintro ⟨t, hparts, hpossible, hyear, hmonth, hday, hsecond, hutc⟩
    refine ⟨t.instant, readTimestamp?_eq_some_iff.2 ⟨t, hparts, hpossible, .inl hsecond, rfl⟩, ?_⟩
    exact (Timestamp.lastYear_lt_year_iff hpossible (Timestamp.isBounded_of_parts? hparts)).2
      ⟨hyear, hmonth, hday, hutc⟩

/-! ## What a date pattern looks up -/

/-- The names and digits that the fields of a pattern are cut from are there and long enough. -/
structure ClockTime.HasFields (t : ClockTime) : Prop where
  month : ∃ name, Pattern.months[t.month - 1]? = some name ∧ 3 ≤ name.toList.length
  weekday : ∃ name, Pattern.weekdays[t.weekday]? = some name ∧ 3 ≤ name.toList.length
  nanosecond : (Pattern.padded 9 t.nanosecond).length = 9
  fraction : ∀ run, Pattern.fractionDigits run ≤ (Pattern.padded 9 t.nanosecond).length

theorem Pattern.length_padded {width n : Nat} (hwidth : 0 < width) (h : n < 10 ^ width) :
    (padded width n).length = width := by
  have hlength := (Nat.length_toDigits_le_iff (by decide) hwidth).2 h
  simp only [padded, List.length_append, List.length_replicate]
  omega

theorem Pattern.three_le_length_of_mem : ∀ name ∈ months ++ weekdays, 3 ≤ name.toList.length := by
  decide

theorem hasFields_clockTime {i : Instant} (h : i.nanosecond < 10 ^ 9) (offset : Int) :
    (i.clockTime offset).HasFields := by
  obtain ⟨⟨-, hmonth⟩, -, hweekday, -⟩ := isValid_clockTime i offset
  have hmonths : (i.clockTime offset).month - 1 < Pattern.months.length := by
    simp only [Pattern.months, List.length_cons, List.length_nil]
    omega
  have hfraction : (Pattern.padded 9 (i.clockTime offset).nanosecond).length = 9 :=
    Pattern.length_padded (by decide) h
  refine ⟨⟨_, List.getElem?_eq_getElem hmonths, ?_⟩, ⟨_, List.getElem?_eq_getElem hweekday, ?_⟩, hfraction,
    fun run => (Nat.min_le_right run 9).trans_eq hfraction.symm⟩
  · exact Pattern.three_le_length_of_mem _ (List.mem_append_left _ (List.getElem_mem _))
  · exact Pattern.three_le_length_of_mem _ (List.mem_append_right _ (List.getElem_mem _))

theorem nanosecond_lt_of_readTimestamp? {cs : List Char} {i : Instant} (h : readTimestamp? cs = some i) :
    i.nanosecond < 10 ^ 9 := by
  obtain ⟨t, hparts, -, -, rfl⟩ := readTimestamp?_eq_some_iff.1 h
  simp only [Timestamp.instant]
  split
  · decide
  · exact (Timestamp.isBounded_of_parts? hparts).nanosecond

/-- What a timestamp shows in UTC does not lie before the first year, and all of its fields can be written. -/
theorem fields_of_readTimestamp? {cs : List Char} {i : Instant} (h : readTimestamp? cs = some i) :
    -lastYear ≤ (i.clockTime 0).year ∧ (i.clockTime 0).IsValid ∧ (i.clockTime 0).HasFields := by
  obtain ⟨t, hparts, hpossible, -, hi⟩ := readTimestamp?_eq_some_iff.1 h
  have hfirst := Timestamp.neg_one_le_year hpossible (Timestamp.isBounded_of_parts? hparts)
  rw [hi] at hfirst
  exact ⟨(show -lastYear ≤ -1 by decide).trans hfirst, isValid_clockTime i 0,
    hasFields_clockTime (nanosecond_lt_of_readTimestamp? h) 0⟩

end Calendar

end ViewEngine
