import ViewEngine.Proofs.Calendar.Writing
import ViewEngine.Proofs.Text.Splitting
import ViewEngine.Transform

/-!
# The canonical text of an instant

What a clock shows tells the instant, at whatever offset from UTC it goes (`instant_clockTime`). A date stage shows
a text by the instant that it denotes and by nothing else (`applyStage_dateStage`), and the pattern
`canonicalPattern` shows all that there is to an instant: what it writes is read as the same instant again
(`readTimestamp?_written`). So it gives a canonical form to the texts of an instant (`dates_canonical`).
-/

namespace ViewEngine

namespace Calendar

/-! ## What a clock shows -/

/-- The timestamp that a clock `offset` seconds ahead of UTC shows. -/
def ClockTime.timestamp (c : ClockTime) (offset : Int) : Timestamp where
  year := c.year.toNat
  month := c.month
  day := c.day
  hour := c.hour
  minute := c.minute
  second := c.second
  nanosecond := c.nanosecond
  offset := offset

/-- What a clock shows denotes the instant at which it shows it. -/
theorem instant_clockTime {i : Instant} {offset : Int} (hyear : 0 ≤ (i.clockTime offset).year) :
    ((i.clockTime offset).timestamp offset).instant = i := by
  have hday := dayNumber_locate ((i.seconds + offset) / 86400 + epoch)
  have hsecond : (i.clockTime offset).second < 60 := (isValid_clockTime i offset).second
  obtain ⟨seconds, nanosecond⟩ := i
  simp only [Timestamp.instant, ClockTime.timestamp, Int.toNat_of_nonneg hyear]
  simp only [Instant.clockTime] at hday hsecond ⊢
  rw [hday]
  congr 1
  · -- Hours, minutes and seconds make up the time of day, and its day and the days before it the seconds.
    omega
  · exact if_neg (by omega)

/-! ## The canonical text -/

/-- The pattern that shows all that there is to an instant. -/
def canonicalPattern : List Char := "yyyy-MM-dd'T'HH:mm:ss.SSSSSSSSSX".toList

theorem items_canonicalPattern : Pattern.items canonicalPattern =
    [.field 'y' 4, .literal '-', .field 'M' 2, .literal '-', .field 'd' 2, .literal 'T', .field 'H' 2, .literal ':',
      .field 'm' 2, .literal ':', .field 's' 2, .literal '.', .field 'S' 9, .field 'X' 1] := rfl

/-- What can be written with four digits for the year and nine for the fraction. -/
structure ClockTime.IsWritable (c : ClockTime) : Prop extends c.IsValid where
  year : 0 ≤ c.year ∧ c.year ≤ lastYear
  nanosecond : c.nanosecond < 10 ^ 9

namespace ClockTime.IsWritable

variable {c : ClockTime} (h : c.IsWritable)
include h

/-- The canonical text of what a clock shows. -/
def written : Written where
  year := ⟨c.year.toNat, by have := h.year.2; unfold lastYear at this; omega⟩
  month := ⟨c.month, by have := h.month; omega⟩
  day := ⟨c.day, by have := h.day; have := daysIn_le c.year c.month; omega⟩
  separator := 'T'
  isAscii := by decide
  hour := ⟨c.hour, by have := h.hour; omega⟩
  minute := ⟨c.minute, by have := h.minute; omega⟩
  second := ⟨c.second, by have := h.second; omega⟩
  fraction := some (Pattern.paddedText 9 c.nanosecond)
  zone := .utc true

/-- It is what the canonical pattern shows. -/
theorem format_canonicalPattern : format c canonicalPattern = h.written.chars := by
  have hyear : Pattern.yearText 4 c.year = Pattern.padded 4 c.year.toNat := by
    have hnatAbs : c.year.natAbs = c.year.toNat := by have := h.year.1; omega
    rw [Pattern.yearText, if_neg (by have := h.year.1; omega), hnatAbs]
  have hfraction : Pattern.fractionText 9 c.nanosecond = Pattern.padded 9 c.nanosecond := by
    have hlength := Pattern.length_padded (show 0 < 9 by decide) h.nanosecond
    rw [Pattern.fractionText, Pattern.fractionDigits, Nat.min_self, List.take_of_length_le hlength.le]
    exact List.append_nil _
  simp [format, items_canonicalPattern, Pattern.Item.text, Pattern.fieldText, hyear, hfraction, Written.chars, written,
    Written.fractionChars, Pattern.paddedText, Zone.chars]

theorem timestamp_written : h.written.timestamp = c.timestamp 0 := by
  have hnanosecond : h.written.nanosecond = c.nanosecond := by
    have hlength := Pattern.length_padded (show 0 < 9 by decide) h.nanosecond
    simp only [Written.nanosecond, written, Pattern.paddedText]
    rw [List.take_left' hlength, Pattern.digitsValue_padded]
  simp only [Written.timestamp, hnanosecond]
  rfl

theorem isPossible_timestamp (offset : Int) : (c.timestamp offset).isPossible = true := by
  have hyear : ((c.year.toNat : Nat) : Int) = c.year := Int.toNat_of_nonneg h.year.1
  refine decide_eq_true ?_
  simp only [ClockTime.timestamp, hyear]
  have := h.hour
  have := h.minute
  have := h.second
  exact ⟨h.day.1, h.day.2, by omega, by omega, by omega⟩

end ClockTime.IsWritable

/-- The canonical text of what a clock shows in UTC denotes the instant. -/
theorem readTimestamp?_written {i : Instant} (h : (i.clockTime 0).IsWritable) :
    readTimestamp? h.written.chars = some i := by
  refine readTimestamp?_eq_some_iff.2 ⟨_, h.written.parts?_chars, ?_, .inl ?_, ?_⟩ <;> rw [h.timestamp_written]
  · exact h.isPossible_timestamp 0
  · exact h.second.ne
  · exact instant_clockTime h.year.1

/-- An instant that is read from a text can be written, if its year can. -/
theorem isWritable_of_readTimestamp? {cs : List Char} {i : Instant} (h : readTimestamp? cs = some i)
    (hyear : 0 ≤ (i.clockTime 0).year ∧ (i.clockTime 0).year ≤ lastYear) : (i.clockTime 0).IsWritable where
  toIsValid := isValid_clockTime i 0
  year := hyear
  nanosecond := nanosecond_lt_of_readTimestamp? h

end Calendar

/-! ## The stage -/

open Calendar

/-- The text of the stage that shows a date by a pattern. -/
def dateStage (pattern : List Char) : List Char := "date".toList ++ [':'] ++ pattern

/-- The stage is the transform with its pattern; an empty one counts as none given. -/
theorem ofStage_dateStage (pattern : List Char) : Transform.ofStage (dateStage pattern) =
    .date (if pattern = [] then "MMM d, yyyy".toList else pattern) := by
  have hcut : CutsFirst [':'] "date".toList pattern :=
    .of_noneAcross (by decide) (noneAcross_singleton ':' _ _)
  unfold dateStage Transform.ofStage Transform.pieces
  rw [splitFirst?_append hcut]
  cases pattern with
  | nil => rfl
  | cons c pattern => rfl

/-- What a date stage shows depends on the instant only. -/
theorem applyStage_dateStage {s : String} {i : Instant} (h : readTimestamp? s.toList = some i) (pattern : List Char) :
    applyStage (dateStage pattern) (some (.string s)) =
      (Transform.dateText (if pattern = [] then "MMM d, yyyy".toList else pattern) i).map
        fun text => some (.string (String.ofList text)) := by
  rw [applyStage, ofStage_dateStage, Transform.apply]
  simp only [Option.bind_some, Value.asText?, h]

/-- **The date of a text in the canonical pattern is a canonical form**: it denotes the same instant, is left as it
is, and is shown by every pattern like the text itself. So are all texts of the instant, whatever they are written
with. -/
theorem dates_canonical {s : String} {i : Instant} (hs : readTimestamp? s.toList = some i)
    (hyear : 0 ≤ (i.clockTime 0).year ∧ (i.clockTime 0).year ≤ lastYear) :
    (∃ t : String, applyStage (dateStage canonicalPattern) (some (.string s)) = .ok (some (.string t)) ∧
      readTimestamp? t.toList = some i ∧
      applyStage (dateStage canonicalPattern) (some (.string t)) = .ok (some (.string t)) ∧
      ∀ pattern, applyStage (dateStage pattern) (some (.string t)) =
        applyStage (dateStage pattern) (some (.string s))) ∧
    (∀ s', readTimestamp? s'.toList = some i → ∀ pattern,
      applyStage (dateStage pattern) (some (.string s')) = applyStage (dateStage pattern) (some (.string s))) ∧
    (∀ w : Written, w.timestamp.isPossible = true →
      (w.timestamp.second ≠ 60 ∨ Timestamp.endsMonth w.timestamp.instant = true) → w.timestamp.instant = i →
      ∀ pattern, applyStage (dateStage pattern) (some (.string (String.ofList w.chars))) =
        applyStage (dateStage pattern) (some (.string s))) := by
  have hwritable := isWritable_of_readTimestamp? hs hyear
  have hsame (s' : String) (hs' : readTimestamp? s'.toList = some i) (pattern : List Char) :
      applyStage (dateStage pattern) (some (.string s')) = applyStage (dateStage pattern) (some (.string s)) := by
    rw [applyStage_dateStage hs, applyStage_dateStage hs']
  refine ⟨⟨String.ofList hwritable.written.chars, ?_⟩, hsame, fun w hpossible hleap hi => hsame _ ?_⟩
  · have hshown : applyStage (dateStage canonicalPattern) (some (.string s)) =
        .ok (some (.string (String.ofList hwritable.written.chars))) := by
      rw [applyStage_dateStage hs, if_neg (by decide), Transform.dateText]
      simp only [if_neg hyear.2.not_gt, hwritable.format_canonicalPattern]
      rfl
    have hread : readTimestamp? (String.ofList hwritable.written.chars).toList = some i := by
      rw [String.toList_ofList, readTimestamp?_written]
    exact ⟨hshown, hread, (hsame _ hread _).trans hshown, hsame _ hread⟩
  · rw [String.toList_ofList]
    exact readTimestamp?_eq_some_iff.2 ⟨_, w.parts?_chars, hpossible, hleap, hi⟩

/-- A leap second on a clock behind UTC, and a fraction of the second before it that is cut after the ninth digit. -/
theorem dates_canonical_shown :
    applyStage (dateStage canonicalPattern) (some (.string "2016-12-31t18:59:60.25-05:00")) =
      .ok (some (.string "2016-12-31T23:59:59.999999999Z")) ∧
    ∀ pattern, applyStage (dateStage pattern) (some (.string "2016-12-31 23:59:59.9999999995z")) =
      applyStage (dateStage pattern) (some (.string "2016-12-31t18:59:60.25-05:00")) := by
  have hleap : readTimestamp? "2016-12-31t18:59:60.25-05:00".toList = some ⟨1483228799, 999999999⟩ := by
    decide +kernel
  have hcut : readTimestamp? "2016-12-31 23:59:59.9999999995z".toList = some ⟨1483228799, 999999999⟩ := by
    decide +kernel
  exact ⟨rfl, (dates_canonical hleap (by decide)).2.1 _ hcut⟩

end ViewEngine
