import ViewEngine.Proofs.Calendar.LateDates

/-!
# Timestamps as they are written

A timestamp with all that its text leaves open (`Written`): the character between date and time, the digits of the
fraction, and whether the offset is zero by a letter or in figures. Its text is read as the timestamp that it is
(`Written.parts?_chars`), so what the timestamp does not tell of its text does not count.
-/

namespace ViewEngine.Calendar

/-! ## Digits -/

namespace Pattern

theorem isDigit_padded (width n : Nat) : ∀ c ∈ padded width n, c.isDigit = true := by
  intro c hc
  rcases List.mem_append.1 hc with hzero | hdigit
  · rw [List.eq_of_mem_replicate hzero]
    rfl
  · exact (DigitText.ofNat n).isDigit c hdigit

theorem digitsValue_padded (width n : Nat) : digitsValue (padded width n) = n := by
  have hvalue : digitsValue (Nat.toDigits 10 n) = n := DigitText.digitsValue_ofNat n
  rw [padded, digitsValue_append, digitsValue_replicate_zero, hvalue, Nat.mul_zero, Nat.zero_add]

/-- The digits of a number with zeros before them. -/
def paddedText (width n : Nat) : DigitText where
  chars := padded width n
  ne_nil hnil := Nat.toDigits_ne_nil (List.append_eq_nil_iff.1 hnil).2
  isDigit := isDigit_padded width n

end Pattern

namespace Timestamp

open Pattern

theorem digits?_append {ds : List Char} (h : ∀ c ∈ ds, c.isDigit = true) (rest : List Char) :
    digits? ds.length (ds ++ rest) = some (digitsValue ds, rest) := by
  simp only [digits?, List.take_left, List.drop_left]
  exact if_pos ⟨trivial, List.all_eq_true.2 h⟩

/-- A number that is written with a fixed width is read with that width. -/
theorem digits?_padded {width n : Nat} (hwidth : 0 < width) (h : n < 10 ^ width) (rest : List Char) :
    digits? width (padded width n ++ rest) = some (n, rest) := by
  have hread := digits?_append (isDigit_padded width n) rest
  rwa [length_padded hwidth h, digitsValue_padded] at hread

end Timestamp

open Pattern Timestamp

/-! ## Parts -/

/-- How a text gives its offset from UTC: by a letter of either case, or in hours and minutes. -/
inductive Zone where
  | utc (isCapital : Bool)
  | shifted (isBehind : Bool) (hours : Fin 24) (minutes : Fin 60)

namespace Zone

def chars : Zone → List Char
  | utc isCapital => [if isCapital then 'Z' else 'z']
  | shifted isBehind hours minutes =>
    (if isBehind then '-' else '+') :: (padded 2 hours ++ ':' :: padded 2 minutes)

/-- In seconds. -/
def offset : Zone → Int
  | utc _ => 0
  | shifted isBehind hours minutes =>
    let offset : Int := (hours * 3600 + minutes * 60 : Nat)
    if isBehind then -offset else offset

theorem offset?_chars (z : Zone) : offset? z.chars = some z.offset := by
  cases z with
  | utc isCapital => cases isCapital <;> rfl
  | shifted isBehind hours minutes =>
    have hhours := digits?_padded (show 0 < 2 by decide) (hours.isLt.trans (by decide)) (':' :: padded 2 minutes)
    have hminutes := digits?_padded (show 0 < 2 by decide) (minutes.isLt.trans (by decide)) []
    rw [List.append_nil] at hminutes
    have hrange : hours.val ≤ 23 ∧ minutes.val ≤ 59 :=
      ⟨Nat.le_of_lt_succ hours.isLt, Nat.le_of_lt_succ minutes.isLt⟩
    cases isBehind <;> simp [chars, offset?, offset, hhours, hminutes, dropStart?, hrange]

theorem head_chars (z : Zone) : ∀ c ∈ z.chars.head?, c.isDigit = false ∧ c ≠ '.' := by
  rcases z with ⟨_ | _⟩ | ⟨_ | _, _, _⟩ <;>
  · rintro c ⟨⟩
    decide

end Zone

/-- A timestamp with all that its text leaves open. -/
structure Written where
  year : Fin 10000
  month : Fin 100
  day : Fin 100
  separator : Char
  isAscii : separator.toNat < 128
  hour : Fin 100
  minute : Fin 100
  second : Fin 100
  /-- The digits after the point, which goes without them. -/
  fraction : Option DigitText
  zone : Zone

namespace Written

def fractionChars (w : Written) : List Char :=
  match w.fraction with
  | some t => '.' :: t.chars
  | none => []

def chars (w : Written) : List Char :=
  padded 4 w.year ++ '-' :: (padded 2 w.month ++ '-' :: (padded 2 w.day ++ w.separator ::
    (padded 2 w.hour ++ ':' :: (padded 2 w.minute ++ ':' :: (padded 2 w.second ++
      (w.fractionChars ++ w.zone.chars))))))

/-- The first nine digits of the fraction, or zeros in their place. -/
def nanosecond (w : Written) : Nat :=
  match w.fraction with
  | some t => digitsValue ((t.chars ++ List.replicate 9 '0').take 9)
  | none => 0

def timestamp (w : Written) : Timestamp where
  year := w.year
  month := w.month
  day := w.day
  hour := w.hour
  minute := w.minute
  second := w.second
  nanosecond := w.nanosecond
  offset := w.zone.offset

theorem fraction?_chars (w : Written) :
    fraction? (w.fractionChars ++ w.zone.chars) = some (w.nanosecond, w.zone.chars) := by
  have hhead := w.zone.head_chars
  unfold fractionChars nanosecond
  cases w.fraction with
  | none =>
    unfold fraction?
    split
    · rename_i rest heq
      rw [List.nil_append] at heq
      exact absurd rfl (hhead '.' (by rw [heq]; rfl)).2
    · rfl
  | some t =>
    obtain ⟨htake, hdrop⟩ := takeWhile_isDigit t w.zone.chars fun c hc => (hhead c hc).1
    simp only [List.cons_append, fraction?, htake, hdrop, if_neg t.ne_nil]

/-- **A text is read as the timestamp that is written there.** -/
theorem parts?_chars (w : Written) : parts? w.chars = some w.timestamp := by
  have hyear := digits?_padded (show 0 < 4 by decide) w.year.isLt
  have htwo (n : Fin 100) := digits?_padded (show 0 < 2 by decide) n.isLt
  have hseparator (rest : List Char) : separator? (w.separator :: rest) = some rest := if_pos w.isAscii
  -- Each line reads a number and the mark after it, and leaves the rest.
  refine Option.bind_eq_some_iff.2 ⟨_, hyear _, Option.bind_eq_some_iff.2 ⟨_, rfl, ?_⟩⟩
  refine Option.bind_eq_some_iff.2 ⟨_, htwo w.month _, Option.bind_eq_some_iff.2 ⟨_, rfl, ?_⟩⟩
  refine Option.bind_eq_some_iff.2 ⟨_, htwo w.day _, Option.bind_eq_some_iff.2 ⟨_, hseparator _, ?_⟩⟩
  refine Option.bind_eq_some_iff.2 ⟨_, htwo w.hour _, Option.bind_eq_some_iff.2 ⟨_, rfl, ?_⟩⟩
  refine Option.bind_eq_some_iff.2 ⟨_, htwo w.minute _, Option.bind_eq_some_iff.2 ⟨_, rfl, ?_⟩⟩
  refine Option.bind_eq_some_iff.2 ⟨_, htwo w.second _, Option.bind_eq_some_iff.2 ⟨_, w.fraction?_chars, ?_⟩⟩
  exact Option.bind_eq_some_iff.2 ⟨_, w.zone.offset?_chars, rfl⟩

end Written

end ViewEngine.Calendar
