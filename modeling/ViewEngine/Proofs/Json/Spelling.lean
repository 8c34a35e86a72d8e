import ViewEngine.Proofs.Json.RoundTrip

/-!
# Spellings

JSON text in its parts, with all that a datum leaves open: the white space between the tokens, the escapes in a
string, the form of a number, the order and repetition of keys. A spelling has a text and a datum, and the text
is read as the datum (`Spelling.readSymbols?_text`).
-/

namespace ViewEngine.Json

open Lexer

/-! ## White space -/

/-- A character of white space. -/
inductive Space where
  | blank
  | tab
  | lineFeed
  | carriageReturn

def Space.char : Space → Char
  | blank => ' '
  | tab => '\t'
  | lineFeed => '\n'
  | carriageReturn => '\r'

/-- White space between two tokens, or none. -/
abbrev Gap := List Space

def Gap.chars (g : Gap) : List Char := g.map Space.char

theorem start?_space (s : Space) : start? s.char = some ([], idle) := by
  cases s <;> rfl

theorem isMark_space (s : Space) : IsMark s.char := by
  cases s <;> simp [IsMark, Space.char]

variable [NumberReader]

theorem reads_gap (g : Gap) : Reads idle g.chars [] idle := by
  induction g with
  | nil => exact Reads.nil
  | cons s g ih => exact Reads.silent idle (start?_space s) ih

/-- White space before a datum. -/
theorem Lexer.Spells.after_gap {cs : List Char} {ts : List Token} (h : Spells cs ts) (g : Gap) :
    Spells (g.chars ++ cs) ts := by
  obtain ⟨l, done, held, hreads, hends, rfl⟩ := h
  exact ⟨l, done, held, (reads_gap g).append hreads, hends, rfl⟩

/-- White space after a datum. -/
theorem Lexer.Spells.before_gap {cs : List Char} {ts : List Token} (h : Spells cs ts) (g : Gap) :
    Spells (cs ++ g.chars) ts := by
  cases g with
  | nil => simpa [Gap.chars] using h
  | cons s g =>
    have hfirst := h.mark (isMark_space s) (start?_space s)
    have hgap := (hfirst.append (reads_gap g)).spells
    simpa [Gap.chars] using hgap

/-! ## Strings -/

/-- What a string is written with: a character that stands for itself, one after a backslash, or one or two
16-bit units. -/
inductive StringPart where
  | plain (c : Char) (h : c ≠ '"' ∧ c ≠ '\\' ∧ 32 ≤ c.toNat)
  | letter (letter c : Char) (h : escape? letter = some c)
  | unit (u : CodeUnit) (h : u.value < 0xd800 ∨ 0xe000 ≤ u.value)
  | pair (high low : CodeUnit) (hhigh : 0xd800 ≤ high.value ∧ high.value < 0xdc00)
    (hlow : 0xdc00 ≤ low.value ∧ low.value < 0xe000)

namespace StringPart

def chars : StringPart → List Char
  | plain c _ => [c]
  | letter l _ _ => ['\\', l]
  | unit u _ => u.chars
  | pair high low _ _ => high.chars ++ low.chars

/-- The character that the part stands for. -/
def char : StringPart → Char
  | plain c _ => c
  | letter _ c _ => c
  | unit u _ => Char.ofNat u.value
  | pair high low _ _ => Char.ofNat (0x10000 + (high.value - 0xd800) * 0x400 + (low.value - 0xdc00))

theorem reads (p : StringPart) (acc : List Char) :
    Reads (quotation ⟨acc, none, true⟩) p.chars [] (quotation ⟨p.char :: acc, none, true⟩) := by
  cases p with
  | plain c h =>
    obtain ⟨hquote, hslash, hcontrol⟩ := h
    have hstep : ¬ c.toNat < 32 := by omega
    refine Reads.single ?_
    simp [step?, inQuotation?, hquote, hslash, hstep, Quotation.push, char]
  | letter l c h =>
    refine reads_escape ?_ h
    rintro rfl
    cases h
  | unit u h =>
    have hunit : (Quotation.mk acc none true).pushUnit u.value = ⟨Char.ofNat u.value :: acc, none, true⟩ := by
      rw [Quotation.pushUnit, if_neg (by omega), if_neg (by omega)]
      rfl
    exact hunit ▸ reads_unit ⟨acc, none, true⟩ u
  | pair high low hhigh hlow =>
    have hfirst : (Quotation.mk acc none true).pushUnit high.value = ⟨acc, some high.value, true⟩ := by
      rw [Quotation.pushUnit, if_pos hhigh]
      rfl
    have hsecond : (Quotation.mk acc (some high.value) true).pushUnit low.value =
        ⟨char (.pair high low hhigh hlow) :: acc, none, true⟩ := by
      rw [Quotation.pushUnit, if_neg (by omega), if_pos hlow]
      rfl
    have hreadsHigh := reads_unit ⟨acc, none, true⟩ high
    have hreadsLow := reads_unit ⟨acc, some high.value, true⟩ low
    rw [hfirst] at hreadsHigh
    rw [hsecond] at hreadsLow
    exact hreadsHigh.append hreadsLow

end StringPart

/-- A string between its quotes. -/
abbrev StringText := List StringPart

namespace StringText

def chars (s : StringText) : List Char := '"' :: s.flatMap StringPart.chars ++ ['"']

def string (s : StringText) : String := String.ofList (s.map StringPart.char)

theorem reads (s : StringText) : Reads idle s.chars [.string (some s.string)] idle := by
  have hparts (acc : List Char) : Reads (quotation ⟨acc, none, true⟩) (s.flatMap StringPart.chars) []
      (quotation ⟨(s.map StringPart.char).reverse ++ acc, none, true⟩) := by
    induction s generalizing acc with
    | nil => exact Reads.nil
    | cons p s ih =>
      have hreads := (p.reads acc).append (ih (p.char :: acc))
      rw [List.flatMap_cons, List.map_cons, List.reverse_cons, List.append_assoc]
      exact hreads
  have hclose : (quotation ⟨(s.map StringPart.char).reverse ++ [], none, true⟩).step? (.char '"') =
      some ([.string (some s.string)], idle) := by
    simp [step?, inQuotation?, Quotation.text?, string]
  exact Reads.silent _ rfl ((hparts []).append (Reads.single hclose))

end StringText

/-- The key of a member, with the white space around it. -/
structure KeyText where
  before : Gap
  text : StringText
  after : Gap

namespace KeyText

def chars (k : KeyText) : List Char := k.before.chars ++ k.text.chars ++ k.after.chars

theorem reads (k : KeyText) {cs : List Char} {ts : List Token} (h : Reads idle cs ts idle) :
    Reads idle (k.chars ++ ':' :: cs) (.string (some k.text.string) :: .colon :: ts) idle := by
  have hkey := ((reads_gap k.before).append k.text.reads).append (reads_gap k.after)
  exact hkey.append (Reads.token rfl h)

end KeyText

/-! ## Data -/

/-- JSON text in its parts. -/
inductive Spelling where
  | null
  | bool (b : Bool)
  | number (n : Numeral)
  | string (s : StringText)
  | emptyArray (gap : Gap)
  | array (first : Spelling) (rest : List Spelling)
  | emptyObject (gap : Gap)
  | object (key : KeyText) (first : Spelling) (rest : List (KeyText × Spelling))
  /-- White space around a datum. -/
  | spaced (before : Gap) (inner : Spelling) (after : Gap)

namespace Spelling

mutual

/-- The text of a spelling. -/
def text : Spelling → List Char
  | null => "null".toList
  | bool b => if b then "true".toList else "false".toList
  | number n => n.chars
  | string s => s.chars
  | emptyArray gap => '[' :: gap.chars ++ [']']
  | array first rest => '[' :: text first ++ itemsText rest
  | emptyObject gap => '{' :: gap.chars ++ ['}']
  | object key first rest => '{' :: key.chars ++ ':' :: text first ++ membersText rest
  | spaced before inner after => before.chars ++ text inner ++ after.chars

/-- The items of an array after the first, and its end. -/
def itemsText : List Spelling → List Char
  | [] => [']']
  | s :: rest => ',' :: text s ++ itemsText rest

/-- The members of an object after the first, and its end. -/
def membersText : List (KeyText × Spelling) → List Char
  | [] => ['}']
  | (key, s) :: rest => ',' :: key.chars ++ ':' :: text s ++ membersText rest

end

mutual

/-- The datum of a spelling, with members as they stand. -/
def datum : Spelling → Json
  | null => .null
  | bool b => .bool b
  | number n => ofNumeral n.chars
  | string s => .string s.string
  | emptyArray _ => .array []
  | array first rest => .array (datum first :: itemData rest)
  | emptyObject _ => .object []
  | object key first rest => .object ((key.text.string, datum first) :: memberData rest)
  | spaced _ inner _ => datum inner

def itemData : List Spelling → List Json
  | [] => []
  | s :: rest => datum s :: itemData rest

def memberData : List (KeyText × Spelling) → List (String × Json)
  | [] => []
  | (key, s) :: rest => (key.text.string, datum s) :: memberData rest

end

/-! ## Reading -/

theorem tokens_ofNumeral (numeral : List Char) : (ofNumeral numeral).tokens = [.scalar (ofNumeral numeral)] := by
  obtain ⟨i, -, h⟩ | h := ofNumeral_cases numeral <;> rw [h]
  · rfl
  · exact tokens_ofDecimal numeral

mutual

/-- The text of a spelling spells the tokens of its datum. -/
theorem spells_text : ∀ s : Spelling, Spells s.text s.datum.tokens
  | null => spells_null
  | bool b => spells_bool b
  | number n => by
    rw [datum, tokens_ofNumeral]
    exact spells_numeral n
  | string s => s.reads.spells
  | emptyArray gap => (Reads.token rfl ((reads_gap gap).append (Reads.single rfl))).spells
  | array first rest => (Reads.token rfl (reads_itemsText rest (spells_text first))).spells
  | emptyObject gap => (Reads.token rfl ((reads_gap gap).append (Reads.single rfl))).spells
  | object key first rest => by
    have hmembers := reads_membersText rest (spells_text first)
    have hobject := (Reads.token (c := '{') (t := .openObject) rfl (key.reads hmembers)).spells
    rw [text, datum, tokens]
    simpa using hobject
  | spaced before inner after => ((spells_text inner).after_gap before).before_gap after

/-- A datum and the items after it, up to the end of the array. -/
theorem reads_itemsText : ∀ rest : List Spelling, ∀ {cs : List Char} {ts : List Token}, Spells cs ts →
    Reads idle (cs ++ itemsText rest) (ts ++ itemTokens (itemData rest)) idle
  | [], _, _, hfirst => hfirst.mark (by simp [IsMark]) rfl
  | s :: rest, cs, ts, hfirst => by
    have hcomma := hfirst.mark (c := ',') (by simp [IsMark]) rfl
    have hitems := hcomma.append (reads_itemsText rest (spells_text s))
    rw [itemsText, itemData, itemTokens]
    simpa using hitems

/-- A datum and the members after it, up to the end of the object. -/
theorem reads_membersText : ∀ rest : List (KeyText × Spelling), ∀ {cs : List Char} {ts : List Token},
    Spells cs ts → Reads idle (cs ++ membersText rest) (ts ++ memberTokens (memberData rest)) idle
  | [], _, _, hfirst => hfirst.mark (by simp [IsMark]) rfl
  | (key, s) :: rest, cs, ts, hfirst => by
    have hcomma := hfirst.mark (c := ',') (by simp [IsMark]) rfl
    have hmembers := hcomma.append (key.reads (reads_membersText rest (spells_text s)))
    rw [membersText, memberData, memberTokens]
    simpa using hmembers

end

/-- **Every spelling is read as its datum**, as far as the datum is not nested too deep. -/
theorem readSymbols?_text (s : Spelling) : readSymbols? (s.text.map .char) = some (s.datum.cutOff 0) :=
  readSymbols?_of_spells_tokens s.spells_text

end Spelling

end ViewEngine.Json
