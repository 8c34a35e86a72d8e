import ViewEngine.Json.Basic
import ViewEngine.Json.Number
import ViewEngine.Text.Hexadecimal
import ViewEngine.Text.Utf8

/-!
# JSON tokens

The lexical level of JSON as a machine that takes one symbol at a time. `Lexer.step` gives the tokens
that a symbol completes and the state after it; `Lexer.finish?` gives what the end of the text
completes. Numbers and words end where something else begins, so a symbol after them is both their end
and the start of the next token.
-/

namespace ViewEngine.Json

/-- A token of JSON text. -/
inductive Token where
  | openArray
  | closeArray
  | openObject
  | closeObject
  | comma
  | colon
  /-- The datum of `null`, `true`, `false` or a number. -/
  | scalar (j : Json)
  /-- A string; none if it denotes no text. -/
  | string (s : Option String)

/-! ## Numbers -/

/-- How much of a number has been read. -/
inductive NumberPhase where
  | minus
  | zero
  | whole
  | point
  | fraction
  | mark
  | markSign
  | exponent
deriving DecidableEq

namespace NumberPhase

/-- What a character extends a number to, if it belongs to it. -/
def step? (phase : NumberPhase) (c : Char) : Option NumberPhase :=
  let isMark := c = 'e' || c = 'E'
  match phase with
  | minus => if c = '0' then some zero else if c.isDigit then some whole else none
  | zero => if c = '.' then some point else if isMark then some mark else none
  | whole =>
    if c.isDigit then some whole else if c = '.' then some point
    else if isMark then some mark else none
  | point => if c.isDigit then some fraction else none
  | fraction => if c.isDigit then some fraction else if isMark then some mark else none
  | mark =>
    if c = '+' || c = '-' then some markSign else if c.isDigit then some exponent else none
  | markSign => if c.isDigit then some exponent else none
  | exponent => if c.isDigit then some exponent else none

/-- A number may end here. -/
def isComplete : NumberPhase → Bool
  | zero | whole | fraction | exponent => true
  | minus | point | mark | markSign => false

end NumberPhase

section
variable [NumberReader]

/-- The double that a numeral is read as, if it is finite. -/
def ofDecimal (numeral : List Char) : Json :=
  let d := NumberReader.read numeral
  if d.isFinite then double d else unreadable

/-- The number that a numeral denotes. A numeral without point and exponent is an integer where it
fits; `-0` does not, as no integer is negative zero. -/
def ofNumeral (numeral : List Char) : Json :=
  match numeral with
  | '-' :: digits =>
    match readDigits? digits with
    | some n => if 0 < n ∧ Int64.minValue.toInt ≤ -n then int (-n) else ofDecimal numeral
    | none => ofDecimal numeral
  | digits =>
    match readDigits? digits with
    | some n => if n < UInt64.size then int n else ofDecimal numeral
    | none => ofDecimal numeral

end

/-! ## Strings -/

/-- A string being read, last character first. -/
structure Quotation where
  chars : List Char := []
  /-- The first half of a surrogate pair, waiting for the second. -/
  high : Option Nat := none
  isReadable : Bool := true

namespace Quotation

/-- Adds a character. -/
def push (q : Quotation) (c : Char) : Quotation :=
  { chars := c :: q.chars, high := none, isReadable := q.isReadable && q.high.isNone }

/-- Makes the string unreadable. -/
def spoil (q : Quotation) : Quotation := { q with high := none, isReadable := false }

/-- Adds a 16-bit unit: a character, or half of a surrogate pair. -/
def pushUnit (q : Quotation) (unit : Nat) : Quotation :=
  if 0xd800 ≤ unit ∧ unit < 0xdc00 then
    if q.high.isNone then { q with high := some unit } else q.spoil
  else if 0xdc00 ≤ unit ∧ unit < 0xe000 then
    match q.high with
    | some high =>
      { q with
        chars := Char.ofNat (0x10000 + (high - 0xd800) * 0x400 + (unit - 0xdc00)) :: q.chars
        high := none }
    | none => q.spoil
  else q.push (Char.ofNat unit)

/-- The text of the string, if it has one. -/
def text? (q : Quotation) : Option String :=
  if q.isReadable && q.high.isNone then some (String.ofList q.chars.reverse) else none

end Quotation

/-- The character that a one-letter escape stands for. -/
def escape? (c : Char) : Option Char :=
  if c = '"' || c = '\\' || c = '/' then some c
  else if c = 'b' then some (Char.ofNat 8)
  else if c = 'f' then some (Char.ofNat 12)
  else if c = 'n' then some '\n'
  else if c = 'r' then some '\r'
  else if c = 't' then some '\t'
  else none

/-! ## The machine -/

/-- What the symbols so far leave unfinished. -/
inductive Lexer where
  /-- Nothing. -/
  | idle
  /-- A word, last letter first. -/
  | word (letters : List Char)
  /-- A number, last character first. -/
  | number (phase : NumberPhase) (chars : List Char)
  | quotation (q : Quotation)
  /-- A string after a backslash. -/
  | escape (q : Quotation)
  /-- A string after some of the four digits of a `\u` escape, with their value. -/
  | hex (q : Quotation) (count value : Nat)

namespace Lexer

/-- The token that a word is. -/
def wordToken? (letters : List Char) : Option Token :=
  if letters = ['n', 'u', 'l', 'l'] then some (.scalar null)
  else if letters = ['t', 'r', 'u', 'e'] then some (.scalar (bool true))
  else if letters = ['f', 'a', 'l', 's', 'e'] then some (.scalar (bool false))
  else none

/-- A character where no token is unfinished. -/
def start? (c : Char) : Option (List Token × Lexer) :=
  if c = ' ' || c = '\t' || c = '\n' || c = '\r' then some ([], idle)
  else if c = '[' then some ([.openArray], idle)
  else if c = ']' then some ([.closeArray], idle)
  else if c = '{' then some ([.openObject], idle)
  else if c = '}' then some ([.closeObject], idle)
  else if c = ',' then some ([.comma], idle)
  else if c = ':' then some ([.colon], idle)
  else if c = '"' then some ([], quotation {})
  else if c = '-' then some ([], number .minus ['-'])
  else if c = '0' then some ([], number .zero ['0'])
  else if c.isDigit then some ([], number .whole [c])
  else if c.isAlpha then some ([], word [c])
  else none

section
variable [NumberReader]

/-- What the unfinished token is if it ends here. -/
def finish? : Lexer → Option (List Token)
  | idle => some []
  | word letters => (wordToken? letters.reverse).map ([·])
  | number phase chars =>
    if phase.isComplete then some [.scalar (ofNumeral chars.reverse)] else none
  | quotation _ | escape _ | hex _ _ _ => none

/-- The unfinished token ends here and `c` starts another. -/
def endAt? (state : Lexer) (c : Char) : Option (List Token × Lexer) := do
  let done ← state.finish?
  let (tokens, next) ← start? c
  pure (done ++ tokens, next)

/-- A symbol inside a string. -/
def inQuotation? (q : Quotation) : Symbol → Option (List Token × Lexer)
  | .stray _ => some ([], quotation q.spoil)
  | .char c =>
    if c = '"' then some ([.string q.text?], idle)
    else if c = '\\' then some ([], escape q)
    else if c.toNat < 32 then none
    else some ([], quotation (q.push c))

/-- Takes one symbol: the tokens it completes and the state after it. -/
def step? : Lexer → Symbol → Option (List Token × Lexer)
  | quotation q, s => inQuotation? q s
  | escape q, .char c =>
    if c = 'u' then some ([], hex q 0 0)
    else (escape? c).map fun e => ([], quotation (q.push e))
  | hex q count value, .char c =>
    (hexValue? c).map fun digit =>
      let value := 16 * value + digit
      if count = 3 then ([], quotation (q.pushUnit value)) else ([], hex q (count + 1) value)
  | number phase chars, .char c =>
    match phase.step? c with
    | some phase => some ([], number phase (c :: chars))
    | none => endAt? (number phase chars) c
  | word letters, .char c =>
    if c.isAlpha then some ([], word (c :: letters)) else endAt? (word letters) c
  | idle, .char c => start? c
  | _, .stray _ => none

end

end Lexer

end ViewEngine.Json
