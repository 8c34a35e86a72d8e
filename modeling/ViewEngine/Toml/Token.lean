import ViewEngine.Text.Hexadecimal
import ViewEngine.Text.Split

/-!
# TOML tokens

The lexical level of TOML as a machine that takes one character at a time. `cleanText?` goes first: it
takes away the byte order mark, makes every line end a single newline and refuses the control characters
that no part of a text may hold. Comments give no token.
-/

namespace ViewEngine.Toml

/-- A token of TOML text. -/
inductive Token where
  /-- Bare characters: a key or a part of a number, a date or a name. -/
  | bare (chars : List Char)
  | quoted (isMultiline : Bool) (text : String)
  /-- Spaces and tabs. -/
  | blank (chars : List Char)
  | newline
  | dot
  | equals
  | comma
  | openBracket
  | closeBracket
  | openBrace
  | closeBrace
deriving DecidableEq, Repr

/-- Text without byte order mark, with each line end as a newline; none if it holds a control
character that is not a tab. -/
def cleanText? (cs : List Char) : Option (List Char) :=
  let cs := match cs with
    | c :: rest => if c.toNat = 0xfeff then rest else cs
    | [] => []
  let cs := joinWith ['\n'] (splitAt ['\r', '\n'] cs)
  if cs.all fun c => c = '\t' || c = '\n' || (0x20 ≤ c.toNat && c.toNat ≠ 0x7f) then some cs
  else none

/-- A string being read. -/
structure Quotation where
  quote : Char
  isMultiline : Bool
  /-- Its characters, last first. -/
  chars : List Char := []
  /-- Quotes read last, which may belong to the end. -/
  quotes : Nat := 0

/-- What the characters so far leave unfinished. -/
inductive Lexer where
  /-- Nothing. -/
  | idle
  /-- Bare characters, last first. -/
  | bare (chars : List Char)
  /-- Spaces and tabs, last first. -/
  | blank (chars : List Char)
  | comment
  /-- One quote, or an empty string or the start of a string of several lines. -/
  | quotes (quote : Char) (areTwo : Bool)
  /-- Right after the quotes that open a string of several lines. -/
  | opened (quote : Char)
  | quotation (q : Quotation)
  /-- A string after a backslash. -/
  | escape (q : Quotation)
  /-- A string after a backslash and white space, with or without a newline in it. -/
  | joint (q : Quotation) (hasNewline : Bool)
  /-- A string in an escape by number, with the digits still to come and their value so far. -/
  | code (q : Quotation) (left value : Nat)

namespace Quotation

def push (q : Quotation) (c : Char) : Quotation := { q with chars := c :: q.chars }

/-- The quotes read last belong to the text. -/
def settle (q : Quotation) : Quotation :=
  { q with chars := List.replicate q.quotes q.quote ++ q.chars, quotes := 0 }

/-- Enough quotes to end the string. -/
def isClosed (q : Quotation) : Bool := 3 ≤ q.quotes

/-- The finished string. Of up to five quotes at its end the last three close it. -/
def token (q : Quotation) : Token :=
  .quoted q.isMultiline
    (String.ofList (List.replicate (q.quotes - 3) q.quote ++ q.chars).reverse)

/-- The character that a one-letter escape stands for. -/
def escape? (c : Char) : Option Char :=
  if c = '"' || c = '\\' then some c
  else if c = 'b' then some (Char.ofNat 8)
  else if c = 'f' then some (Char.ofNat 12)
  else if c = 'n' then some '\n'
  else if c = 'r' then some '\r'
  else if c = 't' then some '\t'
  else none

end Quotation

/-- A character of bare keys. -/
def isKeyChar (c : Char) : Bool := c.isAlphanum || c = '_' || c = '-'

/-- A character that may stand bare, in a key or in a value. -/
def isBareChar (c : Char) : Bool := isKeyChar c || c = '+' || c = ':'

namespace Lexer

/-- A character where no token is unfinished. -/
def start? (c : Char) : Option (List Token × Lexer) :=
  if isBareChar c then some ([], bare [c])
  else if c = ' ' || c = '\t' then some ([], blank [c])
  else match c with
    | '\n' => some ([.newline], idle)
    | '#' => some ([], comment)
    | '"' | '\'' => some ([], quotes c false)
    | '.' => some ([.dot], idle)
    | '=' => some ([.equals], idle)
    | ',' => some ([.comma], idle)
    | '[' => some ([.openBracket], idle)
    | ']' => some ([.closeBracket], idle)
    | '{' => some ([.openBrace], idle)
    | '}' => some ([.closeBrace], idle)
    | _ => none

/-- What the unfinished token is if it ends here. -/
def finish? : Lexer → Option (List Token)
  | idle | comment => some []
  | bare chars => some [.bare chars.reverse]
  | blank chars => some [.blank chars.reverse]
  | quotes _ true => some [.quoted false ""]
  | quotation q => if q.isClosed then some [q.token] else none
  | quotes _ false | opened _ | escape _ | joint _ _ | code _ _ _ => none

/-- The unfinished token ends here and `c` starts another. -/
def endAt? (state : Lexer) (c : Char) : Option (List Token × Lexer) := do
  let done ← state.finish?
  let (tokens, next) ← start? c
  pure (done ++ tokens, next)

/-- A character inside a string, which is no quote that may end a string of several lines. -/
def inText? (q : Quotation) (c : Char) : Option (List Token × Lexer) :=
  if c = '\\' && q.quote = '"' then some ([], escape q)
  else if c = '\n' && !q.isMultiline then none
  else some ([], quotation (q.push c))

/-- A character inside a string. -/
def inQuotation? (q : Quotation) (c : Char) : Option (List Token × Lexer) :=
  if c = q.quote then
    if !q.isMultiline then some ([q.token], idle)
    else if q.quotes = 5 then none
    else some ([], quotation { q with quotes := q.quotes + 1 })
  else if q.isClosed then endAt? (quotation q) c
  else inText? q.settle c

/-- A character after a backslash. -/
def inEscape? (q : Quotation) (c : Char) : Option Lexer :=
  if c = 'u' then some (code q 4 0)
  else if c = 'U' then some (code q 8 0)
  else if q.isMultiline && (c = ' ' || c = '\t') then some (joint q false)
  else if q.isMultiline && c = '\n' then some (joint q true)
  else (Quotation.escape? c).map fun e => quotation (q.push e)

/-- A digit of an escape by number. -/
def inCode? (q : Quotation) (left value : Nat) (c : Char) : Option Lexer := do
  let value := 16 * value + (← hexValue? c)
  if left ≠ 1 then some (code q (left - 1) value)
  else if value.isValidChar then some (quotation (q.push (Char.ofNat value)))
  else none

/-- Takes one character: the tokens it completes and the state after it. -/
def step? : Lexer → Char → Option (List Token × Lexer)
  | idle, c => start? c
  | bare chars, c =>
    if isBareChar c then some ([], bare (c :: chars)) else endAt? (bare chars) c
  | blank chars, c =>
    if c = ' ' || c = '\t' then some ([], blank (c :: chars)) else endAt? (blank chars) c
  | comment, c => if c = '\n' then some ([.newline], idle) else some ([], comment)
  | quotes quote false, c =>
    if c = quote then some ([], quotes quote true)
    else inText? { quote, isMultiline := false } c
  | quotes quote true, c =>
    if c = quote then some ([], opened quote) else endAt? (quotes quote true) c
  | opened quote, c =>
    let q : Quotation := { quote, isMultiline := true }
    if c = '\n' then some ([], quotation q) else inQuotation? q c
  | quotation q, c => inQuotation? q c
  | escape q, c => (inEscape? q c).map fun next => ([], next)
  | joint q hasNewline, c =>
    if c = ' ' || c = '\t' then some ([], joint q hasNewline)
    else if c = '\n' then some ([], joint q true)
    else if hasNewline then inQuotation? q c
    else none
  | code q left value, c => (inCode? q left value c).map fun next => ([], next)

end Lexer

/-- The tokens of clean text from a state on. -/
def tokensFrom? : Lexer → List Char → Option (List Token)
  | state, [] => state.finish?
  | state, c :: rest => do
    let (tokens, state) ← state.step? c
    return tokens ++ (← tokensFrom? state rest)

/-- The tokens of a text. -/
def tokens? (cs : List Char) : Option (List Token) := do tokensFrom? .idle (← cleanText? cs)

end ViewEngine.Toml
