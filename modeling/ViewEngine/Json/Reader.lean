import ViewEngine.Json.Token
import ViewEngine.Table

/-!
# Reading JSON

Tokens are put together by a machine that keeps the arrays and objects still open, innermost first.
`Json.read?` runs it, with the lexical machine before it, once over the symbols of a text; it refuses
exactly what is not well formed. `Json.normal?` then refuses what holds an unreadable part and sorts
the members of every object, the last of several with one key counting.
-/

namespace ViewEngine.Json

/-- An array or object still open, with what it holds so far, last first. -/
inductive Frame where
  | array (items : List Json)
  /-- An object between members; `isReadable` unless some key denotes no text. -/
  | object (members : List (String × Json)) (isReadable : Bool)
  /-- An object after the key of a member. -/
  | member (members : List (String × Json)) (isReadable : Bool) (key : String)

/-- What may come next. -/
inductive Expected where
  | value
  /-- A value, or the end of an empty array. -/
  | itemOrEnd
  | key
  /-- A key, or the end of an empty object. -/
  | keyOrEnd
  | colon
  | commaOrEnd
  /-- Nothing: the datum is complete. -/
  | nothing (result : Json)

/-- The datum being put together. -/
structure Builder where
  expected : Expected := .value
  frames : List Frame := []

namespace Builder

/-- Adds a complete datum to the innermost open frame. -/
def place? (j : Json) : List Frame → Option Builder
  | [] => some ⟨.nothing j, []⟩
  | .array items :: frames => some ⟨.commaOrEnd, .array (j :: items) :: frames⟩
  | .member members isReadable key :: frames =>
    some ⟨.commaOrEnd, .object ((key, j) :: members) isReadable :: frames⟩
  | .object _ _ :: _ => none

/-- Adds a complete array or object, which is unreadable where it is nested too deep. -/
def close? (j : Json) (outer : List Frame) : Option Builder :=
  place? (if outer.length < maxDepth then j else unreadable) outer

/-- The start of a datum. -/
def value? (frames : List Frame) : Token → Option Builder
  | .scalar j => place? j frames
  | .string (some s) => place? (.string s) frames
  | .string none => place? unreadable frames
  | .openArray => some ⟨.itemOrEnd, .array [] :: frames⟩
  | .openObject => some ⟨.keyOrEnd, .object [] true :: frames⟩
  | _ => none

/-- The key of a member. -/
def key? : List Frame → Token → Option Builder
  | .object members isReadable :: frames, .string (some s) =>
    some ⟨.colon, .member members isReadable s :: frames⟩
  | .object members _ :: frames, .string none => some ⟨.colon, .member members false "" :: frames⟩
  | _, _ => none

/-- The end of the innermost open frame. -/
def end? : List Frame → Token → Option Builder
  | .array items :: frames, .closeArray => close? (.array items.reverse) frames
  | .object members isReadable :: frames, .closeObject =>
    close? (if isReadable then .object members.reverse else unreadable) frames
  | _, _ => none

/-- Takes one token. -/
def step? (b : Builder) (t : Token) : Option Builder :=
  match b.expected, t with
  | .value, t => value? b.frames t
  | .itemOrEnd, .closeArray => end? b.frames .closeArray
  | .itemOrEnd, t => value? b.frames t
  | .key, t => key? b.frames t
  | .keyOrEnd, .closeObject => end? b.frames .closeObject
  | .keyOrEnd, t => key? b.frames t
  | .colon, .colon => some { b with expected := .value }
  | .colon, _ => none
  | .commaOrEnd, .comma =>
    match b.frames with
    | .array _ :: _ => some { b with expected := .value }
    | .object _ _ :: _ => some { b with expected := .key }
    | _ => none
  | .commaOrEnd, t => end? b.frames t
  | .nothing _, _ => none

/-- The datum, if it is complete. -/
def result? (b : Builder) : Option Json :=
  match b.expected with
  | .nothing j => some j
  | _ => none

end Builder

/-- Both machines together. -/
structure Scan where
  lexer : Lexer := .idle
  builder : Builder := {}

section
variable [NumberReader]

namespace Scan

/-- Takes one symbol. -/
def step? (s : Scan) (symbol : Symbol) : Option Scan := do
  let (tokens, lexer) ← s.lexer.step? symbol
  let builder ← tokens.foldlM Builder.step? s.builder
  pure { lexer, builder }

/-- The datum of the text that ends here. -/
def finish? (s : Scan) : Option Json := do
  let tokens ← s.lexer.finish?
  let builder ← tokens.foldlM Builder.step? s.builder
  builder.result?

end Scan

/-- The datum that symbols spell, which may hold unreadable parts; none if they are malformed. -/
def readSymbols? (symbols : List Symbol) : Option Json :=
  (symbols.foldlM Scan.step? {}).bind Scan.finish?

/-- The datum that bytes spell. -/
def read? (bytes : List UInt8) : Option Json := readSymbols? (Utf8.symbols bytes)

/-- The datum that a text spells. -/
def readText? (s : String) : Option Json := readSymbols? (s.toList.map .char)

end

mutual

/-- The datum with sorted members, if no part of it is unreadable. -/
def normal? : Json → Option Json
  | unreadable => none
  | array items => (normalItems? items).map array
  | object members => (normalMembers? members).map fun ms => object (Table.ofList ms)
  | j => some j

def normalItems? : List Json → Option (List Json)
  | [] => some []
  | j :: rest => do
    let j ← normal? j
    let rest ← normalItems? rest
    pure (j :: rest)

def normalMembers? : List (String × Json) → Option (List (String × Json))
  | [] => some []
  | (key, j) :: rest => do
    let j ← normal? j
    let rest ← normalMembers? rest
    pure ((key, j) :: rest)

end

end ViewEngine.Json
