import ViewEngine.Toml.Scalar
import ViewEngine.Toml.Token

/-!
# Reading TOML

A document is read line by line. Tokens gather to lines; a bracket that closes makes the parts between
its commas an array or an inline table, which then stands in the line as one value. A finished line adds
to the document what it says: a header, a pair, or nothing.
-/

namespace ViewEngine.Toml

/-- How many arrays and inline tables may stand inside each other, and how many names a key may have. -/
def maxDepth : Nat := 79

/-- An item of a line: a token, or a value that has been read. -/
inductive Item where
  | token (t : Token)
  | value (v : Toml)

namespace Item

def isBlank : Item → Bool
  | token (.blank _) => true
  | _ => false

def isNewline : Item → Bool
  | token .newline => true
  | _ => false

end Item

/-! ## Keys and values -/

/-- Items without those at either end that satisfy `p`. -/
def trimItems (p : Item → Bool) (items : List Item) : List Item :=
  ((items.dropWhile p).reverse.dropWhile p).reverse

/-- Items without blanks at either end. -/
def trimBlanks (items : List Item) : List Item := trimItems Item.isBlank items

/-- Items without blanks and newlines at either end. -/
def trimLines (items : List Item) : List Item :=
  trimItems (fun item => item.isBlank || item.isNewline) items

/-- The name that items are between the dots of a key. -/
def name? (items : List Item) : Option String :=
  match trimBlanks items with
  | [.token (.bare chars)] => if chars.all isKeyChar then some (String.ofList chars) else none
  | [.token (.quoted false text)] => some text
  | _ => none

/-- The items between dots; at least one list. -/
def splitDots : List Item → List (List Item)
  | [] => [[]]
  | .token .dot :: rest => [] :: splitDots rest
  | item :: rest =>
    match splitDots rest with
    | part :: parts => (item :: part) :: parts
    | [] => [[item]]

/-- The key that items are: the names before the last, and the last. -/
def key? (items : List Item) : Option (List String × String) := do
  let names ← (splitDots items).mapM name?
  if maxDepth < names.length then none
  else return (names.dropLast, ← names.getLast?)

/-- The characters of items without quotes and brackets. -/
def bareText? : List Item → Option (List Char)
  | [] => some []
  | .token (.bare chars) :: rest | .token (.blank chars) :: rest => (bareText? rest).map (chars ++ ·)
  | .token .dot :: rest => (bareText? rest).map ('.' :: ·)
  | _ :: _ => none

/-- The value that items are. -/
def value? (items : List Item) : Option Toml :=
  match trimBlanks items with
  | [.value v] => some v
  | [.token (.quoted _ text)] => some (string text)
  | items => (bareText? items).bind ofBare?

/-- A key, an equals sign and a value. -/
def pair? : List Item → Option (List Item × List Item)
  | [] => none
  | .token .equals :: rest => some ([], rest)
  | item :: rest => (pair? rest).map fun (key, v) => (item :: key, v)

/-- Adds the pair that items are to a table. -/
def addLine? (items : List Item) (entries : Table Toml) : Option (Table Toml) := do
  let (key, v) ← pair? items
  let (names, last) ← key? key
  addPair? last (← value? v) names entries

/-- The array of the parts between commas; its last part may be empty. Newlines may stand around an
item, but not inside one. -/
def array? (parts : List (List Item)) : Option Toml := do
  let parts := parts.map trimLines
  let parts := if parts.getLast?.any List.isEmpty then parts.dropLast else parts
  return array (← parts.mapM value?)

/-- The inline table of the parts between commas. -/
def inline? (parts : List (List Item)) : Option Toml := do
  let entries ← match parts with
    | [part] => if trimBlanks part |>.isEmpty then some [] else addLine? part []
    | parts => parts.foldlM (fun entries part => addLine? part entries) []
  return table .inline entries

/-! ## Lines -/

/-- An open bracket. -/
structure Bracket where
  isSquare : Bool
  /-- What stands before it, last first. -/
  before : List Item
  /-- The parts before the last comma in it, last first. -/
  parts : List (List Item) := []

/-- A document being read. -/
structure Document where
  entries : Table Toml := []
  /-- The names of the last header. -/
  current : List String := []

namespace Document

/-- The names between the brackets of a header. -/
def header? (items : List Item) : Option (List Item) :=
  match items.reverse with
  | .token .closeBracket :: rest => some rest.reverse
  | _ => none

/-- Adds what a header says. -/
def addHeader? (d : Document) (items : List Item)
    (add? : String → Table Toml → Option (Table Toml)) : Option Document := do
  let (names, last) ← key? items
  let entries ← within? (add? last) names d.entries
  return { entries, current := names ++ [last] }

/-- Adds what a finished line says. -/
def addLine? (d : Document) (line : List Item) : Option Document := do
  match trimBlanks line with
  | [] => some d
  | .token .openBracket :: .token .openBracket :: rest =>
    d.addHeader? (← header? (← header? rest)) addElement?
  | .token .openBracket :: rest => d.addHeader? (← header? rest) addTable?
  | items => return { d with entries := ← within? (Toml.addLine? items) d.current d.entries }

end Document

/-- What has been read of a document and of the line after it. -/
structure Reading where
  document : Document := {}
  /-- The line is a header. -/
  isHeader : Bool := false
  /-- The open brackets, innermost first. -/
  brackets : List Bracket := []
  /-- The items since the last open bracket or comma, last first. -/
  items : List Item := []

namespace Reading

/-- Adds an item. -/
def push (r : Reading) (item : Item) : Reading := { r with items := item :: r.items }

/-- The line ends. -/
def endLine? (r : Reading) : Option Reading :=
  (r.document.addLine? r.items.reverse).map fun document => { document }

/-- A bracket opens in a value. -/
def open? (r : Reading) (isSquare : Bool) : Option Reading :=
  if r.brackets.length < maxDepth then
    some { r with brackets := { isSquare, before := r.items } :: r.brackets, items := [] }
  else none

/-- A bracket closes. -/
def close? (r : Reading) (isSquare : Bool) : Option Reading :=
  match r.brackets with
  | [] => none
  | b :: outer =>
    if b.isSquare = isSquare then do
      let parts := (r.items.reverse :: b.parts).reverse
      let v ← if isSquare then array? parts else inline? parts
      return { r with brackets := outer, items := .value v :: b.before }
    else none

/-- Takes one token. -/
def step? (r : Reading) (t : Token) : Option Reading :=
  if r.brackets.isEmpty && t = .newline then r.endLine?
  else if r.isHeader then some (r.push (.token t))
  else if r.brackets.isEmpty && t = .openBracket && r.items.all Item.isBlank then
    some { r.push (.token t) with isHeader := true }
  else match t with
    | .openBracket => r.open? true
    | .openBrace => r.open? false
    | .closeBracket => r.close? true
    | .closeBrace => r.close? false
    | .comma =>
      match r.brackets with
      | [] => none
      | b :: outer =>
        some { r with brackets := { b with parts := r.items.reverse :: b.parts } :: outer, items := [] }
    | t => some (r.push (.token t))

end Reading

/-- The entries of the document that a text is. -/
def readText? (text : String) : Option (Table Toml) := do
  let r ← (← tokens? text.toList).foldlM Reading.step? {}
  if r.brackets.isEmpty then return (← r.endLine?).document.entries else none

end ViewEngine.Toml
