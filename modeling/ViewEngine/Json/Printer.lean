import ViewEngine.Decimal.Layout
import ViewEngine.Json.Basic

/-!
# JSON text

The compact text of a datum, and the indented text for people. Strings are written as they are, apart
from quotes, backslashes and control characters; a double that is not finite has no JSON text and is
written `null`.
-/

namespace ViewEngine.Json

/-- A hexadecimal digit, in lower case. -/
def hexDigit (n : Nat) : Char := Nat.digitChar (n % 16)

/-- The text of one character inside quotes. -/
def escaped (c : Char) : List Char :=
  if c = '"' then ['\\', '"']
  else if c = '\\' then ['\\', '\\']
  else if c.toNat = 8 then ['\\', 'b']
  else if c.toNat = 12 then ['\\', 'f']
  else if c = '\n' then ['\\', 'n']
  else if c = '\r' then ['\\', 'r']
  else if c = '\t' then ['\\', 't']
  else if c.toNat < 32 then ['\\', 'u', '0', '0', hexDigit (c.toNat / 16), hexDigit c.toNat]
  else [c]

/-- A string in quotes. -/
def quoted (s : String) : List Char := '"' :: s.toList.flatMap escaped ++ ['"']

/-- Decimal text of an integer. -/
def intText (i : Int) : List Char :=
  if i < 0 then '-' :: Nat.toDigits 10 i.natAbs else Nat.toDigits 10 i.natAbs

/-- The text of a double. -/
def doubleText (d : Binary64) : List Char :=
  if d.isFinite then Layout.json.text d else "null".toList

mutual

/-- The compact text of a datum. -/
def compact : Json → List Char
  | null => "null".toList
  | bool b => if b then "true".toList else "false".toList
  | int i => intText i
  | double d => doubleText d
  | string s => quoted s
  | array [] => ['[', ']']
  | array (item :: items) => '[' :: compact item ++ compactItems items
  | object [] => ['{', '}']
  | object ((key, item) :: members) => '{' :: quoted key ++ ':' :: compact item ++ compactMembers members
  | unreadable => "null".toList

/-- The items of an array after the first, and its end. -/
def compactItems : List Json → List Char
  | [] => [']']
  | item :: items => ',' :: compact item ++ compactItems items

/-- The members of an object after the first, and its end. -/
def compactMembers : List (String × Json) → List Char
  | [] => ['}']
  | (key, item) :: members => ',' :: quoted key ++ ':' :: compact item ++ compactMembers members

end

/-- A new line, indented by two spaces a level. -/
def newLine (level : Nat) : List Char := '\n' :: List.replicate (2 * level) ' '

mutual

/-- The indented text of a datum that stands at the given level. -/
def indented (level : Nat) : Json → List Char
  | array (item :: items) =>
    '[' :: newLine (level + 1) ++ indented (level + 1) item ++ indentedItems level items
  | object ((key, item) :: members) =>
    '{' :: newLine (level + 1) ++ quoted key ++ ':' :: ' ' :: indented (level + 1) item
      ++ indentedMembers level members
  | null => "null".toList
  | bool b => if b then "true".toList else "false".toList
  | int i => intText i
  | double d => doubleText d
  | string s => quoted s
  | array [] => ['[', ']']
  | object [] => ['{', '}']
  | unreadable => "null".toList

/-- The items of an array after the first, and its end. -/
def indentedItems (level : Nat) : List Json → List Char
  | [] => newLine level ++ [']']
  | item :: items =>
    ',' :: newLine (level + 1) ++ indented (level + 1) item ++ indentedItems level items

/-- The members of an object after the first, and its end. -/
def indentedMembers (level : Nat) : List (String × Json) → List Char
  | [] => newLine level ++ ['}']
  | (key, item) :: members =>
    ',' :: newLine (level + 1) ++ quoted key ++ ':' :: ' ' :: indented (level + 1) item
      ++ indentedMembers level members

end

/-- The compact text. -/
def text (j : Json) : String := String.ofList j.compact

/-- The indented text. -/
def prettyText (j : Json) : String := String.ofList (j.indented 0)

end ViewEngine.Json
