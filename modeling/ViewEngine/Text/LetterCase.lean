import ViewEngine.Text.LetterTable

/-!
# Upper and lower case

Full case mapping of texts, by the Unicode standard and without regard to language. A letter may map to
several (`ß` to `SS`), and one mapping looks around: a capital sigma at the end of a word becomes the
final sigma.
-/

namespace ViewEngine.LetterCase

open LetterTable

/-- The mapping of one character by a table of several-letter mappings and one of runs. -/
def mapChar (special : List (Nat × List Nat)) (runs : List Run) (c : Char) : List Char :=
  match special.find? fun e => e.1 = c.toNat with
  | some e => e.2.map Char.ofNat
  | none => match runs.findSome? fun r => r.apply? c.toNat with
    | some code => [Char.ofNat code]
    | none => [c]

/-- The upper case of a character. -/
def upperChar (c : Char) : List Char :=
  if c.toNat < 128 then [c.toUpper] else mapChar upperSpecial upperRuns c

/-- The lower case of a character by itself. -/
def lowerChar (c : Char) : List Char :=
  if c.toNat < 128 then [c.toLower] else mapChar lowerSpecial lowerRuns c

/-- The upper case of a text. -/
def upper (cs : List Char) : List Char := cs.flatMap upperChar

/-- The first character that case does not pass over has case. -/
def startsCased : List Char → Bool
  | [] => false
  | c :: rest => if covers ignorable c.toNat then startsCased rest else covers cased c.toNat

/-- The lower case of the rest of a text, `before` being what precedes it, last character first. -/
def lowerAfter (before : List Char) : List Char → List Char
  | [] => []
  | c :: rest =>
    let mapped :=
      if c = 'Σ' then if startsCased before && !startsCased rest then ['ς'] else ['σ']
      else lowerChar c
    mapped ++ lowerAfter (c :: before) rest

/-- The lower case of a text. -/
def lower (cs : List Char) : List Char := lowerAfter [] cs

end ViewEngine.LetterCase
