/-!
# Splitting texts

Cutting a text at a separator, either everywhere or at its first occurrence. Occurrences are found
from the left and do not overlap, so cutting everywhere leaves one part more than there are cuts.
-/

namespace ViewEngine

/-- The parts of a text between occurrences of `separator`; `skip` characters of an occurrence
already found are still to be dropped. -/
def splitFrom (separator : List Char) : Nat → List Char → List (List Char)
  | _, [] => [[]]
  | skip + 1, _ :: rest => splitFrom separator skip rest
  | 0, c :: rest =>
    if separator.isPrefixOf (c :: rest) then [] :: splitFrom separator (separator.length - 1) rest
    else match splitFrom separator 0 rest with
      | part :: parts => (c :: part) :: parts
      | [] => [[c]]

/-- The parts of a text between occurrences of a nonempty separator; at least one part. -/
def splitAt (separator : List Char) (cs : List Char) : List (List Char) :=
  splitFrom separator 0 cs

/-- What stands before and after the first occurrence of `separator`, if there is one. -/
def splitFirst? (separator : List Char) : List Char → Option (List Char × List Char)
  | [] => if separator = [] then some ([], []) else none
  | c :: rest =>
    if separator.isPrefixOf (c :: rest) then some ([], (c :: rest).drop separator.length)
    else (splitFirst? separator rest).map fun (before, after) => (c :: before, after)

/-- The rest of a text that starts with `start`. -/
def dropStart? : List Char → List Char → Option (List Char)
  | [], cs => some cs
  | _ :: _, [] => none
  | s :: start, c :: rest => if s = c then dropStart? start rest else none

/-- Lays `separator` between the parts. -/
def joinWith (separator : List Char) : List (List Char) → List Char
  | [] => []
  | [part] => part
  | part :: parts => part ++ separator ++ joinWith separator parts

end ViewEngine
