import ViewEngine.Binary64.Basic

/-!
# JSON data

JSON as a tree. Integers from `-2 ^ 63` to `2 ^ 64 - 1` are kept apart from doubles, and the members
of an object stand in the order of the text, repetitions included, until `normal?` sorts them.

A text may be well formed and yet hold a part that denotes no datum: a string with half a surrogate
pair or with bytes that are not UTF-8, a number too large for a double, an array or object nested too
deep. Such a part is read as `unreadable`. It does no harm in a member that the reader of a document
skips; everywhere else the document is refused.
-/

namespace ViewEngine

/-- A JSON datum. -/
inductive Json where
  | null
  | bool (b : Bool)
  | int (i : Int)
  | double (d : Binary64)
  | string (s : String)
  | array (items : List Json)
  | object (members : List (String × Json))
  /-- A well-formed part of a text that denotes no datum. -/
  | unreadable
deriving Inhabited

namespace Json

/-- How many arrays and objects may stand inside each other. -/
def maxDepth : Nat := 127

end Json

end ViewEngine
