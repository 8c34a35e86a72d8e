import ViewEngine.Value.Codec

/-!
# Shapes of documents

How the parts of a typed document are read from JSON. A record may be given as an object of its fields
or as an array of them in order. In an object, fields that the record does not have are skipped,
whatever they hold, and a field may not stand twice; in an array, fields at the end may be left out.
A null in an optional field counts as leaving it out.
-/

namespace ViewEngine.Json

/-- A text. -/
def text? : Json → Option String
  | string s => some s
  | _ => none

/-- A number, as a double. -/
def number? : Json → Option Binary64
  | int i => some (Binary64.ofInt i)
  | double d => some d
  | _ => none

/-- An object of values by key; of several with one key the last counts. -/
def fields? : Json → Option Fields
  | object members => (Value.readMembers? members).map Table.ofList
  | _ => none

/-- An array of texts. -/
def texts? : Json → Option (List String)
  | array items => items.mapM text?
  | _ => none

/-- An object whose members are all read by `read?`; of several with one key the last counts. -/
def table? {α : Type} (read? : Json → Option α) : Json → Option (Table α)
  | object members =>
    (members.mapM fun (m : String × Json) => (read? m.2).map (m.1, ·)).map Table.ofList
  | _ => none

/-- An optional part: null is none. -/
def optional? {α : Type} (read? : Json → Option α) : Json → Option (Option α)
  | null => some none
  | j => (read? j).map some

/-- The fields of a record, named. -/
def record? (names : List String) : Json → Option (List (String × Json))
  | object members => some members
  | array items => if items.length ≤ names.length then some (names.zip items) else none
  | _ => none

/-- Fills a slot that must still be empty. -/
def fill? {α : Type} (slot : Option α) (a : Option α) : Option (Option α) :=
  match slot, a with
  | none, some a => some (some a)
  | _, _ => none

end ViewEngine.Json

namespace ViewEngine

/-- A member that is left out of an object if there is nothing to write. -/
def member? (key : String) (j : Option Json) : List (String × Json) :=
  match j with
  | some j => [(key, j)]
  | none => []

/-- The fields of an object, as data. -/
def Table.toJson (t : Fields) : Json := (Value.object t).toJson

end ViewEngine
