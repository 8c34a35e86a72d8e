import ViewEngine.Value.Basic

/-!
# Results

Answers of endpoints are brought into one shape before they are stored: an envelope around the results
is taken off, and each result gets the names that documents bind to, where it only has others.
-/

namespace ViewEngine

/-- The names that documents bind to, with the names that may stand for them. -/
def resultAliases : List (String × String) :=
  [("name", "trackName"), ("id", "trackId"), ("artworkUrl100", "artworkUrl600")]

/-- Adds a name for a field that goes by another one, unless the name is taken. -/
def addAlias (fields : Fields) (aliasOf : String × String) : Fields :=
  if Table.contains fields aliasOf.1 then fields
  else match Table.get? fields aliasOf.2 with
    | some v => Table.insert fields aliasOf.1 v
    | none => fields

/-- A single result with all names that it can have. -/
def normalizeItem (v : Value) : Value :=
  match v with
  | .object fields => .object (resultAliases.foldl addAlias fields)
  | _ => v

/-- An answer in the shape in which it is stored. -/
def normalizeResult (v : Value) : Value :=
  match v with
  | .object fields =>
    match ((Table.get? fields "feed").bind Value.object?).bind (Table.get? · "results") with
    | some results => results
    | none =>
      match (Table.get? fields "results").bind Value.array? with
      | some items => .array (items.map normalizeItem)
      | none => v
  | _ => v

end ViewEngine
