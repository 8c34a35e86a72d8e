import ViewEngine.Document.Node

/-!
# Tabs

The entries of a tab bar, kept in the prop `tabs` of a node.
-/

namespace ViewEngine

/-- An entry of a tab bar. -/
structure Tab where
  title : String
  icon : String
  screen : String
deriving DecidableEq, Inhabited

namespace Tab

/-- The fields of a tab read so far. -/
structure Draft where
  title : Option String := none
  icon : Option String := none
  screen : Option String := none

/-- Adds a field to a draft. -/
def Draft.put? (d : Draft) (field : String × Json) : Option Draft :=
  match field.1 with
  | "title" => (Json.fill? d.title field.2.text?).map fun title => { d with title }
  | "icon" => (Json.fill? d.icon field.2.text?).map fun icon => { d with icon }
  | "screen" => (Json.fill? d.screen field.2.text?).map fun screen => { d with screen }
  | _ => some d

/-- The tab that a datum is; all its fields are needed. -/
def ofJson? (j : Json) : Option Tab := do
  let fields ← j.record? ["title", "icon", "screen"]
  let d ← fields.foldlM Draft.put? {}
  pure { title := ← d.title, icon := ← d.icon, screen := ← d.screen }

/-- The tab as data. -/
def toJson (t : Tab) : Json :=
  .object [("title", .string t.title), ("icon", .string t.icon), ("screen", .string t.screen)]

/-- The tab that an object is. -/
def ofValue? (v : Value) : Option Tab :=
  match v with
  | .object _ => ofJson? v.toJson
  | _ => none

end Tab

/-- The entries of a tab bar; those that are not tabs are dropped. -/
def Node.tabsProp? (n : Node) : Option (List Tab) :=
  ((n.prop? "tabs").bind Value.array?).map fun items => items.filterMap Tab.ofValue?

end ViewEngine
