import ViewEngine.Document.Shape
import ViewEngine.Value.Coercion

/-!
# Views

The tree that a screen expands to: visible nodes with their effective style and bound props. Searching,
counting and outlining all go through it in one order, a node before its children and the children from
left to right.
-/

namespace ViewEngine

/-- A node of an expanded tree. -/
structure View where
  type : String
  id : Option String := none
  style : Fields := []
  props : Fields := []
  children : List View := []
deriving Inhabited

namespace View

/-- A table as a member, left out if it is empty. -/
def tableMember (key : String) (t : Fields) : List (String × Json) :=
  if t.isEmpty then [] else [(key, Table.toJson t)]

mutual

/-- The view as data, without the id it does not have and without what is empty. -/
def toJson : View → Json
  | ⟨type, id, style, props, []⟩ =>
    .object (("type", .string type) :: member? "id" (id.map .string) ++ tableMember "style" style
      ++ tableMember "props" props)
  | ⟨type, id, style, props, view :: views⟩ =>
    .object (("type", .string type) :: member? "id" (id.map .string) ++ tableMember "style" style
      ++ tableMember "props" props ++ [("children", .array (toJson view :: listJson views))])

def listJson : List View → List Json
  | [] => []
  | view :: views => toJson view :: listJson views

end

mutual

/-- The first view with an id. -/
def find? (id : String) : View → Option View
  | ⟨type, own, style, props, children⟩ =>
    if own = some id then some ⟨type, own, style, props, children⟩ else findIn? id children

def findIn? (id : String) : List View → Option View
  | [] => none
  | view :: views => (find? id view).or (findIn? id views)

end

mutual

/-- The number of views, this one included. -/
def count : View → Nat
  | ⟨_, _, _, _, children⟩ => 1 + countAll children

def countAll : List View → Nat
  | [] => 0
  | view :: views => count view + countAll views

end

/-- The props of a view on a line; objects are not shown. -/
def propsLine : List (String × Value) → List Char
  | [] => []
  | (_, .object _) :: rest => propsLine rest
  | (key, v) :: rest => ' ' :: key.toList ++ '=' :: v.display.toList ++ propsLine rest

/-- The line of a view: its type, its id and its props. -/
def line (level : Nat) (type : String) (id : Option String) (props : Fields) : String :=
  let idText := match id with
    | some id => '#' :: id.toList
    | none => []
  String.ofList (List.replicate (2 * level) ' ' ++ type.toList ++ idText ++ propsLine props)

mutual

/-- The lines of a tree, indented by two spaces a level. -/
def outline (level : Nat) : View → List String
  | ⟨type, id, _, props, children⟩ => line level type id props :: outlineAll (level + 1) children

def outlineAll (level : Nat) : List View → List String
  | [] => []
  | view :: views => outline level view ++ outlineAll level views

end

end View

end ViewEngine
