import ViewEngine.Document.Shape
import ViewEngine.Value.Coercion

/-!
# Nodes

A node of an authored view tree. Its props are values; what a prop means as a label, a template or an
action is read off it only when asked for, and a prop that cannot be read so counts as absent.
-/

namespace ViewEngine

/-- A node of a view tree. -/
structure Node where
  type : String
  id : Option String := none
  /-- The name of a style preset. -/
  style : Option String := none
  /-- Overrides of the preset. -/
  inlineStyle : Option Fields := none
  condition : Option String := none
  children : Option (List Node) := none
  props : Option Fields := none
deriving Inhabited

namespace Node

/-- The fields of a node read so far; a field that was null is present without content. -/
structure Draft where
  type : Option String := none
  id : Option (Option String) := none
  style : Option (Option String) := none
  inlineStyle : Option (Option Fields) := none
  condition : Option (Option String) := none
  children : Option (Option (List Node)) := none
  props : Option (Option Fields) := none

/-- The node, if it has a type. -/
def Draft.node? (d : Draft) : Option Node :=
  d.type.map fun type =>
    { type
      id := d.id.join
      style := d.style.join
      inlineStyle := d.inlineStyle.join
      condition := d.condition.join
      children := d.children.join
      props := d.props.join }

/-- The fields of a node, in the order in which an array gives them. -/
def fieldNames : List String :=
  ["type", "id", "style", "inlineStyle", "condition", "children", "props"]

open Json (fill? optional?) in
mutual

/-- The node that a datum is. -/
def ofJson? : Json → Option Node
  | .object members => (ofMembers? members).bind Draft.node?
  | .array items => (ofItems? fieldNames items).bind Draft.node?
  | _ => none

def ofMembers? : List (String × Json) → Option Draft
  | [] => some {}
  | (key, j) :: rest => do
    let d ← ofMembers? rest
    put? key j d

def ofItems? : List String → List Json → Option Draft
  | _, [] => some {}
  | [], _ :: _ => none
  | name :: names, j :: rest => do
    let d ← ofItems? names rest
    put? name j d

/-- Adds a field to a draft. -/
def put? (key : String) (j : Json) (d : Draft) : Option Draft :=
  match key with
  | "type" => (fill? d.type j.text?).map fun type => { d with type }
  | "id" => (fill? d.id (optional? Json.text? j)).map fun id => { d with id }
  | "style" => (fill? d.style (optional? Json.text? j)).map fun style => { d with style }
  | "inlineStyle" =>
    (fill? d.inlineStyle (optional? Json.fields? j)).map fun inlineStyle => { d with inlineStyle }
  | "condition" =>
    (fill? d.condition (optional? Json.text? j)).map fun condition => { d with condition }
  | "children" =>
    let children? := match j with
      | .null => some none
      | .array items => (ofList? items).map some
      | _ => none
    (fill? d.children children?).map fun children => { d with children }
  | "props" => (fill? d.props (optional? Json.fields? j)).map fun props => { d with props }
  | _ => some d

def ofList? : List Json → Option (List Node)
  | [] => some []
  | j :: rest => do
    let node ← ofJson? j
    let nodes ← ofList? rest
    pure (node :: nodes)

end

mutual

/-- The node as data, with its fields in order and without those it does not have. -/
def toJson : Node → Json
  | ⟨type, id, style, inlineStyle, condition, children, props⟩ =>
    .object (("type", .string type) :: member? "id" (id.map .string)
      ++ member? "style" (style.map .string)
      ++ member? "inlineStyle" (inlineStyle.map Table.toJson)
      ++ member? "condition" (condition.map .string)
      ++ member? "children" (childrenJson? children)
      ++ member? "props" (props.map Table.toJson))

def childrenJson? : Option (List Node) → Option Json
  | none => none
  | some nodes => some (.array (listJson nodes))

def listJson : List Node → List Json
  | [] => []
  | node :: nodes => toJson node :: listJson nodes

end

/-- The node that bytes spell. -/
def decode? [NumberReader] (bytes : List UInt8) : Option Node := (Json.read? bytes).bind ofJson?

/-- The node that an object is. -/
def ofValue? (v : Value) : Option Node :=
  match v with
  | .object _ => ofJson? v.toJson
  | _ => none

/-! ## Props -/

/-- The children; none count as an empty list. -/
def childNodes (n : Node) : List Node := n.children.getD []

def prop? (n : Node) (key : String) : Option Value := (n.props.getD []).get? key

/-- A prop taken for a text. -/
def textProp? (n : Node) (key : String) : Option String := (n.prop? key).bind Value.asText?

/-- A prop that is a node. -/
def nodeProp? (n : Node) (key : String) : Option Node := (n.prop? key).bind ofValue?

/-- A prop that is an array of nodes; items that are not nodes are dropped. -/
def nodesProp? (n : Node) (key : String) : Option (List Node) :=
  ((n.prop? key).bind Value.array?).map fun items => items.filterMap ofValue?

end Node

end ViewEngine
