import ViewEngine.Condition
import ViewEngine.Document.Component
import ViewEngine.Document.Depth
import ViewEngine.Theme.Basic
import ViewEngine.View

/-!
# Expansion

An authored tree becomes a view: nodes whose condition is false are left out, styles are merged, props
are bound, lists repeat their template for each item and components are replaced by their bodies.

Inside the body of a component that component is not available, so a component that uses itself is
empty where it comes up again. Each expansion of a body leaves one component fewer to expand, and between
two of them the nodes get less deep; so expansion ends for every registry.
-/

namespace ViewEngine

/-- What becomes of a prop when it is bound. -/
inductive PropRole where
  /-- Text for display: a binding that leads nowhere is the empty text. -/
  | text
  /-- A path that the host reads or writes later; kept as authored. -/
  | path
  /-- Something that expansion itself uses; an object is not shown. -/
  | structural
  /-- Any other value: a binding that leads nowhere is null. -/
  | plain
deriving DecidableEq

namespace PropRole

def ofKey (key : String) : PropRole :=
  if key ∈ ["content", "source", "placeholder", "title"] then text
  else if key ∈ ["binding", "items"] then path
  else if key ∈ ["itemTemplate", "label", "parameters"] then structural
  else plain

end PropRole

namespace Context

/-- The bound form of a prop; none if it is not shown. -/
def bindProp (c : Context) (role : PropRole) (v : Value) : Except Fault (Option Value) :=
  match role, v with
  | .text, .string s => (c.resolveString s).map fun s => some (.string s)
  | .path, _ => .ok (some v)
  | .structural, .object _ => .ok none
  | _, v => (c.resolveValue v).map some

/-- The bound props of a node. -/
def bindProps (c : Context) : Fields → Except Fault Fields
  | [] => .ok []
  | (key, v) :: rest => do
    let v ← c.bindProp (PropRole.ofKey key) v
    let rest ← c.bindProps rest
    pure (match v with
      | some v => (key, v) :: rest
      | none => rest)

/-- The scope of an item of a list. -/
def itemScope (c : Context) (index : Nat) (item : Value) : Context :=
  c.child [("index", .int (Int64.ofNat index)), ("item", item)]

end Context

namespace Node

/-- The condition of a node holds; without one it is visible. -/
def isVisible (n : Node) (c : Context) : Except Fault Bool :=
  match n.condition with
  | some condition => evaluate condition c
  | none => .ok true

/-- The items of a list: the array that its prop `items` leads to. -/
def listItems (n : Node) (c : Context) : Except Fault (List Value) :=
  match n.textProp? "items" with
  | some path => (c.resolve path.toList).map fun v => (v.bind Value.array?).getD []
  | none => .ok []

/-- The arguments that a node gives to a component. -/
def arguments (n : Node) : Fields := ((n.prop? "parameters").bind Value.object?).getD []

/-- The available component that a node names, under its name. -/
def component? (n : Node) (available : Registry) : Option (String × Component) :=
  (n.textProp? "name").bind fun name => (available.get? name).map (name, ·)

theorem length_erase_lt {n : Node} {available : Registry} {name : String} {component : Component}
    (h : n.component? available = some (name, component)) :
    (available.erase name).length < available.length := by
  obtain ⟨key, -, hget⟩ := Option.bind_eq_some_iff.1 h
  obtain ⟨c, hc, heq⟩ := Option.map_eq_some_iff.1 hget
  cases heq
  exact List.length_filter_lt_length_iff_exists.2 ⟨_, Table.mem_of_get? hc, by simp⟩

mutual

/-- The view of a node; none if its condition is false. -/
def expandWith (theme : Theme) (available : Registry) (n : Node) (c : Context) :
    Except Fault (Option View) := do
  if ← n.isVisible c then
    let props ← c.bindProps (n.props.getD [])
    let children ← expandContents theme available n c
    pure (some
      { type := n.type, id := n.id, style := theme.mergedStyle n.style n.inlineStyle, props, children })
  else pure none
termination_by (available.length, n.depth, 1)

/-- The views inside a node, by its type: the items of a list, the body of a component, the label of a
button if it has one, and otherwise the children. -/
def expandContents (theme : Theme) (available : Registry) (n : Node) (c : Context) :
    Except Fault (List View) :=
  match n.type with
  | "list" =>
    match _h : n.nodeProp? "itemTemplate" with
    | some template => do
      let items ← n.listItems c
      expandItems theme available template 0 items c
    | none => .ok []
  | "component" =>
    match _h : n.component? available with
    | some (name, component) => do
      let bindings ← c.resolveAll n.arguments
      let view ← expandWith theme (available.erase name) component.body (c.child bindings)
      pure view.toList
    | none => .ok []
  | "button" =>
    match _h : n.nodeProp? "label" with
    | some label => (expandWith theme available label c).map Option.toList
    | none => expandAll theme available n.childNodes c
  | _ => expandAll theme available n.childNodes c
termination_by (available.length, n.depth, 0)
decreasing_by
  · exact .right _ (.left _ _ (depth_nodeProp? _h))
  · exact .left _ _ (length_erase_lt _h)
  · exact .right _ (.left _ _ (depth_nodeProp? _h))
  · exact .right _ (.left _ _ (listDepth_childNodes_lt n))
  · exact .right _ (.left _ _ (listDepth_childNodes_lt n))

/-- The views of those of some nodes that are visible. -/
def expandAll (theme : Theme) (available : Registry) (nodes : List Node) (c : Context) :
    Except Fault (List View) :=
  match nodes with
  | [] => .ok []
  | n :: rest => do
    let view ← expandWith theme available n c
    let views ← expandAll theme available rest c
    pure (view.toList ++ views)
termination_by (available.length, listDepth nodes, nodes.length + 2)
decreasing_by
  · exact .right _ (.right' _ (Nat.le_max_left _ _) (Nat.lt_add_left _ Nat.one_lt_two))
  · exact .right _ (.right' _ (Nat.le_max_right _ _) (Nat.lt_succ_self _))

/-- The views of a template for each item, from the item with the given index on. -/
def expandItems (theme : Theme) (available : Registry) (template : Node) (index : Nat)
    (items : List Value) (c : Context) : Except Fault (List View) :=
  match items with
  | [] => .ok []
  | item :: rest => do
    let view ← expandWith theme available template (c.itemScope index item)
    let views ← expandItems theme available template (index + 1) rest c
    pure (view.toList ++ views)
termination_by (available.length, template.depth, items.length + 2)

end

/-- The view of a node in a context, under a theme and with the components of a registry. -/
def expand (n : Node) (theme : Theme) (registry : Registry) (c : Context) :
    Except Fault (Option View) :=
  expandWith theme registry n c

end Node

end ViewEngine
