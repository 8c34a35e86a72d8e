import ViewEngine.Context
import ViewEngine.Source

/-!
# Components

Named subtrees with parameters. Using one means expanding its body in a scope of its own that binds the
arguments; arguments that it does not declare are bound as well, and declared ones that are not given
stay unbound.
-/

namespace ViewEngine

/-- A subtree with parameters. -/
structure Component where
  parameters : List String
  body : Node
deriving Inhabited

namespace Component

/-- The fields of a component read so far. -/
structure Draft where
  parameters : Option (List String) := none
  body : Option Node := none

/-- Adds a field to a draft. -/
def Draft.put? (d : Draft) (field : String × Json) : Option Draft :=
  match field.1 with
  | "parameters" =>
    (Json.fill? d.parameters field.2.texts?).map fun parameters => { d with parameters }
  | "body" => (Json.fill? d.body (Node.ofJson? field.2)).map fun body => { d with body }
  | _ => some d

/-- The component that a datum is; both its fields are needed. -/
def ofJson? (j : Json) : Option Component := do
  let fields ← j.record? ["parameters", "body"]
  let d ← fields.foldlM Draft.put? {}
  pure { parameters := ← d.parameters, body := ← d.body }

/-- The component as data. -/
def toJson (c : Component) : Json :=
  .object [("parameters", .array (c.parameters.map .string)), ("body", c.body.toJson)]

/-- The components that the document of all components holds. -/
def allOfJson? (j : Json) : Option (Table Component) := do
  let fields ← j.record? ["components"]
  let components ← fields.foldlM (fun (slot : Option (Table Component)) field =>
    if field.1 = "components" then Json.fill? slot (Json.table? ofJson? field.2) else some slot) none
  components

end Component

/-- Components by name. -/
abbrev Registry := Table Component

namespace Context

/-- Values for the keys of a table, each resolved in this context. -/
def resolveAll (c : Context) : Fields → Except Fault Fields
  | [] => .ok []
  | (key, v) :: rest => do
    let v ← c.resolveValue v
    let rest ← c.resolveAll rest
    pure ((key, v) :: rest)

end Context

namespace Registry

/-- The components of a source. -/
def ofSource (source : Source) : Except DocumentError Registry :=
  source.load Component.allOfJson? Source.componentsName

/-- Loads the components of a source in place of those known, and tells how many there are now. With an
error the registry stays as it is. -/
def load (r : Registry) (source : Source) : Except DocumentError Nat × Registry :=
  match ofSource source with
  | .ok all => (.ok all.length, all)
  | .error e => (.error e, r)

/-- What may be done to a registry. -/
inductive Event where
  | load (source : Source)
  | register (name : String) (c : Component)
  | clear

/-- The registry after an event. -/
def next (r : Registry) : Event → Registry
  | .load source => (r.load source).2
  | .register name c => Table.insert r name c
  | .clear => []

/-- The body of a component and the scope it is expanded in. -/
def instantiate (r : Registry) (name : String) (arguments : Fields) (c : Context) :
    Except Fault (Option (Node × Context)) :=
  match r.get? name with
  | none => .ok none
  | some component => (c.resolveAll arguments).map fun bindings =>
    some (component.body, c.child bindings)

end Registry

end ViewEngine
