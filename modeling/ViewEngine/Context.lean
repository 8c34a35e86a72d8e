import ViewEngine.Transform

/-!
# Contexts

A context is a chain of scopes, the own one first. A read looks for a key in the own scope and then in
those around it; a write only ever changes the own scope. So what can be read is one table,
`Context.allData`, in which nearer scopes win.

Bindings are paths into that table: `$` is all of it, `$.a.b.1` goes through objects by key and through
arrays by index, and ` | ` adds transforms.
-/

namespace ViewEngine

/-- A chain of scopes. -/
structure Context where
  /-- The bindings of the innermost scope. -/
  own : Fields
  /-- The scopes around it, from the inside out. -/
  outer : List Fields := []

namespace Context

/-- A context inside `c` with the given bindings. -/
def child (c : Context) (bindings : Fields) : Context := ⟨bindings, c.own :: c.outer⟩

/-- The context around `c`, if there is one. -/
def parent? (c : Context) : Option Context :=
  match c.outer with
  | [] => none
  | own :: outer => some ⟨own, outer⟩

/-- Binds a key in the own scope. -/
def set (c : Context) (key : String) (value : Value) : Context :=
  { c with own := c.own.insert key value }

/-- The own binding of a key. -/
def get? (c : Context) (key : String) : Option Value := c.own.get? key

/-- Everything that can be read, nearer scopes winning. -/
def allData (c : Context) : Fields :=
  (c.own :: c.outer).foldr Table.overlay []

end Context

/-- The value of a key in the nearest scope that binds it. -/
def findBinding? (key : String) : List Fields → Option Value
  | [] => none
  | scope :: rest =>
    match scope.get? key with
    | some v => some v
    | none => findBinding? key rest

/-- The value inside `v` at a path: objects by key, arrays by index, nothing inside other values. -/
def Value.dig? : Value → List (List Char) → Option Value
  | v, [] => some v
  | .object fields, key :: path =>
    (Table.get? fields (String.ofList key)).bind (·.dig? path)
  | .array items, key :: path => do
    let index ← readNatBelow? UInt64.size key
    let item ← items[index]?
    item.dig? path
  | _, _ :: _ => none

/-- The separator of transforms. -/
def pipe : List Char := [' ', '|', ' ']

/-- The components of a dotted path; empty ones do not count. -/
def pathComponents (path : List Char) : List (List Char) :=
  (splitAt ['.'] path).filter (· ≠ [])

namespace Context

/-- The value at a path of components. The first one picks the scope, for good. -/
def lookup? (c : Context) : List (List Char) → Option Value
  | [] => none
  | key :: path => (findBinding? (String.ofList key) (c.own :: c.outer)).bind (·.dig? path)

/-- The value of a path without transforms. -/
def resolvePlain? (c : Context) (path : List Char) : Option Value :=
  match path with
  | ['$'] => some (.object c.allData)
  | '$' :: '.' :: rest => c.lookup? (pathComponents rest)
  | '$' :: rest => c.lookup? (pathComponents rest)
  | _ => none

/-- Applies stages from left to right. -/
def applyStages : List (List Char) → Option Value → Except Fault (Option Value)
  | [], value => .ok value
  | stage :: stages, value => do
    let value ← applyStage (trim stage) value
    applyStages stages value

/-- The value of a path with its transforms; absent if the path leads nowhere. -/
def resolve (c : Context) (path : List Char) : Except Fault (Option Value) :=
  match splitAt pipe (trim path) with
  | [] => .ok none
  | [plain] => .ok (c.resolvePlain? plain)
  | base :: stages => applyStages stages (c.resolvePlain? (trim base))

/-- An authored text for display. A binding gives the text of its value, or nothing if it leads
nowhere; `\$` at the start stands for a dollar sign; everything else stands for itself. -/
def resolveString (c : Context) (literal : String) : Except Fault String :=
  match trim literal.toList with
  | '\\' :: '$' :: rest => .ok (String.ofList ('$' :: rest))
  | '$' :: rest => do
    let value ← c.resolve ('$' :: rest)
    pure ((value.map Value.display).getD "")
  | _ => .ok literal

/-- The text, after any white space, starts with a dollar sign. -/
def isBinding (s : List Char) : Bool := (trimStart s).head? = some '$'

/-- An authored value: a text that is a binding gives its value, or null if it leads nowhere. Only the
value itself is looked at, not what an array or object holds. -/
def resolveValue (c : Context) (value : Value) : Except Fault Value :=
  match value with
  | .string s =>
    if isBinding s.toList then do
      let found ← c.resolve s.toList
      pure (found.getD .null)
    else .ok value
  | _ => .ok value

/-- The fields of an object, or none. -/
def fieldsOf (v : Option Value) : Fields := ((v.bind Value.object?).getD [])

/-- Writes a value back through a binding, as an input field does. One component is a key of the own
scope; two are a key of an object in the own scope, made if need be; of more the last is a key of the
own scope. -/
def setBinding (c : Context) (path : List Char) (value : Value) : Context :=
  match dropStart? ['$', '.'] (trim path) with
  | none => c
  | some rest =>
    match pathComponents rest with
    | [] => c
    | [key] => c.set (String.ofList key) value
    | [outer, key] =>
      let inner := fieldsOf (c.get? (String.ofList outer))
      c.set (String.ofList outer) (.object (inner.insert (String.ofList key) value))
    | components => c.set (String.ofList (components.getLastD [])) value

end Context

end ViewEngine
