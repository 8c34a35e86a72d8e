import ViewEngine.Document.Node

/-!
# Actions

An instruction of a document. What it does hangs on its type; which of its other fields matter hangs on
that, and all of them are optional.
-/

namespace ViewEngine

/-- An instruction. -/
structure Action where
  type : String
  screen : Option String := none
  params : Option Fields := none
  endpoint : Option String := none
  /-- Where the answer of an endpoint is stored. -/
  resultKey : Option String := none
  key : Option String := none
  value : Option Value := none
  event : Option String := none
  payload : Option Fields := none
  /-- The steps of a sequence. -/
  actions : Option (List Action) := none
  binding : Option String := none
deriving Inhabited

namespace Action

/-- The fields of an action read so far; a field that was null is present without content. -/
structure Draft where
  type : Option String := none
  screen : Option (Option String) := none
  params : Option (Option Fields) := none
  endpoint : Option (Option String) := none
  resultKey : Option (Option String) := none
  key : Option (Option String) := none
  value : Option (Option Value) := none
  event : Option (Option String) := none
  payload : Option (Option Fields) := none
  actions : Option (Option (List Action)) := none
  binding : Option (Option String) := none

/-- The action, if it has a type. -/
def Draft.action? (d : Draft) : Option Action :=
  d.type.map fun type =>
    { type
      screen := d.screen.join
      params := d.params.join
      endpoint := d.endpoint.join
      resultKey := d.resultKey.join
      key := d.key.join
      value := d.value.join
      event := d.event.join
      payload := d.payload.join
      actions := d.actions.join
      binding := d.binding.join }

/-- The fields of an action, in the order in which an array gives them. -/
def fieldNames : List String :=
  ["actionType", "screen", "params", "endpoint", "resultKey", "key", "value", "event", "payload",
    "actions", "binding"]

open Json (fill? optional?) in
mutual

/-- The action that a datum is. -/
def ofJson? : Json → Option Action
  | .object members => (ofMembers? members).bind Draft.action?
  | .array items => (ofItems? fieldNames items).bind Draft.action?
  | _ => none

def ofMembers? : List (String × Json) → Option Draft
  | [] => some {}
  | (key, j) :: rest => do
    let d ← ofMembers? rest
    put? key j d

def ofItems? : List String → List Json → Option Draft
  | _, [] => some {}
  | [], _ :: _ => none
  | name :: names, j :: rest => do
    let d ← ofItems? names rest
    put? name j d

/-- Adds a field to a draft. -/
def put? (name : String) (j : Json) (d : Draft) : Option Draft :=
  match name with
  | "actionType" => (fill? d.type j.text?).map fun type => { d with type }
  | "screen" => (fill? d.screen (optional? Json.text? j)).map fun screen => { d with screen }
  | "params" => (fill? d.params (optional? Json.fields? j)).map fun params => { d with params }
  | "endpoint" =>
    (fill? d.endpoint (optional? Json.text? j)).map fun endpoint => { d with endpoint }
  | "resultKey" =>
    (fill? d.resultKey (optional? Json.text? j)).map fun resultKey => { d with resultKey }
  | "key" => (fill? d.key (optional? Json.text? j)).map fun key => { d with key }
  | "value" => (fill? d.value (optional? Value.read? j)).map fun value => { d with value }
  | "event" => (fill? d.event (optional? Json.text? j)).map fun event => { d with event }
  | "payload" => (fill? d.payload (optional? Json.fields? j)).map fun payload => { d with payload }
  | "actions" =>
    let actions? := match j with
      | .null => some none
      | .array items => (ofList? items).map some
      | _ => none
    (fill? d.actions actions?).map fun actions => { d with actions }
  | "binding" => (fill? d.binding (optional? Json.text? j)).map fun binding => { d with binding }
  | _ => some d

def ofList? : List Json → Option (List Action)
  | [] => some []
  | j :: rest => do
    let action ← ofJson? j
    let actions ← ofList? rest
    pure (action :: actions)

end

mutual

/-- The action as data, with its fields in order and without those it does not have. -/
def toJson : Action → Json
  | ⟨type, screen, params, endpoint, resultKey, key, value, event, payload, actions, binding⟩ =>
    .object (("actionType", .string type) :: member? "screen" (screen.map .string)
      ++ member? "params" (params.map Table.toJson)
      ++ member? "endpoint" (endpoint.map .string)
      ++ member? "resultKey" (resultKey.map .string)
      ++ member? "key" (key.map .string)
      ++ member? "value" (value.map Value.toJson)
      ++ member? "event" (event.map .string)
      ++ member? "payload" (payload.map Table.toJson)
      ++ member? "actions" (actionsJson? actions)
      ++ member? "binding" (binding.map .string))

def actionsJson? : Option (List Action) → Option Json
  | none => none
  | some actions => some (.array (listJson actions))

def listJson : List Action → List Json
  | [] => []
  | action :: actions => toJson action :: listJson actions

end

/-- The action that bytes spell. -/
def decode? [NumberReader] (bytes : List UInt8) : Option Action := (Json.read? bytes).bind ofJson?

/-- The action that an object is. -/
def ofValue? (v : Value) : Option Action :=
  match v with
  | .object _ => ofJson? v.toJson
  | _ => none

end Action

/-- A prop that is an action. -/
def Node.actionProp? (n : Node) (key : String) : Option Action :=
  (n.prop? key).bind Action.ofValue?

end ViewEngine
