import ViewEngine.Document.Action
import ViewEngine.Document.Component
import ViewEngine.Document.Tab
import ViewEngine.Proofs.Document.Fields
import Mathlib.Tactic.MkIffOfInductiveProp

/-!
# The typed documents as records

Which reader belongs to which field of a node, an action, a component and a tab. For each of them there is
one statement of what it is to be decoded (`ofJson?_eq_some`): the datum is a record whose fields are
distinct and can be read, and what they are is what the document holds.
-/

namespace ViewEngine

open Json (fill? fill?_none fill?_eq_some_iff slot? slot?_none slot?_some list? optional? text? texts?
  fields? Distinct ReadsFields)

/-! ## Nodes -/

namespace Node

theorem ofList?_eq (items : List Json) : ofList? items = items.mapM ofJson? := by
  induction items with
  | nil => rfl
  | cons j rest ih => rw [ofList?, List.mapM_cons, ih]

/-- The draft holds what is found under the names of the fields. -/
@[mk_iff]
structure Draft.Holds (d : Draft) (get : String → Option Json) : Prop where
  type : slot? text? (get "type") = some d.type
  id : slot? (optional? text?) (get "id") = some d.id
  style : slot? (optional? text?) (get "style") = some d.style
  inlineStyle : slot? (optional? fields?) (get "inlineStyle") = some d.inlineStyle
  condition : slot? (optional? text?) (get "condition") = some d.condition
  children : slot? (optional? (list? ofJson?)) (get "children") = some d.children
  props : slot? (optional? fields?) (get "props") = some d.props

/-- The draft before a field was put in. -/
def Draft.without (key : String) (d : Draft) : Draft :=
  match key with
  | "type" => { d with type := none }
  | "id" => { d with id := none }
  | "style" => { d with style := none }
  | "inlineStyle" => { d with inlineStyle := none }
  | "condition" => { d with condition := none }
  | "children" => { d with children := none }
  | "props" => { d with props := none }
  | _ => d

theorem put?_children (j : Json) (d : Draft) :
    put? "children" j d =
      (fill? d.children (optional? (list? ofJson?) j)).map fun children => { d with children } := by
  cases j <;> simp [put?, optional?, list?, ofList?_eq]

theorem put?_of_not_mem {key : String} (j : Json) (d : Draft) (h : key ∉ fieldNames) :
    put? key j d = some d := by
  simp only [fieldNames, List.mem_cons, List.not_mem_nil, or_false, not_or] at h
  unfold put?
  split <;> simp_all

theorem holds_put? {key : String} {j : Json} {get : String → Option Json} {d : Draft}
    (hkey : key ∈ fieldNames) :
    (∃ e : Draft, e.Holds get ∧ put? key j e = some d) ↔
      get key = none ∧ d.Holds fun name => if key = name then some j else get name := by
  simp only [fieldNames, List.mem_cons, List.not_mem_nil, or_false] at hkey
  constructor
  · rintro ⟨e, he, hput⟩
    rcases hkey with rfl | rfl | rfl | rfl | rfl | rfl | rfl
    all_goals
      simp only [↓put?_children, put?, Option.map_eq_some_iff, fill?_eq_some_iff] at hput
      obtain ⟨x, ⟨hslot, hx⟩, rfl⟩ := hput
      simp_all [Draft.holds_iff]
  · rintro ⟨hnone, hd⟩
    refine ⟨d.without key, ?_⟩
    cases d
    rcases hkey with rfl | rfl | rfl | rfl | rfl | rfl | rfl
    all_goals
      simp only [Draft.holds_iff, String.reduceEq, if_true, if_false, slot?_some] at hd
      simp only [↓put?_children, put?, Draft.holds_iff, Draft.without, fill?_none, hd, hnone, slot?_none,
        Option.map_some, and_self]

theorem readsFields : ReadsFields fieldNames ({} : Draft) put? Draft.Holds where
  start {d} := by
    cases d
    simp [Draft.holds_iff, eq_comm]
  congr h hd := by
    simp only [fieldNames, List.forall_mem_cons] at h
    simpa only [Draft.holds_iff, h] using hd
  put := holds_put?
  skip := put?_of_not_mem _ _

theorem ofMembers?_eq (members : List (String × Json)) :
    ofMembers? members = members.foldrM (fun e d => put? e.1 e.2 d) {} := by
  induction members with
  | nil => rfl
  | cons e rest ih => rw [ofMembers?, ih, List.foldrM_cons]

theorem ofItems?_eq (names : List String) (items : List Json) :
    ofItems? names items = if items.length ≤ names.length then ofMembers? (names.zip items) else none := by
  induction items generalizing names with
  | nil => cases names <;> rfl
  | cons j rest ih =>
    cases names with
    | nil => rfl
    | cons name names =>
      rw [ofItems?, ih, List.zip_cons_cons, ofMembers?]
      simp only [List.length_cons, Nat.add_le_add_iff_right]
      split <;> rfl

theorem ofJson?_eq (j : Json) :
    ofJson? j = (j.record? fieldNames).bind fun fields => (ofMembers? fields).bind Draft.node? := by
  cases j with
  | object members => rw [ofJson?]; rfl
  | array items =>
    rw [ofJson?, ofItems?_eq, Json.record?]
    split <;> rfl
  | _ => rfl

/-- The node is what `get` finds under the names of its fields. -/
def FoundBy (n : Node) (get : String → Option Json) : Prop :=
  ∃ d : Draft, d.Holds get ∧ d.node? = some n

theorem ofJson?_eq_some {j : Json} {n : Node} :
    ofJson? j = some n ↔ ∃ fields, j.record? fieldNames = some fields ∧ Distinct fieldNames fields ∧
      n.FoundBy (Table.get? fields) := by
  simp only [ofJson?_eq, ofMembers?_eq, Option.bind_eq_some_iff, readsFields.foldrM_eq_some, and_assoc,
    exists_and_left, FoundBy]

end Node

/-! ## Actions -/

namespace Action

theorem ofList?_eq (items : List Json) : ofList? items = items.mapM ofJson? := by
  induction items with
  | nil => rfl
  | cons j rest ih => rw [ofList?, List.mapM_cons, ih]

/-- The draft holds what is found under the names of the fields. -/
@[mk_iff]
structure Draft.Holds (d : Draft) (get : String → Option Json) : Prop where
  type : slot? text? (get "actionType") = some d.type
  screen : slot? (optional? text?) (get "screen") = some d.screen
  params : slot? (optional? fields?) (get "params") = some d.params
  endpoint : slot? (optional? text?) (get "endpoint") = some d.endpoint
  resultKey : slot? (optional? text?) (get "resultKey") = some d.resultKey
  key : slot? (optional? text?) (get "key") = some d.key
  value : slot? (optional? Value.read?) (get "value") = some d.value
  event : slot? (optional? text?) (get "event") = some d.event
  payload : slot? (optional? fields?) (get "payload") = some d.payload
  actions : slot? (optional? (list? ofJson?)) (get "actions") = some d.actions
  binding : slot? (optional? text?) (get "binding") = some d.binding

/-- The draft before a field was put in. -/
def Draft.without (key : String) (d : Draft) : Draft :=
  match key with
  | "actionType" => { d with type := none }
  | "screen" => { d with screen := none }
  | "params" => { d with params := none }
  | "endpoint" => { d with endpoint := none }
  | "resultKey" => { d with resultKey := none }
  | "key" => { d with key := none }
  | "value" => { d with value := none }
  | "event" => { d with event := none }
  | "payload" => { d with payload := none }
  | "actions" => { d with actions := none }
  | "binding" => { d with binding := none }
  | _ => d

theorem put?_actions (j : Json) (d : Draft) :
    put? "actions" j d =
      (fill? d.actions (optional? (list? ofJson?) j)).map fun actions => { d with actions } := by
  cases j <;> simp [put?, optional?, list?, ofList?_eq]

theorem put?_of_not_mem {key : String} (j : Json) (d : Draft) (h : key ∉ fieldNames) :
    put? key j d = some d := by
  simp only [fieldNames, List.mem_cons, List.not_mem_nil, or_false, not_or] at h
  unfold put?
  split <;> simp_all

theorem holds_put? {key : String} {j : Json} {get : String → Option Json} {d : Draft}
    (hkey : key ∈ fieldNames) :
    (∃ e : Draft, e.Holds get ∧ put? key j e = some d) ↔
      get key = none ∧ d.Holds fun name => if key = name then some j else get name := by
  simp only [fieldNames, List.mem_cons, List.not_mem_nil, or_false] at hkey
  constructor
  · rintro ⟨e, he, hput⟩
    rcases hkey with rfl | rfl | rfl | rfl | rfl | rfl | rfl | rfl | rfl | rfl | rfl
    all_goals
      simp only [↓put?_actions, put?, Option.map_eq_some_iff, fill?_eq_some_iff] at hput
      obtain ⟨x, ⟨hslot, hx⟩, rfl⟩ := hput
      simp_all [Draft.holds_iff]
  · rintro ⟨hnone, hd⟩
    refine ⟨d.without key, ?_⟩
    cases d
    rcases hkey with rfl | rfl | rfl | rfl | rfl | rfl | rfl | rfl | rfl | rfl | rfl
    all_goals
      simp only [Draft.holds_iff, String.reduceEq, if_true, if_false, slot?_some] at hd
      simp only [↓put?_actions, put?, Draft.holds_iff, Draft.without, fill?_none, hd, hnone, slot?_none,
        Option.map_some, and_self]

theorem readsFields : ReadsFields fieldNames ({} : Draft) put? Draft.Holds where
  start {d} := by
    cases d
    simp [Draft.holds_iff, eq_comm]
  congr h hd := by
    simp only [fieldNames, List.forall_mem_cons] at h
    simpa only [Draft.holds_iff, h] using hd
  put := holds_put?
  skip := put?_of_not_mem _ _

theorem ofMembers?_eq (members : List (String × Json)) :
    ofMembers? members = members.foldrM (fun e d => put? e.1 e.2 d) {} := by
  induction members with
  | nil => rfl
  | cons e rest ih => rw [ofMembers?, ih, List.foldrM_cons]

theorem ofItems?_eq (names : List String) (items : List Json) :
    ofItems? names items = if items.length ≤ names.length then ofMembers? (names.zip items) else none := by
  induction items generalizing names with
  | nil => cases names <;> rfl
  | cons j rest ih =>
    cases names with
    | nil => rfl
    | cons name names =>
      rw [ofItems?, ih, List.zip_cons_cons, ofMembers?]
      simp only [List.length_cons, Nat.add_le_add_iff_right]
      split <;> rfl

theorem ofJson?_eq (j : Json) :
    ofJson? j = (j.record? fieldNames).bind fun fields => (ofMembers? fields).bind Draft.action? := by
  cases j with
  | object members => rw [ofJson?]; rfl
  | array items =>
    rw [ofJson?, ofItems?_eq, Json.record?]
    split <;> rfl
  | _ => rfl

/-- The action is what `get` finds under the names of its fields. -/
def FoundBy (a : Action) (get : String → Option Json) : Prop :=
  ∃ d : Draft, d.Holds get ∧ d.action? = some a

theorem ofJson?_eq_some {j : Json} {a : Action} :
    ofJson? j = some a ↔ ∃ fields, j.record? fieldNames = some fields ∧ Distinct fieldNames fields ∧
      a.FoundBy (Table.get? fields) := by
  simp only [ofJson?_eq, ofMembers?_eq, Option.bind_eq_some_iff, readsFields.foldrM_eq_some, and_assoc,
    exists_and_left, FoundBy]

end Action

/-! ## Components -/

namespace Component

/-- The fields of a component, in the order in which an array gives them. -/
def fieldNames : List String := ["parameters", "body"]

/-- The draft holds what is found under the names of the fields. -/
@[mk_iff]
structure Draft.Holds (d : Draft) (get : String → Option Json) : Prop where
  parameters : slot? texts? (get "parameters") = some d.parameters
  body : slot? Node.ofJson? (get "body") = some d.body

/-- The draft before a field was put in. -/
def Draft.without (key : String) (d : Draft) : Draft :=
  match key with
  | "parameters" => { d with parameters := none }
  | "body" => { d with body := none }
  | _ => d

theorem put?_of_not_mem {key : String} (j : Json) (d : Draft) (h : key ∉ fieldNames) :
    d.put? (key, j) = some d := by
  simp only [fieldNames, List.mem_cons, List.not_mem_nil, or_false, not_or] at h
  unfold Draft.put?
  split <;> simp_all

theorem holds_put? {key : String} {j : Json} {get : String → Option Json} {d : Draft}
    (hkey : key ∈ fieldNames) :
    (∃ e : Draft, e.Holds get ∧ e.put? (key, j) = some d) ↔
      get key = none ∧ d.Holds fun name => if key = name then some j else get name := by
  simp only [fieldNames, List.mem_cons, List.not_mem_nil, or_false] at hkey
  constructor
  · rintro ⟨e, he, hput⟩
    rcases hkey with rfl | rfl
    all_goals
      simp only [Draft.put?, Option.map_eq_some_iff, fill?_eq_some_iff] at hput
      obtain ⟨x, ⟨hslot, hx⟩, rfl⟩ := hput
      simp_all [Draft.holds_iff]
  · rintro ⟨hnone, hd⟩
    refine ⟨d.without key, ?_⟩
    cases d
    rcases hkey with rfl | rfl
    all_goals
      simp only [Draft.holds_iff, String.reduceEq, if_true, if_false, slot?_some] at hd
      simp only [Draft.put?, Draft.holds_iff, Draft.without, fill?_none, hd, hnone, slot?_none,
        Option.map_some, and_self]

theorem readsFields :
    ReadsFields fieldNames ({} : Draft) (fun key j d => d.put? (key, j)) Draft.Holds where
  start {d} := by
    cases d
    simp [Draft.holds_iff, eq_comm]
  congr h hd := by
    simp only [fieldNames, List.forall_mem_cons] at h
    simpa only [Draft.holds_iff, h] using hd
  put := holds_put?
  skip := put?_of_not_mem _ _

/-- The component is what `get` finds under the names of its fields. -/
def FoundBy (c : Component) (get : String → Option Json) : Prop :=
  Draft.Holds ⟨some c.parameters, some c.body⟩ get

theorem ofJson?_eq_some {j : Json} {c : Component} :
    ofJson? j = some c ↔ ∃ fields, j.record? fieldNames = some fields ∧ Distinct fieldNames fields ∧
      c.FoundBy (Table.get? fields) := by
  have hfold (fields : List (String × Json)) (d : Draft) : fields.foldlM Draft.put? {} = some d ↔
      Distinct fieldNames fields ∧ d.Holds (Table.get? fields) := readsFields.foldlM_eq_some
  have hdraft (d : Draft) : (∃ parameters, d.parameters = some parameters ∧ ∃ body, d.body = some body ∧
      Component.mk parameters body = c) ↔ d = ⟨some c.parameters, some c.body⟩ := by
    cases c
    cases d
    simp
  simp only [ofJson?, Option.bind_eq_bind, Option.bind_eq_some_iff, Option.pure_def, Option.some.injEq,
    hfold, hdraft, and_assoc, exists_and_left, exists_eq_right, fieldNames, FoundBy]

end Component

/-! ## Tabs -/

namespace Tab

/-- The fields of a tab, in the order in which an array gives them. -/
def fieldNames : List String := ["title", "icon", "screen"]

/-- The draft holds what is found under the names of the fields. -/
@[mk_iff]
structure Draft.Holds (d : Draft) (get : String → Option Json) : Prop where
  title : slot? text? (get "title") = some d.title
  icon : slot? text? (get "icon") = some d.icon
  screen : slot? text? (get "screen") = some d.screen

/-- The draft before a field was put in. -/
def Draft.without (key : String) (d : Draft) : Draft :=
  match key with
  | "title" => { d with title := none }
  | "icon" => { d with icon := none }
  | "screen" => { d with screen := none }
  | _ => d

theorem put?_of_not_mem {key : String} (j : Json) (d : Draft) (h : key ∉ fieldNames) :
    d.put? (key, j) = some d := by
  simp only [fieldNames, List.mem_cons, List.not_mem_nil, or_false, not_or] at h
  unfold Draft.put?
  split <;> simp_all

theorem holds_put? {key : String} {j : Json} {get : String → Option Json} {d : Draft}
    (hkey : key ∈ fieldNames) :
    (∃ e : Draft, e.Holds get ∧ e.put? (key, j) = some d) ↔
      get key = none ∧ d.Holds fun name => if key = name then some j else get name := by
  simp only [fieldNames, List.mem_cons, List.not_mem_nil, or_false] at hkey
  constructor
  · rintro ⟨e, he, hput⟩
    rcases hkey with rfl | rfl | rfl
    all_goals
      simp only [Draft.put?, Option.map_eq_some_iff, fill?_eq_some_iff] at hput
      obtain ⟨x, ⟨hslot, hx⟩, rfl⟩ := hput
      simp_all [Draft.holds_iff]
  · rintro ⟨hnone, hd⟩
    refine ⟨d.without key, ?_⟩
    cases d
    rcases hkey with rfl | rfl | rfl
    all_goals
      simp only [Draft.holds_iff, String.reduceEq, if_true, if_false, slot?_some] at hd
      simp only [Draft.put?, Draft.holds_iff, Draft.without, fill?_none, hd, hnone, slot?_none,
        Option.map_some, and_self]

theorem readsFields :
    ReadsFields fieldNames ({} : Draft) (fun key j d => d.put? (key, j)) Draft.Holds where
  start {d} := by
    cases d
    simp [Draft.holds_iff, eq_comm]
  congr h hd := by
    simp only [fieldNames, List.forall_mem_cons] at h
    simpa only [Draft.holds_iff, h] using hd
  put := holds_put?
  skip := put?_of_not_mem _ _

/-- The tab is what `get` finds under the names of its fields. -/
def FoundBy (t : Tab) (get : String → Option Json) : Prop :=
  Draft.Holds ⟨some t.title, some t.icon, some t.screen⟩ get

theorem ofJson?_eq_some {j : Json} {t : Tab} :
    ofJson? j = some t ↔ ∃ fields, j.record? fieldNames = some fields ∧ Distinct fieldNames fields ∧
      t.FoundBy (Table.get? fields) := by
  have hfold (fields : List (String × Json)) (d : Draft) : fields.foldlM Draft.put? {} = some d ↔
      Distinct fieldNames fields ∧ d.Holds (Table.get? fields) := readsFields.foldlM_eq_some
  have hdraft (d : Draft) : (∃ title, d.title = some title ∧ ∃ icon, d.icon = some icon ∧
      ∃ screen, d.screen = some screen ∧ Tab.mk title icon screen = t) ↔
      d = ⟨some t.title, some t.icon, some t.screen⟩ := by
    cases t
    cases d
    simp
  simp only [ofJson?, Option.bind_eq_bind, Option.bind_eq_some_iff, Option.pure_def, Option.some.injEq,
    hfold, hdraft, and_assoc, exists_and_left, exists_eq_right, fieldNames, FoundBy]

end Tab

end ViewEngine
