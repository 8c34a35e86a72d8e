import ViewEngine.Proofs.Document.Decoding

/-!
# Documents as data

What stands inside a document, and what the datum of a document holds under the names of its fields: for
each kind of document its members (`Node.toJson_eq`, `Action.toJson_eq`), that none of them stands twice,
and that text holds them if the values in the document are finite.
-/

namespace ViewEngine

open Json (Distinct slot? slot?_some optional? fields? list?)

/-! ## Members -/

theorem get?_member? (key : String) (j : Option Json) (name : String) :
    Table.get? (member? key j) name = if key = name then j else none := by
  cases j <;> simp [member?, Table.get?]

theorem forall_mem_member? {α : Type} {p : String × Json → Prop} {key : String} {o : Option α}
    {f : α → Json} : (∀ e ∈ member? key (o.map f), p e) ↔ ∀ a, o = some a → p (key, f a) := by
  cases o <;> simp [member?]

theorem mem_member? {e : String × Json} {key : String} {j : Option Json} :
    e ∈ member? key j ↔ ∃ x, j = some x ∧ e = (key, x) := by
  cases j <;> simp [member?]

theorem keys_member?_sublist (key : String) (j : Option Json) :
    (Table.keys (member? key j)).Sublist [key] := by
  cases j <;> simp [member?, Table.keys]

theorem keys_append (s t : List (String × Json)) : Table.keys (s ++ t) = Table.keys s ++ Table.keys t :=
  List.map_append

theorem slot?_map {α : Type} {read? : Json → Option α} {f : α → Json} {o : Option α}
    (h : ∀ a, o = some a → optional? read? (f a) = some (some a)) :
    slot? (optional? read?) (o.map f) = some (o.map some) := by
  cases o with
  | none => rfl
  | some a => rw [Option.map_some, slot?_some, h a rfl, Option.map_some, Option.map_some]

theorem join_map_some {α : Type} (o : Option α) : (o.map some).join = o := by
  cases o <;> rfl

theorem optional?_fields {t : Fields} (hfinite : (Value.object t).IsFinite)
    (htabled : (Value.object t).IsTabled) : optional? fields? (Table.toJson t) = some (some t) := by
  obtain ⟨hsorted, htabled⟩ := Value.isTabled_object.1 htabled
  have hread := Value.readMembers?_toJson t (Value.isFinite_object.1 hfinite) htabled
  rw [Table.toJson, Value.toJson, optional?, fields?, hread, Option.map_some, Option.map_some,
    Table.ofList_of_sorted hsorted]
  rintro ⟨⟩

theorem optional?_value {v : Value} (hfinite : v.IsFinite) (htabled : v.IsTabled) (hnull : v ≠ .null) :
    optional? Value.read? v.toJson = some (some v) := by
  have hread := Value.read?_toJson v hfinite htabled
  have hjson : v.toJson ≠ .null := fun h => hnull (by rw [h] at hread; exact (Option.some.inj hread).symm)
  rw [Json.optional?_of_ne_null hjson, hread, Option.map_some]

theorem mapM_map_toJson {α : Type} {read? : Json → Option α} {toJson : α → Json} {as : List α}
    (h : ∀ a ∈ as, read? (toJson a) = some a) : (as.map toJson).mapM read? = some as := by
  induction as with
  | nil => rfl
  | cons a as ih =>
    obtain ⟨ha, has⟩ := List.forall_mem_cons.1 h
    rw [List.map_cons, List.mapM_cons, ha, ih has]
    rfl

theorem optional?_list {α : Type} {read? : Json → Option α} {toJson : α → Json} {as : List α}
    (h : ∀ a ∈ as, read? (toJson a) = some a) :
    optional? (list? read?) (.array (as.map toJson)) = some (some as) := by
  rw [optional?, list?, mapM_map_toJson h, Option.map_some]
  rintro ⟨⟩

theorem isPrintable_string (s : String) : (Json.string s).IsPrintable :=
  Json.isPrintable_leaf rfl trivial nofun

/-! ## Nodes -/

namespace Node

/-- What holds of a node if it holds of its children holds of every node. -/
@[elab_as_elim]
theorem induction {motive : Node → Prop} (node : ∀ n, (∀ m ∈ n.childNodes, motive m) → motive n) (n : Node) :
    motive n :=
  node n fun m _ => induction node m
termination_by n.depth
decreasing_by exact depth_lt_of_mem_childNodes ‹_›

mutual

/-- A node and the nodes inside it. -/
def parts : Node → List Node
  | ⟨type, id, style, inlineStyle, condition, children, props⟩ =>
    ⟨type, id, style, inlineStyle, condition, children, props⟩ :: childParts children

def childParts : Option (List Node) → List Node
  | none => []
  | some nodes => listParts nodes

def listParts : List Node → List Node
  | [] => []
  | n :: nodes => parts n ++ listParts nodes

end

theorem mem_listParts {m : Node} {nodes : List Node} : m ∈ listParts nodes ↔ ∃ n ∈ nodes, m ∈ n.parts := by
  induction nodes with
  | nil => simp [listParts]
  | cons n nodes ih => simp [listParts, ih]

theorem mem_parts {m n : Node} : m ∈ n.parts ↔ m = n ∨ ∃ k ∈ n.childNodes, m ∈ k.parts := by
  obtain ⟨_, _, _, _, _, children, _⟩ := n
  cases children <;> simp [parts, childParts, childNodes, mem_listParts]

theorem forall_parts {p : Node → Prop} {n : Node} :
    (∀ m ∈ n.parts, p m) ↔ p n ∧ ∀ k ∈ n.childNodes, ∀ m ∈ k.parts, p m := by
  constructor
  · exact fun h => ⟨h n (mem_parts.2 (.inl rfl)), fun m hm k hk => h k (mem_parts.2 (.inr ⟨m, hm, hk⟩))⟩
  · rintro ⟨hself, h⟩ m hm
    rcases mem_parts.1 hm with rfl | ⟨k, hk, hm⟩
    · exact hself
    · exact h k hk m hm

/-- The values that a node itself holds. -/
def HoldsValue (n : Node) (v : Value) : Prop :=
  ∃ t, (n.inlineStyle = some t ∨ n.props = some t) ∧ v = .object t

/-- Every value that the node or a node inside it holds. -/
def EveryValue (p : Value → Prop) (n : Node) : Prop := ∀ m ∈ n.parts, ∀ v, m.HoldsValue v → p v

/-- The members of the object that a node is written as. -/
def members (n : Node) : List (String × Json) :=
  [("type", .string n.type)] ++ member? "id" (n.id.map .string)
    ++ member? "style" (n.style.map .string)
    ++ member? "inlineStyle" (n.inlineStyle.map Table.toJson)
    ++ member? "condition" (n.condition.map .string)
    ++ member? "children" (n.children.map fun nodes => .array (nodes.map toJson))
    ++ member? "props" (n.props.map Table.toJson)

theorem listJson_eq (nodes : List Node) : listJson nodes = nodes.map toJson := by
  induction nodes with
  | nil => rfl
  | cons n nodes ih => rw [listJson, ih, List.map_cons]

theorem toJson_eq (n : Node) : n.toJson = .object n.members := by
  obtain ⟨type, id, style, inlineStyle, condition, children, props⟩ := n
  cases children <;> simp [toJson, members, childrenJson?, listJson_eq]

theorem distinct_members (n : Node) : Distinct fieldNames n.members := by
  have hkeys : (Table.keys n.members).Sublist fieldNames := by
    have h := keys_member?_sublist
    simp only [members, keys_append]
    exact ((((((List.Sublist.refl ["type"]).append (h _ _)).append (h _ _)).append (h _ _)).append
      (h _ _)).append (h _ _)).append (h _ _)
  exact Json.distinct_of_nodup (hkeys.nodup (by decide))

theorem mem_children {n : Node} {items : List Json} (h : ("children", .array items) ∈ n.members) :
    ∃ nodes, n.children = some nodes ∧ items = nodes.map toJson := by
  have hmember : ∃ nodes, n.children = some nodes ∧ nodes.map toJson = items := by
    simpa [members, mem_member?] using h
  obtain ⟨nodes, hnodes, rfl⟩ := hmember
  exact ⟨nodes, hnodes, rfl⟩

/-- The datum of a node has no field twice, at any depth. -/
theorem noRepeats_toJson (n : Node) : NoRepeats n.toJson := by
  induction n using induction with
  | node n ih =>
    rw [toJson_eq]
    refine Json.noRepeats_iff.2 ⟨fun members h => ?_, fun fields items h hitems j hj => ?_⟩
    · cases h
      exact distinct_members n
    · cases h
      obtain ⟨nodes, hnodes, rfl⟩ := mem_children hitems
      obtain ⟨m, hm, rfl⟩ := List.mem_map.1 hj
      refine ih m ?_
      rw [childNodes, hnodes]
      exact hm

/-- Text holds the datum of a node with finite values. -/
theorem isPrintable_toJson {n : Node} (h : n.EveryValue Value.IsFinite) : n.toJson.IsPrintable := by
  induction n using induction with
  | node n ih =>
    obtain ⟨hself, hchildren⟩ := forall_parts.1 h
    have hstring := isPrintable_string
    have hfields (t : Fields) (ht : n.inlineStyle = some t ∨ n.props = some t) :
        (Table.toJson t).IsPrintable := Value.isPrintable_toJson _ (hself _ ⟨t, ht, rfl⟩)
    rw [toJson_eq, Json.isPrintable_object]
    simp only [members, List.forall_mem_append, List.forall_mem_singleton, forall_mem_member?, and_assoc]
    refine ⟨hstring _, fun s _ => hstring s, fun s _ => hstring s, fun t ht => hfields t (.inl ht),
      fun s _ => hstring s, fun nodes hnodes => ?_, fun t ht => hfields t (.inr ht)⟩
    rw [childNodes, hnodes] at ih hchildren
    exact Json.isPrintable_array.2 (List.forall_mem_map.2 fun m hm => ih m hm (hchildren m hm))

/-- A node is found in its own members. -/
theorem foundBy_members {n : Node} (hfinite : n.EveryValue Value.IsFinite)
    (htabled : n.EveryValue Value.IsTabled) (hchildren : ∀ m ∈ n.childNodes, ofJson? m.toJson = some m) :
    n.FoundBy (Table.get? n.members) := by
  have hfields (t : Fields) (ht : n.inlineStyle = some t ∨ n.props = some t) :=
    optional?_fields ((forall_parts.1 hfinite).1 _ ⟨t, ht, rfl⟩) ((forall_parts.1 htabled).1 _ ⟨t, ht, rfl⟩)
  refine ⟨{
    type := some n.type
    id := n.id.map some
    style := n.style.map some
    inlineStyle := n.inlineStyle.map some
    condition := n.condition.map some
    children := n.children.map some
    props := n.props.map some }, ?_, ?_⟩
  · simp only [Draft.holds_iff, members, Table.get?_append, get?_member?, Table.get?, String.reduceEq,
      if_true, if_false, Option.none_or, Option.or_none]
    refine ⟨rfl, slot?_map fun s _ => rfl, slot?_map fun s _ => rfl,
      slot?_map fun t ht => hfields t (.inl ht), slot?_map fun s _ => rfl,
      slot?_map fun nodes hnodes => ?_, slot?_map fun t ht => hfields t (.inr ht)⟩
    rw [childNodes, hnodes] at hchildren
    exact optional?_list hchildren
  · simp only [Draft.node?, Option.map_some, join_map_some]
    cases n
    rfl

/-- A node is read from its own datum. -/
theorem ofJson?_toJson {n : Node} (hfinite : n.EveryValue Value.IsFinite)
    (htabled : n.EveryValue Value.IsTabled) : ofJson? n.toJson = some n := by
  induction n using induction with
  | node n ih =>
    have hchildren (m : Node) (hm : m ∈ n.childNodes) : ofJson? m.toJson = some m :=
      ih m hm ((forall_parts.1 hfinite).2 m hm) ((forall_parts.1 htabled).2 m hm)
    exact ofJson?_eq_some.2
      ⟨n.members, by rw [toJson_eq]; rfl, distinct_members n, foundBy_members hfinite htabled hchildren⟩

end Node

/-! ## Actions -/

namespace Action

/-- The steps of a sequence; none count as an empty list. -/
def steps (a : Action) : List Action := a.actions.getD []

theorem sizeOf_lt_of_mem_steps {a b : Action} (h : b ∈ a.steps) : sizeOf b < sizeOf a := by
  obtain ⟨_, _, _, _, _, _, _, _, _, actions, _⟩ := a
  cases actions with
  | none => cases h
  | some actions =>
    have hlt := List.sizeOf_lt_of_mem (show b ∈ actions from h)
    simp only [mk.sizeOf_spec, Option.some.sizeOf_spec]
    omega

/-- What holds of an action if it holds of its steps holds of every action. -/
@[elab_as_elim]
theorem induction {motive : Action → Prop} (action : ∀ a, (∀ b ∈ a.steps, motive b) → motive a)
    (a : Action) : motive a :=
  action a fun b _ => induction action b
termination_by sizeOf a
decreasing_by exact sizeOf_lt_of_mem_steps ‹_›

mutual

/-- An action and the actions inside it. -/
def parts : Action → List Action
  | ⟨type, screen, params, endpoint, resultKey, key, value, event, payload, actions, binding⟩ =>
    ⟨type, screen, params, endpoint, resultKey, key, value, event, payload, actions, binding⟩ ::
      stepParts actions

def stepParts : Option (List Action) → List Action
  | none => []
  | some actions => listParts actions

def listParts : List Action → List Action
  | [] => []
  | a :: actions => parts a ++ listParts actions

end

theorem mem_listParts {b : Action} {actions : List Action} :
    b ∈ listParts actions ↔ ∃ a ∈ actions, b ∈ a.parts := by
  induction actions with
  | nil => simp [listParts]
  | cons a actions ih => simp [listParts, ih]

theorem mem_parts {a b : Action} : b ∈ a.parts ↔ b = a ∨ ∃ c ∈ a.steps, b ∈ c.parts := by
  obtain ⟨_, _, _, _, _, _, _, _, _, actions, _⟩ := a
  cases actions <;> simp [parts, stepParts, steps, mem_listParts]

theorem forall_parts {p : Action → Prop} {a : Action} :
    (∀ b ∈ a.parts, p b) ↔ p a ∧ ∀ c ∈ a.steps, ∀ b ∈ c.parts, p b := by
  constructor
  · exact fun h => ⟨h a (mem_parts.2 (.inl rfl)), fun c hc b hb => h b (mem_parts.2 (.inr ⟨c, hc, hb⟩))⟩
  · rintro ⟨hself, h⟩ b hb
    rcases mem_parts.1 hb with rfl | ⟨c, hc, hb⟩
    · exact hself
    · exact h c hc b hb

/-- The values that an action itself holds. -/
def HoldsValue (a : Action) (v : Value) : Prop :=
  (∃ t, (a.params = some t ∨ a.payload = some t) ∧ v = .object t) ∨ a.value = some v

/-- Every value that the action or an action inside it holds. -/
def EveryValue (p : Value → Prop) (a : Action) : Prop := ∀ b ∈ a.parts, ∀ v, b.HoldsValue v → p v

/-- Neither the action nor an action inside it has null for its value. -/
def NoNullValue (a : Action) : Prop := ∀ b ∈ a.parts, b.value ≠ some .null

/-- The members of the object that an action is written as. -/
def members (a : Action) : List (String × Json) :=
  [("actionType", .string a.type)] ++ member? "screen" (a.screen.map .string)
    ++ member? "params" (a.params.map Table.toJson)
    ++ member? "endpoint" (a.endpoint.map .string)
    ++ member? "resultKey" (a.resultKey.map .string)
    ++ member? "key" (a.key.map .string)
    ++ member? "value" (a.value.map Value.toJson)
    ++ member? "event" (a.event.map .string)
    ++ member? "payload" (a.payload.map Table.toJson)
    ++ member? "actions" (a.actions.map fun actions => .array (actions.map toJson))
    ++ member? "binding" (a.binding.map .string)

theorem listJson_eq (actions : List Action) : listJson actions = actions.map toJson := by
  induction actions with
  | nil => rfl
  | cons a actions ih => rw [listJson, ih, List.map_cons]

theorem toJson_eq (a : Action) : a.toJson = .object a.members := by
  obtain ⟨type, screen, params, endpoint, resultKey, key, value, event, payload, actions, binding⟩ := a
  cases actions <;> simp [toJson, members, actionsJson?, listJson_eq]

theorem distinct_members (a : Action) : Distinct fieldNames a.members := by
  have hkeys : (Table.keys a.members).Sublist fieldNames := by
    have h := keys_member?_sublist
    simp only [members, keys_append]
    exact ((((((((((List.Sublist.refl ["actionType"]).append (h _ _)).append (h _ _)).append
      (h _ _)).append (h _ _)).append (h _ _)).append (h _ _)).append (h _ _)).append (h _ _)).append
      (h _ _)).append (h _ _)
  exact Json.distinct_of_nodup (hkeys.nodup (by decide))

theorem mem_actions {a : Action} {items : List Json} (h : ("actions", .array items) ∈ a.members) :
    ∃ actions, a.actions = some actions ∧ items = actions.map toJson := by
  have hmember : ∃ actions, a.actions = some actions ∧ actions.map toJson = items := by
    simpa [members, mem_member?] using h
  obtain ⟨actions, hactions, rfl⟩ := hmember
  exact ⟨actions, hactions, rfl⟩

/-- The datum of an action has no field twice, at any depth. -/
theorem noRepeats_toJson (a : Action) : NoRepeats a.toJson := by
  induction a using induction with
  | action a ih =>
    rw [toJson_eq]
    refine Json.noRepeats_iff.2 ⟨fun members h => ?_, fun fields items h hitems j hj => ?_⟩
    · cases h
      exact distinct_members a
    · cases h
      obtain ⟨actions, hactions, rfl⟩ := mem_actions hitems
      obtain ⟨b, hb, rfl⟩ := List.mem_map.1 hj
      refine ih b ?_
      rw [steps, hactions]
      exact hb

/-- Text holds the datum of an action with finite values. -/
theorem isPrintable_toJson {a : Action} (h : a.EveryValue Value.IsFinite) : a.toJson.IsPrintable := by
  induction a using induction with
  | action a ih =>
    obtain ⟨hself, hsteps⟩ := forall_parts.1 h
    have hstring := isPrintable_string
    have hfields (t : Fields) (ht : a.params = some t ∨ a.payload = some t) : (Table.toJson t).IsPrintable :=
      Value.isPrintable_toJson _ (hself _ (.inl ⟨t, ht, rfl⟩))
    rw [toJson_eq, Json.isPrintable_object]
    simp only [members, List.forall_mem_append, List.forall_mem_singleton, forall_mem_member?, and_assoc]
    refine ⟨hstring _, fun s _ => hstring s, fun t ht => hfields t (.inl ht), fun s _ => hstring s,
      fun s _ => hstring s, fun s _ => hstring s, fun v hv => Value.isPrintable_toJson v (hself v (.inr hv)),
      fun s _ => hstring s, fun t ht => hfields t (.inr ht), fun actions hactions => ?_,
      fun s _ => hstring s⟩
    rw [steps, hactions] at ih hsteps
    exact Json.isPrintable_array.2 (List.forall_mem_map.2 fun b hb => ih b hb (hsteps b hb))

/-- An action is found in its own members. -/
theorem foundBy_members {a : Action} (hfinite : a.EveryValue Value.IsFinite)
    (htabled : a.EveryValue Value.IsTabled) (hnull : a.NoNullValue)
    (hsteps : ∀ b ∈ a.steps, ofJson? b.toJson = some b) : a.FoundBy (Table.get? a.members) := by
  have hfinite := (forall_parts.1 hfinite).1
  have htabled := (forall_parts.1 htabled).1
  have hfields (t : Fields) (ht : a.params = some t ∨ a.payload = some t) :=
    optional?_fields (hfinite _ (.inl ⟨t, ht, rfl⟩)) (htabled _ (.inl ⟨t, ht, rfl⟩))
  have hvalue (v : Value) (hv : a.value = some v) :=
    optional?_value (hfinite v (.inr hv)) (htabled v (.inr hv))
      fun h => (forall_parts.1 hnull).1 (h ▸ hv)
  refine ⟨{
    type := some a.type
    screen := a.screen.map some
    params := a.params.map some
    endpoint := a.endpoint.map some
    resultKey := a.resultKey.map some
    key := a.key.map some
    value := a.value.map some
    event := a.event.map some
    payload := a.payload.map some
    actions := a.actions.map some
    binding := a.binding.map some }, ?_, ?_⟩
  · simp only [Draft.holds_iff, members, Table.get?_append, get?_member?, Table.get?, String.reduceEq,
      if_true, if_false, Option.none_or, Option.or_none]
    refine ⟨rfl, slot?_map fun s _ => rfl, slot?_map fun t ht => hfields t (.inl ht),
      slot?_map fun s _ => rfl, slot?_map fun s _ => rfl, slot?_map fun s _ => rfl, slot?_map hvalue,
      slot?_map fun s _ => rfl, slot?_map fun t ht => hfields t (.inr ht),
      slot?_map fun actions hactions => ?_, slot?_map fun s _ => rfl⟩
    rw [steps, hactions] at hsteps
    exact optional?_list hsteps
  · simp only [Draft.action?, Option.map_some, join_map_some]
    cases a
    rfl

/-- An action is read from its own datum. -/
theorem ofJson?_toJson {a : Action} (hfinite : a.EveryValue Value.IsFinite)
    (htabled : a.EveryValue Value.IsTabled) (hnull : a.NoNullValue) : ofJson? a.toJson = some a := by
  induction a using induction with
  | action a ih =>
    have hsteps (b : Action) (hb : b ∈ a.steps) : ofJson? b.toJson = some b :=
      ih b hb ((forall_parts.1 hfinite).2 b hb) ((forall_parts.1 htabled).2 b hb)
        ((forall_parts.1 hnull).2 b hb)
    exact ofJson?_eq_some.2
      ⟨a.members, by rw [toJson_eq]; rfl, distinct_members a, foundBy_members hfinite htabled hnull hsteps⟩

end Action

/-! ## Components and tabs -/

namespace Component

theorem distinct_members (c : Component) : Distinct fieldNames
    [("parameters", .array (c.parameters.map .string)), ("body", c.body.toJson)] :=
  Json.distinct_of_nodup (by simp [Table.keys])

theorem noRepeats_toJson (c : Component) : NoRepeats c.toJson := by
  constructor
  · intro members h
    cases h
    exact distinct_members c
  · intro fields body h hbody
    cases h
    obtain rfl : body = c.body.toJson := by simpa using hbody
    exact c.body.noRepeats_toJson

/-- Text holds the datum of a component with finite values. -/
theorem isPrintable_toJson {c : Component} (h : c.body.EveryValue Value.IsFinite) :
    c.toJson.IsPrintable := by
  refine Json.isPrintable_object.2 (List.forall_mem_cons.2 ⟨?_, List.forall_mem_singleton.2 ?_⟩)
  · exact Json.isPrintable_array.2 (List.forall_mem_map.2 fun s _ => isPrintable_string s)
  · exact Node.isPrintable_toJson h

/-- A component is read from its own datum. -/
theorem ofJson?_toJson {c : Component} (hfinite : c.body.EveryValue Value.IsFinite)
    (htabled : c.body.EveryValue Value.IsTabled) : ofJson? c.toJson = some c := by
  have hparameters : (Json.array (c.parameters.map .string)).texts? = some c.parameters :=
    mapM_map_toJson fun s _ => rfl
  refine ofJson?_eq_some.2 ⟨_, rfl, distinct_members c, ⟨?_, ?_⟩⟩
  · exact congrArg (Option.map some) hparameters
  · exact congrArg (Option.map some) (Node.ofJson?_toJson hfinite htabled)

end Component

namespace Tab

theorem noRepeats_toJson (t : Tab) : NoRepeats t.toJson := by
  intro members h
  cases h
  exact Json.distinct_of_nodup (by simp [Table.keys])

/-- Text holds the datum of a tab. -/
theorem isPrintable_toJson (t : Tab) : t.toJson.IsPrintable := by
  have hstring := isPrintable_string
  exact Json.isPrintable_object.2 (by simp [hstring])

/-- A tab is read from its own datum. -/
theorem ofJson?_toJson (t : Tab) : ofJson? t.toJson = some t := rfl

end Tab

end ViewEngine
