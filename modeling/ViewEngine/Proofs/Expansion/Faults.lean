import Mathlib.Logic.Relation
import ViewEngine.Expansion
import ViewEngine.Proofs.Context.Faults
import ViewEngine.Proofs.Expansion.Contents

/-!
# What breaks an expansion off

An expansion goes from node to node, each with the components and the context that it finds there
(`Site.Enters`), and reads some bindings at every node that it comes to (`Site.Reads`). It has a result
exactly if none of those reads breaks off (`Site.expandWith_eq_error_iff`): nothing else in it can fail,
whatever the tree, the theme and the registry. Together with what is known of single reads this says what
alone can break an evaluation off, a late date at a date stage (`breaksOff_iff_lateDate`).
-/

namespace ViewEngine

/-! ## Parts of a node -/

namespace Context

theorem bindProp_eq_error_iff {c : Context} {e : Fault} {role : PropRole} {v : Value} :
    c.bindProp role v = .error e ↔ role ≠ .path ∧ ∃ p, bindingOf? v = some p ∧ c.BreaksOff p := by
  rw [← resolveValue_eq_error_iff (e := e)]
  cases role with
  | path => simp [bindProp]
  | text =>
    cases v with
    | string s =>
      simp only [bindProp, map_eq_error_iff, resolveString_eq_error_iff, resolveValue_eq_error_iff, bindingOf?]
      simp
    | _ => simp [bindProp, map_eq_error_iff]
  | structural =>
    cases v with
    | object fields => simp [bindProp, resolveValue]
    | _ => simp [bindProp, map_eq_error_iff]
  | plain => simp [bindProp, map_eq_error_iff]

theorem bindProps_eq_error_iff {c : Context} {e : Fault} {props : Fields} :
    c.bindProps props = .error e ↔ ∃ prop ∈ props, PropRole.ofKey prop.1 ≠ .path ∧
      ∃ p, bindingOf? prop.2 = some p ∧ c.BreaksOff p := by
  induction props with
  | nil => simp [bindProps]
  | cons prop props ih =>
    rw [bindProps, both_eq_error_iff, bindProp_eq_error_iff, ih]
    simp only [List.mem_cons, exists_eq_or_imp]

end Context

/-! ## Nodes -/

/-- A node that an expansion comes to, with the components that are available there and its context. -/
structure Site where
  available : Registry
  node : Node
  context : Context

namespace Site

/-- The condition of the node holds. -/
def IsShown (s : Site) : Prop := s.node.isVisible s.context = .ok true

/-- The bindings that the expansion of a node reads itself. -/
inductive Reads : Site → List Char → Prop where
  | condition {s : Site} {condition : String} {p : List Char} : s.node.condition = some condition →
      p ∈ (Condition.read condition.toList).bindings → Reads s p
  | prop {s : Site} {prop : String × Value} {p : List Char} : s.IsShown → prop ∈ s.node.props.getD [] →
      PropRole.ofKey prop.1 ≠ .path → Context.bindingOf? prop.2 = some p → Reads s p
  | items {s : Site} {template : Node} {path : String} : s.IsShown → s.node.type = "list" →
      s.node.nodeProp? "itemTemplate" = some template → s.node.textProp? "items" = some path →
      Reads s path.toList
  | argument {s : Site} {found : String × Component} {argument : String × Value} {p : List Char} :
      s.IsShown → s.node.type = "component" → s.node.component? s.available = some found →
      argument ∈ s.node.arguments → Context.bindingOf? argument.2 = some p → Reads s p

/-- The expansion of one node expands the other: a template for an item, the body of a component, a label or
a child. -/
inductive Enters : Site → Site → Prop where
  | item {available : Registry} {n template : Node} {c : Context} {items : List Value} {item : Value}
      {index : Nat} : IsShown ⟨available, n, c⟩ → n.type = "list" →
      n.nodeProp? "itemTemplate" = some template → n.listItems c = .ok items → items[index]? = some item →
      Enters ⟨available, n, c⟩ ⟨available, template, c.itemScope index item⟩
  | body {available : Registry} {n : Node} {c : Context} {name : String} {component : Component}
      {bindings : Fields} : IsShown ⟨available, n, c⟩ → n.type = "component" →
      n.component? available = some (name, component) → c.resolveAll n.arguments = .ok bindings →
      Enters ⟨available, n, c⟩ ⟨available.erase name, component.body, c.child bindings⟩
  | label {available : Registry} {n label : Node} {c : Context} : IsShown ⟨available, n, c⟩ →
      n.type = "button" → n.nodeProp? "label" = some label →
      Enters ⟨available, n, c⟩ ⟨available, label, c⟩
  | child {available : Registry} {n m : Node} {c : Context} : IsShown ⟨available, n, c⟩ →
      n.type ≠ "list" → n.type ≠ "component" → (n.type = "button" → n.nodeProp? "label" = none) →
      m ∈ n.childNodes → Enters ⟨available, n, c⟩ ⟨available, m, c⟩

/-- A read of the node itself breaks off. -/
def BreaksOff (s : Site) : Prop := ∃ p, s.Reads p ∧ s.context.BreaksOff p

end Site

namespace Node

variable {theme : Theme} {available : Registry} {n : Node} {c : Context} {e : Fault}

theorem isVisible_eq_error_iff : n.isVisible c = .error e ↔ ∃ condition, n.condition = some condition ∧
    ∃ p ∈ (Condition.read condition.toList).bindings, c.BreaksOff p := by
  unfold isVisible
  split
  · rename_i condition h
    simp only [h, evaluate_eq_error_iff, Option.some.injEq, exists_eq_left']
  · rename_i h
    simp [h]

theorem listItems_eq_error_iff : n.listItems c = .error e ↔ ∃ path, n.textProp? "items" = some path ∧
    c.BreaksOff path.toList := by
  unfold listItems
  split
  · rename_i path h
    simp only [h, map_eq_error_iff, Context.resolve_eq_error_iff, Option.some.injEq, exists_eq_left']
  · rename_i h
    simp [h]

theorem expandAll_eq_error_iff {nodes : List Node} : expandAll theme available nodes c = .error e ↔
    ∃ m ∈ nodes, m.expandWith theme available c = .error e := by
  rw [expandAll_eq, map_eq_error_iff, mapM_eq_error_iff]

theorem expandItems_eq_error_iff {template : Node} {items : List Value} :
    expandItems theme available template 0 items c = .error e ↔
      ∃ index item, items[index]? = some item ∧
        template.expandWith theme available (c.itemScope index item) = .error e := by
  rw [expandItems_eq, map_eq_error_iff, mapM_eq_error_iff]
  constructor
  · rintro ⟨⟨item, index⟩, hmem, herror⟩
    exact ⟨index, item, List.mem_zipIdx_iff_getElem?.1 hmem, herror⟩
  · rintro ⟨index, item, hmem, herror⟩
    exact ⟨(item, index), List.mem_zipIdx_iff_getElem?.2 hmem, herror⟩

/-- The contents of a node break off where the node reads, or in a node that it enters. -/
theorem breaksOff_of_expandContents (hshown : Site.IsShown ⟨available, n, c⟩)
    (h : n.expandContents theme available c = .error e) :
    Site.BreaksOff ⟨available, n, c⟩ ∨ ∃ s, Site.Enters ⟨available, n, c⟩ s ∧
      s.node.expandWith theme s.available s.context = .error e := by
  by_cases hlist : n.type = "list"
  · rw [expandContents_list _ _ _ hlist] at h
    split at h
    · rename_i template htemplate
      rcases bind_eq_error_iff.1 h with hitems | ⟨items, hitems, hitem⟩
      · obtain ⟨path, hpath, hbreaks⟩ := listItems_eq_error_iff.1 hitems
        exact .inl ⟨_, .items hshown hlist htemplate hpath, hbreaks⟩
      · obtain ⟨index, item, hget, herror⟩ := expandItems_eq_error_iff.1 hitem
        exact .inr ⟨_, .item hshown hlist htemplate hitems hget, herror⟩
    · cases h
  by_cases hcomponent : n.type = "component"
  · rw [expandContents_component _ _ _ hcomponent] at h
    split at h
    · rename_i name component hfound
      rcases bind_eq_error_iff.1 h with hbindings | ⟨bindings, hbindings, hbody⟩
      · obtain ⟨argument, hmem, p, hp, hbreaks⟩ := Context.resolveAll_eq_error_iff.1 hbindings
        exact .inl ⟨p, .argument hshown hcomponent hfound hmem hp, hbreaks⟩
      · rcases bind_eq_error_iff.1 hbody with herror | ⟨view, -, hpure⟩
        · exact .inr ⟨_, .body hshown hcomponent hfound hbindings, herror⟩
        · cases hpure
    · cases h
  by_cases hbutton : n.type = "button"
  · rw [expandContents_button _ _ _ hbutton] at h
    split at h
    · rename_i label hlabel
      exact .inr ⟨_, .label hshown hbutton hlabel, map_eq_error_iff.1 h⟩
    · rename_i hlabel
      obtain ⟨m, hm, herror⟩ := expandAll_eq_error_iff.1 h
      exact .inr ⟨_, .child hshown hlist hcomponent (fun _ => hlabel) hm, herror⟩
  · rw [expandContents_other _ _ _ hlist hcomponent hbutton] at h
    obtain ⟨m, hm, herror⟩ := expandAll_eq_error_iff.1 h
    exact .inr ⟨_, .child hshown hlist hcomponent (fun h => absurd h hbutton) hm, herror⟩

theorem expandWith_eq_error_iff : n.expandWith theme available c = .error e ↔
    n.isVisible c = .error e ∨ n.isVisible c = .ok true ∧
      (c.bindProps (n.props.getD []) = .error e ∨ n.expandContents theme available c = .error e) := by
  rw [expandWith, bind_eq_error_iff, ← both_eq_error_iff]
  refine or_congr_right ⟨?_, fun h => ⟨true, h.1, h.2⟩⟩
  rintro ⟨isVisible, hvisible, h⟩
  cases isVisible with
  | true => exact ⟨hvisible, h⟩
  | false => cases h

end Node

namespace Site

variable {theme : Theme} {s t : Site} {e : Fault}

/-- A node at which a read breaks off has no view. -/
theorem BreaksOff.expandWith (h : s.BreaksOff) (theme : Theme) :
    s.node.expandWith theme s.available s.context = .error e := by
  obtain ⟨p, hreads, hbreaks⟩ := h
  rw [Node.expandWith_eq_error_iff]
  cases hreads with
  | condition hcondition hp => exact .inl (Node.isVisible_eq_error_iff.2 ⟨_, hcondition, p, hp, hbreaks⟩)
  | prop hshown hmem hrole hp =>
    exact .inr ⟨hshown, .inl (Context.bindProps_eq_error_iff.2 ⟨_, hmem, hrole, p, hp, hbreaks⟩)⟩
  | items hshown hlist htemplate hpath =>
    refine .inr ⟨hshown, .inr ?_⟩
    rw [Node.expandContents_list _ _ _ hlist, htemplate]
    exact bind_eq_error_iff.2 (.inl (Node.listItems_eq_error_iff.2 ⟨_, hpath, hbreaks⟩))
  | argument hshown hcomponent hfound hmem hp =>
    refine .inr ⟨hshown, .inr ?_⟩
    rw [Node.expandContents_component _ _ _ hcomponent, hfound]
    exact bind_eq_error_iff.2 (.inl (Context.resolveAll_eq_error_iff.2 ⟨_, hmem, p, hp, hbreaks⟩))

theorem Enters.expandWith (h : s.Enters t) (ht : t.node.expandWith theme t.available t.context = .error e) :
    s.node.expandWith theme s.available s.context = .error e := by
  rw [Node.expandWith_eq_error_iff]
  cases h with
  | item hshown hlist htemplate hitems hget =>
    refine .inr ⟨hshown, .inr ?_⟩
    rw [Node.expandContents_list _ _ _ hlist, htemplate]
    exact bind_eq_error_iff.2 (.inr ⟨_, hitems, Node.expandItems_eq_error_iff.2 ⟨_, _, hget, ht⟩⟩)
  | body hshown hcomponent hfound hbindings =>
    refine .inr ⟨hshown, .inr ?_⟩
    rw [Node.expandContents_component _ _ _ hcomponent, hfound]
    exact bind_eq_error_iff.2 (.inr ⟨_, hbindings, bind_eq_error_iff.2 (.inl ht)⟩)
  | label hshown hbutton hlabel =>
    refine .inr ⟨hshown, .inr ?_⟩
    rw [Node.expandContents_button _ _ _ hbutton, hlabel]
    exact map_eq_error_iff.2 ht
  | @child available n m c hshown hlist hcomponent hlabel hm =>
    refine .inr ⟨hshown, .inr ?_⟩
    have hall := Node.expandAll_eq_error_iff.2 ⟨m, hm, ht⟩
    by_cases hbutton : n.type = "button"
    · rw [Node.expandContents_button _ _ _ hbutton, hlabel hbutton]
      exact hall
    · rw [Node.expandContents_other _ _ _ hlist hcomponent hbutton]
      exact hall

theorem breaksOff_or_enters (h : s.node.expandWith theme s.available s.context = .error e) :
    s.BreaksOff ∨ ∃ t, s.Enters t ∧ t.node.expandWith theme t.available t.context = .error e := by
  rcases Node.expandWith_eq_error_iff.1 h with hvisible | ⟨hshown, hprops | hcontents⟩
  · obtain ⟨condition, hcondition, p, hp, hbreaks⟩ := Node.isVisible_eq_error_iff.1 hvisible
    exact .inl ⟨p, .condition hcondition hp, hbreaks⟩
  · obtain ⟨prop, hmem, hrole, p, hp, hbreaks⟩ := Context.bindProps_eq_error_iff.1 hprops
    exact .inl ⟨p, .prop hshown hmem hrole hp, hbreaks⟩
  · exact Node.breaksOff_of_expandContents hshown hcontents

/-- An expansion breaks off exactly if it comes to a node of which a read breaks off. -/
theorem expandWith_eq_error_iff (s : Site) : s.node.expandWith theme s.available s.context = .error e ↔
    ∃ t, Relation.ReflTransGen Enters s t ∧ t.BreaksOff := by
  constructor
  · obtain ⟨available, n, c⟩ := s
    simp only
    induction available, n using Node.expansion_induction generalizing c with
    | node available n hchild hprop hbody =>
      intro h
      rcases breaksOff_or_enters (s := ⟨available, n, c⟩) h with hhere | ⟨t, henters, ht⟩
      · exact ⟨_, .refl, hhere⟩
      · have hrest : ∃ u, Relation.ReflTransGen Enters t u ∧ u.BreaksOff := by
          cases henters with
          | item _ _ htemplate _ _ => exact hprop _ _ htemplate _ ht
          | body _ _ hfound _ => exact hbody _ _ hfound _ ht
          | label _ _ hlabel => exact hprop _ _ hlabel _ ht
          | child _ _ _ _ hm => exact hchild _ hm _ ht
        obtain ⟨u, hu, hbreaks⟩ := hrest
        exact ⟨u, .head henters hu, hbreaks⟩
  · rintro ⟨t, hst, ht⟩
    induction hst using Relation.ReflTransGen.head_induction_on with
    | refl => exact ht.expandWith theme
    | head henters _ ih => exact henters.expandWith ih

end Site

/-! ## What alone breaks an evaluation off -/

/-- The quotes are two places of the operand, and the text is cut out between them. A lone quote is both of them. -/
theorem Condition.quotedText?_eq_some {operand text : List Char} (h : quotedText? operand = some text) :
    operand.length = 1 ∧ text = [] ∨
      1 ≤ operand.length - 1 ∧ text = (operand.take (operand.length - 1)).drop 1 := by
  unfold quotedText? at h
  split at h
  case h_2 => cases h
  case h_1 rest =>
    obtain ⟨-, hrest⟩ := Option.ite_none_right_eq_some.1 h
    obtain rfl := Option.some.inj hrest
    cases rest with
    | nil => exact .inl ⟨rfl, rfl⟩
    | cons c rest => exact .inr ⟨by simp, by simp [List.dropLast_eq_take]⟩

/-- **Nothing but a late date breaks an evaluation off.** A stage has no result exactly if it is a date and its
value is a timestamp that passes the last year; a path exactly if that happens at one of its stages; a text,
a value and a condition exactly if it happens in a binding that they read; and an expansion exactly if it
happens in a binding that is read at a node it comes to. In every other case there is a result. What a
date is written from is in range as well: the names are there, and no text is shorter than what is cut from
it. A quoted operand that is cut has its quotes at two places. -/
theorem breaksOff_iff_lateDate (c : Context) (e : Fault) :
    (∀ stage v, applyStage stage v = .error e ↔ (Transform.ofStage stage).IsDate ∧ LateDate v) ∧
    (∀ path, c.resolve path = .error e ↔ c.BreaksOff path) ∧
    (∀ s, c.resolveString s = .error e ↔ Context.isBinding s.toList = true ∧ c.BreaksOff s.toList) ∧
    (∀ v, c.resolveValue v = .error e ↔ ∃ p, Context.bindingOf? v = some p ∧ c.BreaksOff p) ∧
    (∀ condition, evaluate condition c = .error e ↔
      ∃ p ∈ (Condition.read condition.toList).bindings, c.BreaksOff p) ∧
    (∀ (n : Node) theme registry, n.expand theme registry c = .error e ↔
      ∃ site, Relation.ReflTransGen Site.Enters ⟨registry, n, c⟩ site ∧ site.BreaksOff) ∧
    (∀ cs i, Calendar.readTimestamp? cs = some i → -Calendar.lastYear ≤ (i.clockTime 0).year ∧
      (i.clockTime 0).IsValid ∧ (i.clockTime 0).HasFields) ∧
    (∀ operand text, Condition.quotedText? operand = some text →
      operand.length = 1 ∧ text = [] ∨
        1 ≤ operand.length - 1 ∧ text = (operand.take (operand.length - 1)).drop 1) := by
  refine ⟨fun stage v => Transform.apply_eq_error_iff, fun path => Context.resolve_eq_error_iff,
    fun s => Context.resolveString_eq_error_iff, fun v => Context.resolveValue_eq_error_iff,
    fun condition => evaluate_eq_error_iff, ?_, fun cs i => Calendar.fields_of_readTimestamp?,
    fun operand text => Condition.quotedText?_eq_some⟩
  intro n theme registry
  exact Site.expandWith_eq_error_iff ⟨registry, n, c⟩

/-- The last second of the calendar in UTC can be shown, wherever it is written. -/
theorem breaksOff_iff_lateDate_last_second :
    let i : Calendar.Instant := ⟨253402300799, 0⟩
    Calendar.readTimestamp? "9999-12-31T22:59:59-01:00".toList = some i ∧
      (i.clockTime 0).IsValid ∧ (i.clockTime 0).HasFields := by
  have h : Calendar.readTimestamp? "9999-12-31T22:59:59-01:00".toList = some ⟨253402300799, 0⟩ := by
    decide
  exact ⟨h, ((breaksOff_iff_lateDate { own := [] } .yearOutOfRange).2.2.2.2.2.2.1 _ _ h).2⟩

/-- An hour later there is no date to show, and so no view of a text with it. -/
theorem late_date_breaks_off :
    let c : Context := { own := [("t", .string "9999-12-31T23:59:59-01:00")] }
    let n : Node := { type := "text", props := some [("content", .string "$.t | date:'x'")] }
    applyStage "date:'x'".toList (c.get? "t") = .error .yearOutOfRange ∧
      c.resolve "$.t | date:'x'".toList = .error .yearOutOfRange ∧
      evaluate "$.t | date:'x'" c = .error .yearOutOfRange ∧
      n.expand {} [] c = .error .yearOutOfRange := by
  refine ⟨rfl, rfl, rfl, ?_⟩
  rw [Node.expand, Node.expandWith]
  rfl

end ViewEngine
