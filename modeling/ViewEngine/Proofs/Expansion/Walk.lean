import ViewEngine.Proofs.Expansion.Contents
import ViewEngine.Proofs.Table.Order

/-!
# Expansion with a stack

Expansion is defined with fewer and fewer components to use. Here it is a walk through the nodes that
keeps a stack instead: the name of a component is pushed before its body is walked and popped after it, and
a component on the stack is left empty. Nothing in the walk itself says that it ever ends, so it is taken
down to a depth, and deeper than that it has no outcome.

Every walk ends (`walk_ends`). Whatever the registry and the stack, there is a depth that is enough, and
at any depth from there on the walk leaves the stack that it began with, and gives what the expansion
gives with the components that are not on the stack; or it meets the same fault.
-/

namespace ViewEngine

variable {α β : Type}

/-- A computation that keeps a stack of names. The outcome is `none` where it would go too deep. -/
abbrev Walk := StateT (List String) (ExceptT Fault Option)

namespace Walk

def tooDeep : Walk α := fun _ => (none : Option (Except Fault (α × List String)))

/-- Walked deeply enough the walk ends as `x`, with the stack that it began with. -/
def Ends (w : Nat → Walk α) (active : List String) (x : Except Fault α) : Prop :=
  ∃ enough, ∀ depth, enough ≤ depth → ((w depth).run active).run = some (x.map (·, active))

theorem ends_pure (active : List String) (a : α) : Ends (fun _ => pure a) active (.ok a) :=
  ⟨0, fun _ _ => rfl⟩

theorem ends_ofExcept (active : List String) (x : Except Fault α) :
    Ends (fun _ => ofExcept x) active x := by
  refine ⟨0, fun _ _ => ?_⟩
  cases x <;> rfl

theorem Ends.of_succ {w : Nat → Walk α} {active : List String} {x : Except Fault α}
    (h : Ends (fun depth => w (depth + 1)) active x) : Ends w active x := by
  obtain ⟨enough, h⟩ := h
  refine ⟨enough + 1, fun depth hdepth => ?_⟩
  obtain ⟨d, rfl⟩ := Nat.exists_eq_add_of_le' (Nat.le_of_add_left_le hdepth)
  exact h d (Nat.le_of_succ_le_succ hdepth)

/-- A depth that is enough for both parts is enough for the whole. -/
theorem Ends.bind {w : Nat → Walk α} {active : List String} {x : Except Fault α}
    {f : Nat → α → Walk β} {g : α → Except Fault β} (h : Ends w active x)
    (hnext : ∀ a, Ends (fun depth => f depth a) active (g a)) :
    Ends (fun depth => w depth >>= f depth) active (x >>= g) := by
  have hbind (depth : Nat) : ((w depth >>= f depth).run active).run =
      (((w depth).run active >>= fun p => (f depth p.1).run p.2 : ExceptT Fault Option _)).run := rfl
  obtain ⟨enough, h⟩ := h
  cases x with
  | error e =>
    refine ⟨enough, fun depth hdepth => ?_⟩
    rw [hbind, ExceptT.run_bind, h depth hdepth]
    rfl
  | ok a =>
    obtain ⟨later, hlater⟩ := hnext a
    refine ⟨max enough later, fun depth hdepth => ?_⟩
    rw [hbind, ExceptT.run_bind, h depth (Nat.max_le.1 hdepth).1]
    exact hlater depth (Nat.max_le.1 hdepth).2

theorem Ends.map {w : Nat → Walk α} {active : List String} {x : Except Fault α}
    (h : Ends w active x) (f : α → β) :
    Ends (fun depth => w depth >>= fun a => pure (f a)) active (x.map f) := by
  have hbind : x.map f = x >>= fun a => .ok (f a) := by cases x <;> rfl
  rw [hbind]
  exact h.bind fun a => ends_pure active (f a)

/-- The stack may be read. -/
theorem ends_get_bind {active : List String} {f : Nat → List String → Walk β} {x : Except Fault β}
    (h : Ends (fun depth => f depth active) active x) : Ends (fun depth => get >>= f depth) active x := h

/-- What is pushed before a walk is popped after it. -/
theorem Ends.under {w : Nat → Walk α} {name : String} {active : List String} {x : Except Fault α}
    (h : Ends w (name :: active) x) (f : α → β) :
    Ends (fun depth => do
      modify (name :: ·)
      let a ← w depth
      modify List.tail
      pure (f a)) active (x.map f) := by
  obtain ⟨enough, h⟩ := h
  refine ⟨enough, fun depth hdepth => ?_⟩
  have hbind :
      ((do modify (name :: ·); let a ← w depth; modify List.tail; pure (f a) : Walk β).run active).run =
      (((w depth).run (name :: active) >>= fun p => pure (f p.1, p.2.tail) :
        ExceptT Fault Option _)).run := rfl
  rw [hbind, ExceptT.run_bind, h depth hdepth]
  cases x <;> rfl

end Walk

namespace Registry

/-- The components whose names are not on the stack. -/
def without (r : Registry) (active : List String) : Registry := r.filter (·.1 ∉ active)

theorem without_nil (r : Registry) : r.without [] = r := by
  simp [without]

theorem erase_without (r : Registry) (active : List String) (name : String) :
    Table.erase (r.without active) name = r.without (name :: active) := by
  simp only [Table.erase, without, List.filter_filter, List.mem_cons, not_or, Bool.decide_and]

theorem get?_without (r : Registry) (active : List String) (name : String) :
    Table.get? (r.without active) name = if name ∈ active then none else Table.get? r name := by
  split
  · rename_i h
    exact Table.get?_filter_eq_none r fun _ => by simpa using h
  · rename_i h
    exact Table.get?_filter r fun _ => by simpa using h

end Registry

namespace Node

/-! ## The walk -/

section

/- The walk of the nodes inside a node. -/
variable (visit : Node → Context → Walk (Option View))

/-- The views of those of some nodes that are visible. -/
def walkAll : List Node → Context → Walk (List View)
  | [], _ => pure []
  | n :: rest, c => do
    let view ← visit n c
    let views ← walkAll rest c
    pure (view.toList ++ views)

/-- The views of a template for each item, from the item with the given index on. -/
def walkItems (template : Node) : Nat → List Value → Context → Walk (List View)
  | _, [], _ => pure []
  | index, item :: rest, c => do
    let view ← visit template (c.itemScope index item)
    let views ← walkItems template (index + 1) rest c
    pure (view.toList ++ views)

/-- The views inside a node, by its type. A component on the stack has none. -/
def walkContents (registry : Registry) (n : Node) (c : Context) : Walk (List View) :=
  match n.type with
  | "list" =>
    match n.nodeProp? "itemTemplate" with
    | some template => do
      let items ← ofExcept (n.listItems c)
      walkItems visit template 0 items c
    | none => pure []
  | "component" =>
    match n.textProp? "name" with
    | some name => do
      if name ∈ (← get) then pure []
      else match ← ofExcept (registry.instantiate name n.arguments c) with
        | some (body, scope) =>
          modify (name :: ·)
          let view ← visit body scope
          modify List.tail
          pure view.toList
        | none => pure []
    | none => pure []
  | "button" =>
    match n.nodeProp? "label" with
    | some label => do
      let view ← visit label c
      pure view.toList
    | none => walkAll visit n.childNodes c
  | _ => walkAll visit n.childNodes c

end

/-- The view of a node, with no more than so many nodes inside one another; none if its condition is
false. -/
def walk (theme : Theme) (registry : Registry) : (depth : Nat) → Node → Context → Walk (Option View)
  | 0, _, _ => Walk.tooDeep
  | depth + 1, n, c => do
    if ← ofExcept (n.isVisible c) then
      let props ← ofExcept (c.bindProps (n.props.getD []))
      let children ← walkContents (walk theme registry depth) registry n c
      pure (some
        { type := n.type, id := n.id, style := theme.mergedStyle n.style n.inlineStyle, props, children })
    else pure none

/-! ## Its end -/

/-- A component on the stack is not available. -/
theorem component?_of_mem {registry : Registry} {active : List String} {n : Node} {name : String}
    (hname : n.textProp? "name" = some name) (h : name ∈ active) :
    n.component? (registry.without active) = none := by
  rw [component?, hname, Option.bind_some, Registry.get?_without, if_pos h, Option.map_none]

/-- A component that is not on the stack is the registered one. -/
theorem component?_of_not_mem {registry : Registry} {active : List String} {n : Node} {name : String}
    (hname : n.textProp? "name" = some name) (h : name ∉ active) :
    n.component? (registry.without active) = (Table.get? registry name).map (name, ·) := by
  rw [component?, hname, Option.bind_some, Registry.get?_without, if_neg h]

/-- Where the expansion erases a component, the walk pushes its name. -/
theorem walkContents_component_ends {theme : Theme} {registry : Registry} {active : List String}
    {n : Node} {visit : Nat → Node → Context → Walk (Option View)} (htype : n.type = "component")
    (hbody : ∀ name component scope, n.component? (registry.without active) = some (name, component) →
      Walk.Ends (fun depth => visit depth component.body scope) (name :: active)
        (component.body.expandWith theme (registry.without (name :: active)) scope)) (c : Context) :
    Walk.Ends (fun depth => walkContents (visit depth) registry n c) active
      (n.expandContents theme (registry.without active) c) := by
  rw [expandContents_component _ _ _ htype]
  simp only [walkContents, htype]
  cases hname : n.textProp? "name" with
  | none =>
    rw [component?, hname]
    exact Walk.ends_pure active []
  | some name =>
    refine Walk.ends_get_bind ?_
    by_cases hactive : name ∈ active
    · rw [component?_of_mem hname hactive]
      simp only [if_pos hactive]
      exact Walk.ends_pure active []
    · simp only [if_neg hactive]
      have hregistered : n.component? (registry.without active) =
          (Table.get? registry name).map (name, ·) := component?_of_not_mem hname hactive
      cases hget : Table.get? registry name with
      | none =>
        rw [hregistered, hget, Registry.instantiate, hget]
        exact Walk.ends_pure active []
      | some component =>
        rw [hget, Option.map_some] at hregistered
        rw [hregistered, Registry.instantiate, hget]
        cases c.resolveAll n.arguments with
        | error f => exact ⟨0, fun _ _ => rfl⟩
        | ok bindings =>
          have hend := hbody name component (c.child bindings) hregistered
          rw [← Registry.erase_without] at hend
          exact hend.under Option.toList

/- The recursion of the expansion. What is left of the registry gets smaller as the stack grows. -/
mutual

theorem walk_ends (theme : Theme) (registry : Registry) (active : List String) (n : Node)
    (c : Context) : Walk.Ends (fun depth => walk theme registry depth n c) active
      (n.expandWith theme (registry.without active) c) := by
  refine Walk.Ends.of_succ ?_
  simp only [walk]
  rw [expandWith]
  refine (Walk.ends_ofExcept active _).bind fun isVisible => ?_
  cases isVisible with
  | false => exact Walk.ends_pure active none
  | true =>
    refine (Walk.ends_ofExcept active _).bind fun props => ?_
    exact (walkContents_ends theme registry active n c).bind fun children => Walk.ends_pure active _
termination_by ((registry.without active).length, n.depth, 1)

theorem walkContents_ends (theme : Theme) (registry : Registry) (active : List String) (n : Node)
    (c : Context) :
    Walk.Ends (fun depth => walkContents (walk theme registry depth) registry n c) active
      (n.expandContents theme (registry.without active) c) := by
  by_cases hcomponent : n.type = "component"
  · exact walkContents_component_ends hcomponent (fun name component scope h =>
      walk_ends theme registry (name :: active) component.body scope) c
  · unfold walkContents
    split
    case h_1 htype =>
      rw [expandContents_list _ _ _ htype]
      cases ht : n.nodeProp? "itemTemplate" with
      | none => exact Walk.ends_pure active []
      | some template =>
        exact (Walk.ends_ofExcept active _).bind fun items =>
          walkItems_ends theme registry active template 0 items c
    case h_2 htype => exact absurd htype hcomponent
    case h_3 htype =>
      rw [expandContents_button _ _ _ htype]
      cases hl : n.nodeProp? "label" with
      | none => exact walkAll_ends theme registry active n.childNodes c
      | some label => exact (walk_ends theme registry active label c).map Option.toList
    case h_4 hlist _ hbutton =>
      rw [expandContents_other _ _ _ hlist hcomponent hbutton]
      exact walkAll_ends theme registry active n.childNodes c
termination_by ((registry.without active).length, n.depth, 0)
decreasing_by
  · rw [← Registry.erase_without]
    exact .left _ _ (length_erase_lt h)
  · exact .right _ (.left _ _ (depth_nodeProp? ht))
  · exact .right _ (.left _ _ (listDepth_childNodes_lt n))
  · exact .right _ (.left _ _ (depth_nodeProp? hl))
  · exact .right _ (.left _ _ (listDepth_childNodes_lt n))

theorem walkAll_ends (theme : Theme) (registry : Registry) (active : List String)
    (nodes : List Node) (c : Context) :
    Walk.Ends (fun depth => walkAll (walk theme registry depth) nodes c) active
      (expandAll theme (registry.without active) nodes c) := by
  cases nodes with
  | nil =>
    rw [expandAll]
    exact Walk.ends_pure active []
  | cons n rest =>
    rw [expandAll]
    refine (walk_ends theme registry active n c).bind fun view => ?_
    exact (walkAll_ends theme registry active rest c).map _
termination_by ((registry.without active).length, listDepth nodes, nodes.length + 2)
decreasing_by
  · exact .right _ (.right' _ (Nat.le_max_left _ _) (Nat.lt_add_left _ Nat.one_lt_two))
  · exact .right _ (.right' _ (Nat.le_max_right _ _) (Nat.lt_succ_self _))

theorem walkItems_ends (theme : Theme) (registry : Registry) (active : List String)
    (template : Node) (index : Nat) (items : List Value) (c : Context) :
    Walk.Ends (fun depth => walkItems (walk theme registry depth) template index items c) active
      (expandItems theme (registry.without active) template index items c) := by
  cases items with
  | nil =>
    rw [expandItems]
    exact Walk.ends_pure active []
  | cons item rest =>
    rw [expandItems]
    refine (walk_ends theme registry active template _).bind fun view => ?_
    exact (walkItems_ends theme registry active template (index + 1) rest c).bind fun views =>
      Walk.ends_pure active _
termination_by ((registry.without active).length, template.depth, items.length + 2)

end

end Node

end ViewEngine
