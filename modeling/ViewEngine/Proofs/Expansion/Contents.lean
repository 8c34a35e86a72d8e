import ViewEngine.Expansion
import Mathlib.Data.List.ReduceOption

/-!
# Contents by type

What is expanded inside a node, one equation for each type of node that has contents of its own. Later
proofs about the expansion go by these equations and not by its definition. Where nothing but the nodes
inside a node matters, they go by `expansion_induction`, with the lists of nodes as plain lists of
expansions (`expandAll_eq`, `expandItems_eq`).
-/

namespace ViewEngine.Node

variable (theme : Theme) (available : Registry) {n : Node} (c : Context)

theorem expandContents_list (h : n.type = "list") :
    n.expandContents theme available c =
      match n.nodeProp? "itemTemplate" with
      | some template => do
        let items ← n.listItems c
        expandItems theme available template 0 items c
      | none => .ok [] := by
  rw [expandContents]
  simp only [h]
  cases n.nodeProp? "itemTemplate" <;> rfl

theorem expandContents_component (h : n.type = "component") :
    n.expandContents theme available c =
      match n.component? available with
      | some (name, component) => do
        let bindings ← c.resolveAll n.arguments
        let view ← expandWith theme (available.erase name) component.body (c.child bindings)
        pure view.toList
      | none => .ok [] := by
  rw [expandContents]
  simp only [h]
  cases n.component? available <;> rfl

theorem expandContents_button (h : n.type = "button") :
    n.expandContents theme available c =
      match n.nodeProp? "label" with
      | some label => (expandWith theme available label c).map Option.toList
      | none => expandAll theme available n.childNodes c := by
  rw [expandContents]
  simp only [h]
  cases n.nodeProp? "label" <;> rfl

/-- Nodes of any other type contain their children. -/
theorem expandContents_other (hlist : n.type ≠ "list") (hcomponent : n.type ≠ "component")
    (hbutton : n.type ≠ "button") :
    n.expandContents theme available c = expandAll theme available n.childNodes c := by
  rw [expandContents]
  split <;> first | contradiction | rfl

/-! ## Lists of nodes -/

/-- The visible ones among the views of some nodes. -/
theorem expandAll_eq (nodes : List Node) :
    expandAll theme available nodes c =
      (nodes.mapM fun n => expandWith theme available n c).map List.reduceOption := by
  induction nodes with
  | nil =>
    rw [expandAll]
    rfl
  | cons n rest ih =>
    rw [expandAll, ih, List.mapM_cons]
    cases n.expandWith theme available c with
    | error f => rfl
    | ok view =>
      cases rest.mapM fun n => expandWith theme available n c with
      | error f => rfl
      | ok views => cases view <;> rfl

/-- The visible ones among the views of a template for each item. -/
theorem expandItems_eq (template : Node) (index : Nat) (items : List Value) :
    expandItems theme available template index items c =
      ((items.zipIdx index).mapM fun e =>
        template.expandWith theme available (c.itemScope e.2 e.1)).map List.reduceOption := by
  induction items generalizing index with
  | nil =>
    rw [expandItems]
    rfl
  | cons item rest ih =>
    rw [expandItems, ih, List.zipIdx_cons, List.mapM_cons]
    cases template.expandWith theme available (c.itemScope index item) with
    | error f => rfl
    | ok view =>
      cases (rest.zipIdx (index + 1)).mapM fun e =>
          template.expandWith theme available (c.itemScope e.2 e.1) with
      | error f => rfl
      | ok views => cases view <;> rfl

/-! ## Induction -/

/-- What holds of a node with the components available, if it holds of the nodes that may be expanded
inside it: of children and of props that are nodes with the same components, and of the body of an
available component with the others. -/
theorem expansion_induction {motive : Registry → Node → Prop}
    (node : ∀ available n, (∀ m ∈ n.childNodes, motive available m) →
      (∀ key m, n.nodeProp? key = some m → motive available m) →
      (∀ name component, n.component? available = some (name, component) →
        motive (available.erase name) component.body) →
      motive available n) (available : Registry) (n : Node) : motive available n :=
  node available n (fun m _ => expansion_induction node available m)
    (fun _ m _ => expansion_induction node available m)
    fun name component _ => expansion_induction node (available.erase name) component.body
termination_by (available.length, n.depth)
decreasing_by
  · exact .right _ (depth_lt_of_mem_childNodes ‹_›)
  · exact .right _ (depth_nodeProp? ‹_›)
  · exact .left _ _ (length_erase_lt ‹_›)

end ViewEngine.Node
