import ViewEngine.Proofs.Expansion.Walk

/-!
# Nesting of components

How deeply the expansion of a node nests components. An instance, that is a component that is not left
empty, takes its component from those that are available inside it; so along a path down the view there
are at most as many instances as the registry has components (`View.IsPath.countP_le_nesting`,
`Node.nesting_expandWith`). With the stack that every walk restores, this is what ends an expansion even
where components use one another in a circle (`Node.expand_terminates`).
-/

namespace ViewEngine

namespace View

/-- A component with something inside. -/
def isInstance (v : View) : Bool := v.type = "component" && !v.children.isEmpty

/-- A path down a view, from its root to a leaf. -/
inductive IsPath : View → List View → Prop where
  | leaf {v : View} (h : v.children = []) : IsPath v [v]
  | step {v w : View} {path : List View} (h : w ∈ v.children) (hw : IsPath w path) :
      IsPath v (v :: path)

mutual

/-- The largest number of instances that lie inside one another. -/
def nesting : View → Nat
  | ⟨type, id, style, props, children⟩ =>
    (if isInstance ⟨type, id, style, props, children⟩ then 1 else 0) + nestingAll children

def nestingAll : List View → Nat
  | [] => 0
  | view :: views => max (nesting view) (nestingAll views)

end

theorem nesting_eq (v : View) :
    v.nesting = (if v.isInstance then 1 else 0) + nestingAll v.children := by
  cases v
  rw [nesting]

theorem nesting_le_succ (v : View) : v.nesting ≤ nestingAll v.children + 1 := by
  rw [nesting_eq]
  split <;> omega

theorem nesting_eq_zero {v : View} (h : v.children = []) : v.nesting = 0 := by
  simp [nesting_eq, isInstance, h, nestingAll]

/-- Only a component adds to the nesting of what is inside it. -/
theorem nesting_of_type_ne {v : View} (h : v.type ≠ "component") :
    v.nesting = nestingAll v.children := by
  simp [nesting_eq, isInstance, h]

theorem nestingAll_append (views others : List View) :
    nestingAll (views ++ others) = max (nestingAll views) (nestingAll others) := by
  induction views with
  | nil => rw [List.nil_append, nestingAll, Nat.zero_max]
  | cons view views ih => rw [List.cons_append, nestingAll, nestingAll, ih, Nat.max_assoc]

theorem nesting_le_nestingAll {v : View} {views : List View} (h : v ∈ views) :
    v.nesting ≤ nestingAll views := by
  obtain ⟨before, after, rfl⟩ := List.append_of_mem h
  rw [nestingAll_append, nestingAll]
  omega

/-- No path has more instances on it than lie inside one another. -/
theorem IsPath.countP_le_nesting {v : View} {path : List View} (h : v.IsPath path) :
    path.countP isInstance ≤ v.nesting := by
  induction h with
  | @leaf v hnil => simp [isInstance, hnil]
  | @step v w path hmem _ ih =>
    have hw := nesting_le_nestingAll hmem
    rw [List.countP_cons, nesting_eq]
    omega

end View

/-! ## The bound -/

section

variable {α β : Type} {x : Except Fault α} {p : α → Prop}

/-- What `x` gives, if it gives something, has the property `p`. -/
def Ensures (x : Except Fault α) (p : α → Prop) : Prop := ∀ a, x = .ok a → p a

theorem ensures_ok {a : α} (h : p a) : Ensures (.ok a) p := by
  rintro _ ⟨⟩
  exact h

theorem Ensures.bind {f : α → Except Fault β} {q : β → Prop} (h : Ensures x p)
    (hnext : ∀ a, p a → Ensures (f a) q) : Ensures (x >>= f) q := by
  cases x with
  | error e => rintro _ ⟨⟩
  | ok a => exact hnext a (h a rfl)

theorem ensures_true (x : Except Fault α) : Ensures x fun _ => True := fun _ _ => trivial

theorem Ensures.mono {q : α → Prop} (h : Ensures x p) (hpq : ∀ a, p a → q a) : Ensures x q :=
  fun a ha => hpq a (h a ha)

theorem Ensures.map {f : α → β} {q : β → Prop} (h : Ensures x p) (hf : ∀ a, p a → q (f a)) :
    Ensures (x.map f) q := by
  cases x with
  | error e => rintro _ ⟨⟩
  | ok a => exact ensures_ok (hf a (h a rfl))

end

namespace Node

open View (nestingAll)

/- The recursion of the expansion. Of the contents of a node the bound is stated with a view around
them, since for a component it is the view and not the contents that takes one of those available. -/
mutual

theorem nesting_expandWith (theme : Theme) (available : Registry) (n : Node) (c : Context) :
    Ensures (n.expandWith theme available c) fun view =>
      nestingAll view.toList ≤ available.length := by
  rw [expandWith]
  refine (ensures_true _).bind fun isVisible _ => ?_
  cases isVisible with
  | false => exact ensures_ok (Nat.zero_le _)
  | true =>
    refine (ensures_true _).bind fun props _ => ?_
    refine (nesting_expandContents theme available n c).bind fun children h => ?_
    refine ensures_ok ?_
    exact Nat.max_le.2 ⟨h _ rfl rfl, Nat.zero_le _⟩
termination_by (available.length, n.depth, 1)

theorem nesting_expandContents (theme : Theme) (available : Registry) (n : Node) (c : Context) :
    Ensures (n.expandContents theme available c) fun views =>
      ∀ v : View, v.type = n.type → v.children = views → v.nesting ≤ available.length := by
  have hnil : ∀ v : View, v.type = n.type → v.children = [] → v.nesting ≤ available.length := by
    intro v _ h
    rw [View.nesting_eq_zero h]
    exact Nat.zero_le _
  by_cases hcomponent : n.type = "component"
  · rw [expandContents_component _ _ _ hcomponent]
    cases hc : n.component? available with
    | none => exact ensures_ok hnil
    | some found =>
      obtain ⟨name, component⟩ := found
      refine (ensures_true _).bind fun bindings _ => ?_
      refine (nesting_expandWith theme (available.erase name) component.body _).bind fun view h => ?_
      refine ensures_ok fun v _ hv => ?_
      -- What the instance itself adds is made up for by the component that is not available inside it.
      have hinside := v.nesting_le_succ
      have herase := length_erase_lt hc
      rw [hv] at hinside
      omega
  · have houter : ∀ views, nestingAll views ≤ available.length →
        ∀ v : View, v.type = n.type → v.children = views → v.nesting ≤ available.length := by
      intro views h v htype hv
      rw [View.nesting_of_type_ne (htype ▸ hcomponent), hv]
      exact h
    by_cases hlist : n.type = "list"
    · rw [expandContents_list _ _ _ hlist]
      cases ht : n.nodeProp? "itemTemplate" with
      | none => exact ensures_ok hnil
      | some template =>
        refine (ensures_true _).bind fun items _ => ?_
        exact (nesting_expandItems theme available template 0 items c).mono houter
    · by_cases hbutton : n.type = "button"
      · rw [expandContents_button _ _ _ hbutton]
        cases hl : n.nodeProp? "label" with
        | none => exact (nesting_expandAll theme available n.childNodes c).mono houter
        | some label =>
          exact (nesting_expandWith theme available label c).map fun _ h => houter _ h
      · rw [expandContents_other _ _ _ hlist hcomponent hbutton]
        exact (nesting_expandAll theme available n.childNodes c).mono houter
termination_by (available.length, n.depth, 0)
decreasing_by
  · exact .left _ _ (length_erase_lt hc)
  · exact .right _ (.left _ _ (depth_nodeProp? ht))
  · exact .right _ (.left _ _ (listDepth_childNodes_lt n))
  · exact .right _ (.left _ _ (depth_nodeProp? hl))
  · exact .right _ (.left _ _ (listDepth_childNodes_lt n))

theorem nesting_expandAll (theme : Theme) (available : Registry) (nodes : List Node) (c : Context) :
    Ensures (expandAll theme available nodes c) fun views => nestingAll views ≤ available.length := by
  cases nodes with
  | nil =>
    rw [expandAll]
    exact ensures_ok (Nat.zero_le _)
  | cons n rest =>
    rw [expandAll]
    refine (nesting_expandWith theme available n c).bind fun view hview => ?_
    refine (nesting_expandAll theme available rest c).bind fun views hviews => ?_
    refine ensures_ok ?_
    rw [View.nestingAll_append]
    exact Nat.max_le.2 ⟨hview, hviews⟩
termination_by (available.length, listDepth nodes, nodes.length + 2)
decreasing_by
  · exact .right _ (.right' _ (Nat.le_max_left _ _) (Nat.lt_add_left _ Nat.one_lt_two))
  · exact .right _ (.right' _ (Nat.le_max_right _ _) (Nat.lt_succ_self _))

theorem nesting_expandItems (theme : Theme) (available : Registry) (template : Node) (index : Nat)
    (items : List Value) (c : Context) :
    Ensures (expandItems theme available template index items c) fun views =>
      nestingAll views ≤ available.length := by
  cases items with
  | nil =>
    rw [expandItems]
    exact ensures_ok (Nat.zero_le _)
  | cons item rest =>
    rw [expandItems]
    refine (nesting_expandWith theme available template _).bind fun view hview => ?_
    refine (nesting_expandItems theme available template (index + 1) rest c).bind fun views hviews => ?_
    refine ensures_ok ?_
    rw [View.nestingAll_append]
    exact Nat.max_le.2 ⟨hview, hviews⟩
termination_by (available.length, template.depth, items.length + 2)

end

/-- **Expansion ends**, for every registry. With any stack the walk of a node ends, by itself or at a fault,
leaves the stack as it was and gives what the components that are not on it give; with the empty stack
this is the expansion. And no path down the view of a node has more instances on it than the registry has
components. -/
theorem expand_terminates (theme : Theme) (registry : Registry) (n : Node) (c : Context) :
    (∀ active, Walk.Ends (fun depth => walk theme registry depth n c) active
      (n.expandWith theme (registry.without active) c)) ∧
    Walk.Ends (fun depth => walk theme registry depth n c) [] (n.expand theme registry c) ∧
    ∀ view path, n.expand theme registry c = .ok (some view) → view.IsPath path →
      path.countP View.isInstance ≤ registry.length := by
  refine ⟨fun active => walk_ends theme registry active n c, ?_, ?_⟩
  · have h := walk_ends theme registry [] n c
    rwa [Registry.without_nil] at h
  · intro view path hview hpath
    have hnesting : View.nestingAll (some view).toList ≤ registry.length :=
      nesting_expandWith theme registry n c _ hview
    calc path.countP View.isInstance
      _ ≤ view.nesting := hpath.countP_le_nesting
      _ ≤ View.nestingAll (some view).toList := View.nesting_le_nestingAll (List.mem_singleton_self view)
      _ ≤ registry.length := hnesting

/-- Of two components that use each other, each is expanded once on the path down the view. -/
theorem expand_terminates_in_circle :
    let use (name : String) : Node := { type := "component", props := some [("name", .string name)] }
    let registry : Registry := [("a", ⟨[], use "b"⟩), ("b", ⟨[], use "a"⟩)]
    let view (name : String) (children : List View) : View :=
      { type := "component", props := [("name", .string name)], children }
    let last := view "a" []
    let middle := view "b" [last]
    let first := view "a" [middle]
    (use "a").expand {} registry ⟨[], []⟩ = .ok (some first) ∧ first.IsPath [first, middle, last] ∧
      [first, middle, last].countP View.isInstance ≤ registry.length := by
  intro use registry view last middle first
  have hlast (c : Context) : (use "a").expandWith {} [] c = .ok (some last) := by
    rw [expandWith, expandContents_component _ _ _ rfl]
    rfl
  have hmiddle (c : Context) :
      (use "b").expandWith {} [("b", ⟨[], use "a"⟩)] c = .ok (some middle) := by
    rw [expandWith, expandContents_component _ _ _ rfl]
    change ((expandWith {} [] (use "a") (c.child []) >>= fun v => .ok v.toList) >>=
      fun children => .ok (some (view "b" children))) = _
    rw [hlast]
    rfl
  have hfirst (c : Context) : (use "a").expand {} registry c = .ok (some first) := by
    rw [expand, expandWith, expandContents_component _ _ _ rfl]
    change ((expandWith {} [("b", ⟨[], use "a"⟩)] (use "b") (c.child []) >>= fun v => .ok v.toList) >>=
      fun children => .ok (some (view "a" children))) = _
    rw [hmiddle]
    rfl
  have hpath : first.IsPath [first, middle, last] :=
    .step (List.mem_singleton_self _) (.step (List.mem_singleton_self _) (.leaf rfl))
  obtain ⟨-, -, hbound⟩ := expand_terminates {} registry (use "a") ⟨[], []⟩
  exact ⟨hfirst _, hpath, hbound _ _ (hfirst _) hpath⟩

end Node

end ViewEngine
