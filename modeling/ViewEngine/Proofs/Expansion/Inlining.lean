import ViewEngine.Proofs.Expansion.Walk
import Mathlib.Logic.Relation
import Mathlib.Order.Filter.AtTopBot.Basic
import Mathlib.Order.Filter.Finite

/-!
# Plain inlining

Inlining puts the body of a registered component in the place of every node that names it, and keeps no
account of what is being expanded. Nothing makes it end: inside a component that uses itself there is always
another one to put in. So it is taken down to a depth, and deeper than that it has no outcome. Where no
component that a node leads to can lead to itself there is a depth that is enough, and inlining gives the
tree that the guarded expansion gives (`Node.expand_eq_inlined`): a component that is not available any more
is one that does not come up any more.
-/

namespace ViewEngine

/-! ## Who uses whom -/

/-- A node is within another if it is that node, or is nested in it through children or through props that
are nodes. -/
inductive Node.IsWithin : Node → Node → Prop where
  | self (n : Node) : IsWithin n n
  | child {m k n : Node} (h : k ∈ n.childNodes) (hm : IsWithin m k) : IsWithin m n
  | prop {m k n : Node} {key : String} (h : n.nodeProp? key = some k) (hm : IsWithin m k) : IsWithin m n

/-- The node, or one nested in it, is a component with this name. -/
def Node.RefersTo (n : Node) (name : String) : Prop :=
  ∃ m : Node, m.IsWithin n ∧ m.type = "component" ∧ m.textProp? "name" = some name

/-- The body of the first component refers to the second. -/
def Registry.Refers (registry : Registry) (name other : String) : Prop :=
  ∃ component, Table.get? registry name = some component ∧ component.body.RefersTo other

/-- The node refers to a component that leads to this one. -/
def Node.Reaches (registry : Registry) (n : Node) (name : String) : Prop :=
  ∃ first, n.RefersTo first ∧ Relation.ReflTransGen registry.Refers first name

/-- No component that the node leads to leads to itself. -/
def Node.IsAcyclic (registry : Registry) (n : Node) : Prop :=
  ∀ name, n.Reaches registry name → ¬ Relation.TransGen registry.Refers name name

namespace Node

variable {registry : Registry} {n m : Node}

theorem Reaches.of_child {name : String} (hm : m ∈ n.childNodes) (h : m.Reaches registry name) :
    n.Reaches registry name := by
  obtain ⟨first, ⟨k, hk, htype, hname⟩, hpath⟩ := h
  exact ⟨first, ⟨k, .child hm hk, htype, hname⟩, hpath⟩

theorem Reaches.of_prop {key name : String} (hm : n.nodeProp? key = some m)
    (h : m.Reaches registry name) : n.Reaches registry name := by
  obtain ⟨first, ⟨k, hk, htype, hname⟩, hpath⟩ := h
  exact ⟨first, ⟨k, .prop hm hk, htype, hname⟩, hpath⟩

theorem Reaches.trans {name other : String} (h : n.Reaches registry name)
    (hpath : Relation.ReflTransGen registry.Refers name other) : n.Reaches registry other := by
  obtain ⟨first, hfirst, hname⟩ := h
  exact ⟨first, hfirst, hname.trans hpath⟩

theorem reaches_name {name : String} (htype : n.type = "component")
    (hname : n.textProp? "name" = some name) : n.Reaches registry name :=
  ⟨name, ⟨n, .self n, htype, hname⟩, .refl⟩

/-- A component leads to whatever its body leads to. -/
theorem Reaches.transGen {name other : String} {component : Component}
    (hget : Table.get? registry name = some component) (h : component.body.Reaches registry other) :
    Relation.TransGen registry.Refers name other := by
  obtain ⟨first, hfirst, hpath⟩ := h
  exact .head' ⟨component, hget, hfirst⟩ hpath

/-! ## Inlining -/

/-- A computation that may break off at a fault. The outcome is `none` where it would go too deep. -/
abbrev Unguarded := ExceptT Fault Option

/-- The views inside a node, by its type, if the nodes inside it are inlined like this. A component has the
view of its body, if it is visible, and a component that is not registered has none. -/
def inlinedContents (inline : Node → Context → Unguarded (Option View)) (registry : Registry) (n : Node)
    (c : Context) : Unguarded (List View) :=
  match n.type with
  | "list" =>
    match n.nodeProp? "itemTemplate" with
    | some template => do
      let items ← ofExcept (n.listItems c)
      List.reduceOption <$> items.zipIdx.mapM fun e => inline template (c.itemScope e.2 e.1)
    | none => pure []
  | "component" =>
    match n.textProp? "name" with
    | some name => do
      match ← ofExcept (registry.instantiate name n.arguments c) with
      | some (body, scope) => Option.toList <$> inline body scope
      | none => pure []
    | none => pure []
  | "button" =>
    match n.nodeProp? "label" with
    | some label => Option.toList <$> inline label c
    | none => List.reduceOption <$> n.childNodes.mapM fun m => inline m c
  | _ => List.reduceOption <$> n.childNodes.mapM fun m => inline m c

/-- The view of a node with the body of every registered component in its place, with no more than so many
nodes inside one another; none if the condition of the node is false. -/
def inlined (theme : Theme) (registry : Registry) : (depth : Nat) → Node → Context → Unguarded (Option View)
  | 0, _, _ => ExceptT.mk none
  | depth + 1, n, c => do
    if ← ofExcept (n.isVisible c) then
      let props ← ofExcept (c.bindProps (n.props.getD []))
      let children ← inlinedContents (inlined theme registry depth) registry n c
      pure (some
        { type := n.type, id := n.id, style := theme.mergedStyle n.style n.inlineStyle, props, children })
    else pure none

/-! ## Deeper inlining -/

section

variable {α β γ : Type}

/-- Where the first computation has an outcome, the second one has the same. -/
def Extends (a b : Unguarded α) : Prop := ∀ x, a.run = some x → b.run = some x

theorem Extends.refl (a : Unguarded α) : Extends a a := fun _ h => h

theorem Extends.trans {a b d : Unguarded α} (hab : Extends a b) (hbd : Extends b d) : Extends a d :=
  fun x h => hbd x (hab x h)

theorem Extends.bind {a b : Unguarded α} {f g : α → Unguarded β} (h : Extends a b)
    (hnext : ∀ x, Extends (f x) (g x)) : Extends (a >>= f) (b >>= g) := by
  intro y hy
  rw [ExceptT.run_bind] at hy ⊢
  cases ha : a.run with
  | none =>
    rw [ha] at hy
    cases hy
  | some outcome =>
    rw [ha] at hy
    rw [h outcome ha]
    cases outcome with
    | error e => exact hy
    | ok x => exact hnext x y hy

theorem Extends.map {a b : Unguarded α} (h : Extends a b) (f : α → β) : Extends (f <$> a) (f <$> b) := by
  rw [map_eq_pure_bind, map_eq_pure_bind]
  exact h.bind fun x => .refl _

theorem Extends.mapM {f g : γ → Unguarded α} (h : ∀ e, Extends (f e) (g e)) (l : List γ) :
    Extends (l.mapM f) (l.mapM g) := by
  induction l with
  | nil => exact .refl _
  | cons e l ih =>
    rw [List.mapM_cons, List.mapM_cons]
    exact (h e).bind fun x => ih.bind fun xs => .refl _

theorem inlinedContents_extends {inline deeper : Node → Context → Unguarded (Option View)}
    (h : ∀ m c, Extends (inline m c) (deeper m c)) (registry : Registry) (n : Node) (c : Context) :
    Extends (n.inlinedContents inline registry c) (n.inlinedContents deeper registry c) := by
  have hchildren := (Extends.mapM (fun m => h m c) n.childNodes).map List.reduceOption
  unfold inlinedContents
  split
  · split
    · exact (Extends.refl _).bind fun items => (Extends.mapM (fun e => h _ _) _).map List.reduceOption
    · exact .refl _
  · split
    · refine (Extends.refl _).bind fun instantiated => ?_
      cases instantiated with
      | none => exact .refl _
      | some found => exact (h _ _).map Option.toList
    · exact .refl _
  · split
    · exact (h _ _).map Option.toList
    · exact hchildren
  · exact hchildren

/-- What is inlined at some depth is inlined alike at the next. -/
theorem inlined_extends_succ (theme : Theme) (registry : Registry) (depth : Nat) (n : Node) (c : Context) :
    Extends (n.inlined theme registry depth c) (n.inlined theme registry (depth + 1) c) := by
  induction depth generalizing n c with
  | zero =>
    intro x hx
    cases hx
  | succ depth ih =>
    rw [inlined, inlined]
    refine (Extends.refl _).bind fun isVisible => ?_
    cases isVisible with
    | false => exact .refl _
    | true =>
      refine (Extends.refl _).bind fun props => ?_
      exact (inlinedContents_extends ih registry n c).bind fun children => .refl _

theorem inlined_extends (theme : Theme) (registry : Registry) {depth deeper : Nat} (h : depth ≤ deeper)
    (n : Node) (c : Context) :
    Extends (n.inlined theme registry depth c) (n.inlined theme registry deeper c) := by
  induction h with
  | refl => exact .refl _
  | step _ ih => exact ih.trans (inlined_extends_succ theme registry _ n c)

end

/-! ## Computations that end -/

section

variable {α β γ : Type}

theorem run_ofExcept (x : Except Fault α) : (ofExcept x : Unguarded α).run = some x := by
  cases x <;> rfl

theorem ofExcept_bind (x : Except Fault α) (f : α → Except Fault β) :
    (ofExcept (x >>= f) : Unguarded β) = ofExcept x >>= fun a => ofExcept (f a) := by
  cases x <;> rfl

theorem ofExcept_map (x : Except Fault α) (f : α → β) :
    (ofExcept (x.map f) : Unguarded β) = f <$> ofExcept x := by
  cases x <;> rfl

/-- Where every step of a list ends, so does the list. -/
theorem mapM_ofExcept {f : γ → Unguarded α} {g : γ → Except Fault α} {l : List γ}
    (h : ∀ e ∈ l, f e = ofExcept (g e)) : l.mapM f = ofExcept (l.mapM g) := by
  induction l with
  | nil => rfl
  | cons e l ih =>
    obtain ⟨he, hl⟩ := List.forall_mem_cons.1 h
    rw [List.mapM_cons, List.mapM_cons, he, ih hl]
    cases g e with
    | error f => rfl
    | ok a => cases l.mapM g <;> rfl

end

/-! ## The guard -/

section

variable {theme : Theme} {active : List String} {depth : Nat}

/-- At this depth the inlining of a node ends as its expansion with the components that are not on the
stack. -/
def EndsAlike (theme : Theme) (registry : Registry) (active : List String) (depth : Nat) (n : Node) : Prop :=
  ∀ c, n.inlined theme registry depth c = ofExcept (n.expandWith theme (registry.without active) c)

theorem mapM_inlined (h : ∀ m ∈ n.childNodes, EndsAlike theme registry active depth m) (c : Context) :
    (List.reduceOption <$> n.childNodes.mapM fun m => inlined theme registry depth m c) =
      ofExcept (expandAll theme (registry.without active) n.childNodes c) := by
  rw [expandAll_eq, ofExcept_map, mapM_ofExcept fun m hm => h m hm c]

/-- A component that is not on the stack is inlined as it is expanded. -/
theorem inlinedContents_component (htype : n.type = "component")
    (hactive : ∀ name, n.textProp? "name" = some name → name ∉ active)
    (hbody : ∀ name component, n.component? (registry.without active) = some (name, component) →
      EndsAlike theme registry (name :: active) depth component.body) (c : Context) :
    n.inlinedContents (inlined theme registry depth) registry c =
      ofExcept (n.expandContents theme (registry.without active) c) := by
  rw [inlinedContents, expandContents_component _ _ _ htype]
  simp only [htype]
  cases hname : n.textProp? "name" with
  | none =>
    rw [component?, hname]
    rfl
  | some name =>
    have hregistered : n.component? (registry.without active) =
        (Table.get? registry name).map (name, ·) := component?_of_not_mem hname (hactive name hname)
    cases hget : Table.get? registry name with
    | none =>
      simp only [hregistered, Registry.instantiate, hget]
      rfl
    | some component =>
      rw [hget, Option.map_some] at hregistered
      simp only [hregistered, Registry.instantiate, hget]
      cases c.resolveAll n.arguments with
      | error f => rfl
      | ok bindings =>
        have hend := hbody name component hregistered (c.child bindings)
        rw [← Registry.erase_without] at hend
        calc Option.toList <$> inlined theme registry depth component.body (c.child bindings)
          _ = Option.toList <$> ofExcept (component.body.expandWith theme
                (Table.erase (registry.without active) name) (c.child bindings)) := by rw [hend]
          _ = ofExcept ((component.body.expandWith theme
                (Table.erase (registry.without active) name) (c.child bindings)).map Option.toList) :=
              (ofExcept_map _ _).symm

/-- Where the nodes that stand inside a node are inlined as they are expanded, so is the node. -/
theorem EndsAlike.node (hchild : ∀ m ∈ n.childNodes, EndsAlike theme registry active depth m)
    (hitem : ∀ m, n.nodeProp? "itemTemplate" = some m → EndsAlike theme registry active depth m)
    (hlabel : ∀ m, n.nodeProp? "label" = some m → EndsAlike theme registry active depth m)
    (hactive : ∀ name, n.type = "component" → n.textProp? "name" = some name → name ∉ active)
    (hbody : ∀ name component, n.type = "component" →
      n.component? (registry.without active) = some (name, component) →
      EndsAlike theme registry (name :: active) depth component.body) :
    EndsAlike theme registry active (depth + 1) n := by
  intro c
  have hcontents : n.inlinedContents (inlined theme registry depth) registry c =
      ofExcept (n.expandContents theme (registry.without active) c) := by
    by_cases hcomponent : n.type = "component"
    · exact inlinedContents_component hcomponent (hactive · hcomponent) (hbody · · hcomponent) c
    · rw [inlinedContents]
      split
      case h_1 htype =>
        rw [expandContents_list _ _ _ htype]
        cases ht : n.nodeProp? "itemTemplate" with
        | none => rfl
        | some template =>
          have hitems (items : List (Value × Nat)) := mapM_ofExcept (l := items) fun e _ =>
            hitem _ ht (c.itemScope e.2 e.1)
          simp only [ofExcept_bind, expandItems_eq, ofExcept_map, hitems]
      case h_2 htype => exact absurd htype hcomponent
      case h_3 htype =>
        rw [expandContents_button _ _ _ htype]
        cases hl : n.nodeProp? "label" with
        | none => exact mapM_inlined hchild c
        | some label => simp only [hlabel _ hl c, ofExcept_map]
      case h_4 hlist _ hbutton =>
        rw [expandContents_other _ _ _ hlist hcomponent hbutton]
        exact mapM_inlined hchild c
  rw [inlined, expandWith, ofExcept_bind]
  congr 1
  funext isVisible
  cases isVisible with
  | false => rfl
  | true => simp only [if_true, ofExcept_bind, hcontents]; rfl

theorem get?_of_component? {name : String} {component : Component}
    (h : n.component? (registry.without active) = some (name, component)) :
    n.textProp? "name" = some name ∧ Table.get? registry name = some component := by
  obtain ⟨key, hname, hfound⟩ := Option.bind_eq_some_iff.1 h
  obtain ⟨found, hget, heq⟩ := Option.map_eq_some_iff.1 hfound
  cases heq
  rw [Registry.get?_without] at hget
  split at hget
  · cases hget
  · exact ⟨hname, hget⟩

/-- What there is at most one of may be waited for. -/
theorem eventually_of_eq_some {α : Type} {o : Option α} {p : Nat → α → Prop}
    (h : ∀ a, o = some a → ∀ᶠ depth in Filter.atTop, p depth a) :
    ∀ᶠ depth in Filter.atTop, ∀ a, o = some a → p depth a := by
  cases o with
  | none => exact .of_forall fun _ _ ha => by cases ha
  | some a =>
    refine (h a rfl).mono fun depth hdepth b hb => ?_
    cases hb
    exact hdepth

/-- With any stack of components that the node does not lead to, what is not on the stack is enough, and so
is every depth from some depth on. -/
theorem endsAlike_of_isAcyclic (theme : Theme) (registry : Registry) (available : Registry) (n : Node) :
    ∀ active, available = registry.without active → n.IsAcyclic registry →
      (∀ name ∈ active, ¬ n.Reaches registry name) →
      ∀ᶠ depth in Filter.atTop, EndsAlike theme registry active depth n := by
  induction available, n using expansion_induction with
  | node available n hchild hprop hbody =>
    rintro active rfl hacyclic hactive
    have hchildren : ∀ᶠ depth in Filter.atTop,
        ∀ m ∈ n.childNodes, EndsAlike theme registry active depth m := by
      refine (Filter.eventually_all_finite n.childNodes.finite_toSet).2 fun m hm => ?_
      exact hchild m hm active rfl (fun name h => hacyclic name (h.of_child hm))
        fun name hmem h => hactive name hmem (h.of_child hm)
    have hprops (key : String) : ∀ᶠ depth in Filter.atTop,
        ∀ m, n.nodeProp? key = some m → EndsAlike theme registry active depth m := by
      refine eventually_of_eq_some fun m hm => ?_
      exact hprop key m hm active rfl (fun name h => hacyclic name (h.of_prop hm))
        fun name hmem h => hactive name hmem (h.of_prop hm)
    have hbodies : ∀ᶠ depth in Filter.atTop,
        ∀ found, n.component? (registry.without active) = some found → n.type = "component" →
          EndsAlike theme registry (found.1 :: active) depth found.2.body := by
      refine eventually_of_eq_some fun found hfound => ?_
      by_cases htype : n.type = "component"
      · obtain ⟨name, component⟩ := found
        obtain ⟨hname, hget⟩ := get?_of_component? hfound
        -- The body does not lead to the component itself, and nowhere that the node does not lead to.
        have hself : n.Reaches registry name := reaches_name htype hname
        have hinside : ∀ other, component.body.Reaches registry other → n.Reaches registry other :=
          fun other h => hself.trans (h.transGen hget).to_reflTransGen
        have hbelow : ∀ other ∈ name :: active, ¬ component.body.Reaches registry other :=
          List.forall_mem_cons.2 ⟨fun h => hacyclic name hself (h.transGen hget),
            fun other hmem h => hactive other hmem (hinside other h)⟩
        have hends := hbody name component hfound (name :: active) (Registry.erase_without _ _ _)
          (fun other h => hacyclic other (hinside other h)) hbelow
        exact hends.mono fun depth hdepth _ => hdepth
      · exact .of_forall fun depth h => absurd h htype
    obtain ⟨enough, henough⟩ := Filter.eventually_atTop.1
      (hchildren.and ((hprops "itemTemplate").and ((hprops "label").and hbodies)))
    refine Filter.eventually_atTop.2 ⟨enough + 1, fun depth hdepth => ?_⟩
    obtain ⟨d, rfl⟩ := Nat.exists_eq_add_of_le' (Nat.le_of_add_left_le hdepth)
    obtain ⟨hchildren, hitem, hlabel, hbodies⟩ := henough d (Nat.le_of_succ_le_succ hdepth)
    exact .node hchildren hitem hlabel
      (fun name htype hname hmem => hactive name hmem (reaches_name htype hname))
      fun name component htype hfound => hbodies (name, component) hfound htype

/-- **The recursion guard is invisible where nothing recurs.** Of a node that leads to no component that leads
to itself the plain inlining ends, from some depth on, and wherever it ends it gives the expansion of the
node, at whatever depth and however often a component is used; or both meet the same fault. -/
theorem expand_eq_inlined (theme : Theme) (registry : Registry) (n : Node) (c : Context)
    (h : n.IsAcyclic registry) :
    (∃ enough, ∀ depth, enough ≤ depth →
      (n.inlined theme registry depth c).run = some (n.expand theme registry c)) ∧
    ∀ depth outcome, (n.inlined theme registry depth c).run = some outcome →
      outcome = n.expand theme registry c := by
  have hends := endsAlike_of_isAcyclic theme registry registry n [] (Registry.without_nil registry).symm h
    fun _ hmem => absurd hmem List.not_mem_nil
  obtain ⟨enough, henough⟩ := Filter.eventually_atTop.1 hends
  have hend (depth : Nat) (hdepth : enough ≤ depth) :
      (n.inlined theme registry depth c).run = some (n.expand theme registry c) := by
    rw [henough depth hdepth c, run_ofExcept, Registry.without_nil, expand]
  refine ⟨⟨enough, hend⟩, fun depth outcome houtcome => ?_⟩
  have hdeeper := inlined_extends theme registry (Nat.le_max_left depth enough) n c outcome houtcome
  exact Option.some.inj (hdeeper.symm.trans (hend _ (Nat.le_max_right depth enough)))

end

/-! ## A node without circles -/

theorem IsWithin.eq_of_leaf (h : m.IsWithin n) (hchildren : n.childNodes = [])
    (hprops : ∀ key, n.nodeProp? key = none) : m = n := by
  cases h with
  | self => rfl
  | child hk _ => simp [hchildren] at hk
  | prop hk _ => simp [hprops] at hk

/-- Where components refer to lower ones only, no node leads to a circle. -/
theorem isAcyclic_of_rank (rank : String → Nat)
    (h : ∀ name other, registry.Refers name other → rank other < rank name) (n : Node) :
    n.IsAcyclic registry := by
  have hpath {name other : String} (hpath : Relation.TransGen registry.Refers name other) :
      rank other < rank name := by
    induction hpath with
    | single hstep => exact h _ _ hstep
    | tail _ hstep ih => exact Nat.lt_trans (h _ _ hstep) ih
  exact fun name _ hself => Nat.lt_irrefl _ (hpath hself)

/-- A node that uses a component and holds nothing else. -/
def use (name : String) : Node := { type := "component", props := some [("name", .string name)] }

theorem eq_of_refersTo_use {name other : String} (h : (use name).RefersTo other) : other = name := by
  obtain ⟨m, hm, -, hname⟩ := h
  have hprops (key : String) : (use name).nodeProp? key = none := by
    by_cases hkey : "name" = key
    · subst hkey
      rfl
    · simp [nodeProp?, prop?, use, Table.get?, hkey]
  cases hm.eq_of_leaf rfl hprops
  exact (Option.some.inj hname).symm

/-- A component that is used beside and inside another one, which is used twice. -/
theorem expand_eq_inlined_shared :
    let registry : Registry := [("badge", ⟨[], { type := "text" }⟩), ("card", ⟨[], use "badge"⟩)]
    let n : Node := { type := "hstack", children := some [use "card", use "badge", use "card"] }
    let view (name : String) (child : View) : View :=
      { type := "component", props := [("name", .string name)], children := [child] }
    let badge := view "badge" { type := "text" }
    let shown : View := { type := "hstack", children := [view "card" badge, badge, view "card" badge] }
    n.IsAcyclic registry ∧
    (∃ enough, ∀ depth, enough ≤ depth →
      (n.inlined {} registry depth ⟨[], []⟩).run = some (.ok (some shown))) ∧
    ∀ depth outcome, (n.inlined {} registry depth ⟨[], []⟩).run = some outcome →
      outcome = .ok (some shown) := by
  intro registry n view badge shown
  have hacyclic : n.IsAcyclic registry := by
    refine isAcyclic_of_rank (fun name => if name = "card" then 1 else 0) ?_ n
    rintro name other ⟨component, hget, hrefers⟩
    rcases List.mem_pair.1 (Table.mem_of_get? hget) with heq | heq
    · cases heq
      obtain ⟨m, hm, htype, -⟩ := hrefers
      cases hm.eq_of_leaf rfl fun _ => rfl
      exact absurd htype (by decide)
    · cases heq
      cases eq_of_refersTo_use hrefers
      decide
  have hexpand : n.expand {} registry ⟨[], []⟩ = .ok (some shown) := by cbv
  exact ⟨hacyclic, hexpand ▸ expand_eq_inlined {} registry n ⟨[], []⟩ hacyclic⟩

end Node

end ViewEngine
