import ViewEngine.Expansion
import ViewEngine.Proofs.Table.Order

/-!
# Reads of a chain of scopes

A read commits to the nearest scope that binds the first component of its path, while
`Context.allData` merges from the outside in. Both find the same binding
(`findBinding?_eq_get?`), so everything that is read from a context is a function of its flattened
data: paths, texts, values, conditions and, through the scopes that an expansion opens on its way,
whole trees.
-/

namespace ViewEngine

/-- The nearest binding of a key is its binding in the flattened scopes. -/
theorem findBinding?_eq_get? (key : String) : ∀ scopes : List Fields,
    findBinding? key scopes = (scopes.foldr Table.overlay []).get? key
  | [] => rfl
  | scope :: scopes => by
    rw [List.foldr_cons, Table.get?_overlay, ← findBinding?_eq_get? key scopes, findBinding?]
    cases scope.get? key <;> rfl

namespace Context

theorem sorted_allData (c : Context) : c.allData.Sorted := by
  obtain ⟨own, outer⟩ := c
  simp only [allData]
  induction own :: outer with
  | nil => exact Table.sorted_nil
  | cons scope scopes ih => exact Table.sorted_overlay ih scope

theorem allData_child (c : Context) (bindings : Fields) :
    (c.child bindings).allData = bindings.overlay c.allData := rfl

/-- A write shows in the flattened data, over whatever was there. -/
theorem allData_set (c : Context) (key : String) (v : Value) :
    (c.set key v).allData = c.allData.insert key v := by
  refine (sorted_allData _).ext (Table.sorted_insert (sorted_allData c) key v) fun other => ?_
  have hover (own : Fields) : allData ⟨own, c.outer⟩ = own.overlay (c.outer.foldr Table.overlay []) := rfl
  have hset : (c.set key v).allData = allData ⟨c.own.insert key v, c.outer⟩ := rfl
  have hc : c.allData = allData ⟨c.own, c.outer⟩ := rfl
  rw [hset, hc, hover, hover, Table.get?_overlay, Table.get?_insert, Table.get?_insert, Table.get?_overlay]
  split <;> rfl

/-- A context with a single scope that holds the flattened data. -/
def flatten (c : Context) : Context := { own := c.allData }

theorem allData_flatten (c : Context) : c.flatten.allData = c.allData :=
  Table.overlay_nil_of_sorted (sorted_allData c)

section
variable {c₁ c₂ : Context}

theorem allData_child_congr (h : c₁.allData = c₂.allData) (bindings : Fields) :
    (c₁.child bindings).allData = (c₂.child bindings).allData := by
  rw [allData_child, allData_child, h]

/-! ## Paths, texts and values -/

theorem lookup?_congr (h : c₁.allData = c₂.allData) (path : List (List Char)) :
    c₁.lookup? path = c₂.lookup? path := by
  cases path with
  | nil => rfl
  | cons key path =>
    have hkey : findBinding? (String.ofList key) (c₁.own :: c₁.outer) =
        findBinding? (String.ofList key) (c₂.own :: c₂.outer) := by
      rw [findBinding?_eq_get?, findBinding?_eq_get?]
      exact congrArg (Table.get? · _) h
    rw [lookup?, lookup?, hkey]

theorem resolvePlain?_congr (h : c₁.allData = c₂.allData) (path : List Char) :
    c₁.resolvePlain? path = c₂.resolvePlain? path := by
  unfold resolvePlain?
  split
  · rw [h]
  · exact lookup?_congr h _
  · exact lookup?_congr h _
  · rfl

theorem resolve_congr (h : c₁.allData = c₂.allData) (path : List Char) :
    c₁.resolve path = c₂.resolve path := by
  unfold resolve
  split
  · rfl
  · rw [resolvePlain?_congr h]
  · rw [resolvePlain?_congr h]

theorem resolveString_congr (h : c₁.allData = c₂.allData) (literal : String) :
    c₁.resolveString literal = c₂.resolveString literal := by
  unfold resolveString
  split
  · rfl
  · rw [resolve_congr h]
  · rfl

theorem resolveValue_congr (h : c₁.allData = c₂.allData) (v : Value) :
    c₁.resolveValue v = c₂.resolveValue v := by
  cases v with
  | string s => simp only [resolveValue, resolve_congr h]
  | null | bool _ | int _ | double _ | array _ | object _ => rfl

theorem resolveAll_congr (h : c₁.allData = c₂.allData) (fields : Fields) :
    c₁.resolveAll fields = c₂.resolveAll fields := by
  induction fields with
  | nil => rfl
  | cons e fields ih => simp only [resolveAll, resolveValue_congr h, ih]

/-! ## Conditions -/

theorem operand_congr (h : c₁.allData = c₂.allData) (operand : List Char) :
    Condition.operand c₁ operand = Condition.operand c₂ operand := by
  simp only [Condition.operand, resolve_congr h]

theorem holds_congr (h : c₁.allData = c₂.allData) (condition : Condition) :
    condition.holds c₁ = condition.holds c₂ := by
  cases condition with
  | compare comparison left right => simp only [Condition.holds, operand_congr h]
  | present path | empty path | notEmpty path | truthy path =>
    simp only [Condition.holds, resolve_congr h]
  | never => rfl

theorem evaluate_congr (h : c₁.allData = c₂.allData) (condition : String) :
    evaluate condition c₁ = evaluate condition c₂ := holds_congr h _

/-! ## Expansion -/

theorem bindProp_congr (h : c₁.allData = c₂.allData) (role : PropRole) (v : Value) :
    c₁.bindProp role v = c₂.bindProp role v := by
  unfold bindProp
  split
  · rw [resolveString_congr h]
  · rfl
  · rfl
  · rw [resolveValue_congr h]

theorem bindProps_congr (h : c₁.allData = c₂.allData) (props : Fields) :
    c₁.bindProps props = c₂.bindProps props := by
  induction props with
  | nil => rfl
  | cons e props ih => simp only [bindProps, bindProp_congr h, ih]

theorem isVisible_congr (h : c₁.allData = c₂.allData) (n : Node) :
    n.isVisible c₁ = n.isVisible c₂ := by
  unfold Node.isVisible
  split
  · exact evaluate_congr h _
  · rfl

theorem listItems_congr (h : c₁.allData = c₂.allData) (n : Node) :
    n.listItems c₁ = n.listItems c₂ := by
  unfold Node.listItems
  split
  · rw [resolve_congr h]
  · rfl

end

end Context

namespace Node

open Context

/- The recursion of the expansion itself: a child scope is opened over contexts that read alike, so the
two contexts inside it read alike again. -/
mutual

theorem expandWith_congr (theme : Theme) (available : Registry) (n : Node) {c₁ c₂ : Context}
    (h : c₁.allData = c₂.allData) :
    n.expandWith theme available c₁ = n.expandWith theme available c₂ := by
  rw [expandWith, expandWith, isVisible_congr h, bindProps_congr h,
    expandContents_congr theme available n h]
termination_by (available.length, n.depth, 1)

theorem expandContents_congr (theme : Theme) (available : Registry) (n : Node) {c₁ c₂ : Context}
    (h : c₁.allData = c₂.allData) :
    n.expandContents theme available c₁ = n.expandContents theme available c₂ := by
  rw [expandContents, expandContents]
  split
  · split
    · rename_i template ht
      have hitems := fun items => expandItems_congr theme available template 0 items h
      simp only [listItems_congr h, hitems]
    · rfl
  · split
    · rename_i name component hc
      have hbody := fun bindings => expandWith_congr theme (available.erase name) component.body
        (allData_child_congr h bindings)
      simp only [resolveAll_congr h, hbody]
    · rfl
  · split
    · rename_i label hl
      rw [expandWith_congr theme available label h]
    · exact expandAll_congr theme available n.childNodes h
  · exact expandAll_congr theme available n.childNodes h
termination_by (available.length, n.depth, 0)
decreasing_by
  · exact .right _ (.left _ _ (depth_nodeProp? ‹_›))
  · exact .left _ _ (length_erase_lt ‹_›)
  · exact .right _ (.left _ _ (depth_nodeProp? ‹_›))
  · exact .right _ (.left _ _ (listDepth_childNodes_lt n))
  · exact .right _ (.left _ _ (listDepth_childNodes_lt n))

theorem expandAll_congr (theme : Theme) (available : Registry) (nodes : List Node)
    {c₁ c₂ : Context} (h : c₁.allData = c₂.allData) :
    expandAll theme available nodes c₁ = expandAll theme available nodes c₂ := by
  cases nodes with
  | nil => rw [expandAll, expandAll]
  | cons n rest =>
    rw [expandAll, expandAll, expandWith_congr theme available n h,
      expandAll_congr theme available rest h]
termination_by (available.length, listDepth nodes, nodes.length + 2)
decreasing_by
  · exact .right _ (.right' _ (Nat.le_max_left _ _) (Nat.lt_add_left _ Nat.one_lt_two))
  · exact .right _ (.right' _ (Nat.le_max_right _ _) (Nat.lt_succ_self _))

theorem expandItems_congr (theme : Theme) (available : Registry) (template : Node) (index : Nat)
    (items : List Value) {c₁ c₂ : Context} (h : c₁.allData = c₂.allData) :
    expandItems theme available template index items c₁ =
      expandItems theme available template index items c₂ := by
  cases items with
  | nil => rw [expandItems, expandItems]
  | cons item rest =>
    have hitem : template.expandWith theme available (c₁.itemScope index item) =
        template.expandWith theme available (c₂.itemScope index item) :=
      expandWith_congr theme available template (allData_child_congr h _)
    rw [expandItems, expandItems, hitem,
      expandItems_congr theme available template (index + 1) rest h]
termination_by (available.length, template.depth, items.length + 2)

end

end Node

namespace Context

/-- **Reads see only the flattened chain.** Two chains of scopes with the same flattened data agree on
every path, text, value and condition and on the expansion of every tree, faults included; in
particular a chain agrees with the single scope that holds its flattened data. -/
theorem reads_eq_of_allData_eq {c₁ c₂ : Context} (h : c₁.allData = c₂.allData) :
    (∀ path, c₁.resolve path = c₂.resolve path) ∧
    (∀ literal, c₁.resolveString literal = c₂.resolveString literal) ∧
    (∀ v, c₁.resolveValue v = c₂.resolveValue v) ∧
    (∀ condition, evaluate condition c₁ = evaluate condition c₂) ∧
    (∀ (n : Node) theme registry, n.expand theme registry c₁ = n.expand theme registry c₂) ∧
    (∀ path, c₁.resolve path = c₁.flatten.resolve path) := by
  refine ⟨resolve_congr h, resolveString_congr h, resolveValue_congr h, evaluate_congr h, ?_, ?_⟩
  · intro n theme registry
    exact Node.expandWith_congr theme registry n h
  · intro path
    exact resolve_congr (allData_flatten c₁).symm path

/-- A shadowed binding further out does not show. -/
theorem reads_eq_of_shadowed :
    let deep : Context := ⟨[("b", .int 2)], [[("a", .int 1), ("b", .null)]]⟩
    let flat : Context := ⟨[("a", .int 1), ("b", .int 2)], []⟩
    deep.allData = flat.allData ∧ ∀ path, deep.resolve path = flat.resolve path :=
  have h : allData ⟨[("b", .int 2)], [[("a", .int 1), ("b", .null)]]⟩ =
      allData ⟨[("a", .int 1), ("b", .int 2)], []⟩ := by rfl
  ⟨h, (reads_eq_of_allData_eq h).1⟩

end Context

end ViewEngine
