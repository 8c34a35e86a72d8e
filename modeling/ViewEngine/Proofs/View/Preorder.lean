import ViewEngine.View

/-!
# Views in pre-order

Searching, counting and outlining go through a tree in one order: a view, then what is inside its children, from
left to right (`View.preorder`). Each view of the tree has a place, the indices of the children on the way to it
from the root, and pre-order is the lexicographic order of the places (`View.pairwise_places`), of which none is
left out (`View.mem_places_iff`). The depth of a view is the length of its place.
-/

namespace ViewEngine.View

mutual

/-- A view and all that are inside it, each before its children and the children from left to right. -/
def preorder : View → List View
  | ⟨type, id, style, props, children⟩ => ⟨type, id, style, props, children⟩ :: preorderAll children

def preorderAll : List View → List View
  | [] => []
  | view :: views => preorder view ++ preorderAll views

end

/-- The view at a place: under the child with the first index, and so on. -/
def viewAt? (v : View) : List Nat → Option View
  | [] => some v
  | index :: place => v.children[index]?.bind fun w => w.viewAt? place

mutual

/-- The views in pre-order with their places. -/
def places : View → List (List Nat × View)
  | ⟨type, id, style, props, children⟩ => ([], ⟨type, id, style, props, children⟩) :: placesFrom 0 children

/-- The same for the children from an index on. -/
def placesFrom (index : Nat) : List View → List (List Nat × View)
  | [] => []
  | view :: views => (places view).map (fun e => (index :: e.1, e.2)) ++ placesFrom (index + 1) views

end

/-! ## Places -/

mutual

theorem map_snd_places : (v : View) → v.places.map Prod.snd = v.preorder
  | ⟨_, _, _, _, children⟩ => by
    rw [places, preorder, List.map_cons, map_snd_placesFrom 0 children]

theorem map_snd_placesFrom (index : Nat) : (views : List View) →
    (placesFrom index views).map Prod.snd = preorderAll views
  | [] => rfl
  | view :: views => by
    rw [placesFrom, preorderAll, List.map_append, List.map_map, ← map_snd_places view,
      ← map_snd_placesFrom (index + 1) views]
    rfl

end

mutual

theorem mem_places_iff {place : List Nat} {w : View} : (v : View) →
    ((place, w) ∈ v.places ↔ v.viewAt? place = some w)
  | ⟨_, _, _, _, children⟩ => by
    rw [places, List.mem_cons, mem_placesFrom_iff 0 children]
    cases place with
    | nil => simp [viewAt?, eq_comm]
    | cons index place => simp [viewAt?, and_assoc]

theorem mem_placesFrom_iff {place : List Nat} {w : View} (index : Nat) : (views : List View) →
    ((place, w) ∈ placesFrom index views ↔
      ∃ i rest, place = (index + i) :: rest ∧ (views[i]?.bind fun v => v.viewAt? rest) = some w)
  | [] => by simp [placesFrom]
  | view :: views => by
    have hhere : (place, w) ∈ view.places.map (fun e => (index :: e.1, e.2)) ↔
        ∃ rest, place = index :: rest ∧ view.viewAt? rest = some w := by
      simp only [List.mem_map, Prod.mk.injEq, Prod.exists]
      constructor
      · rintro ⟨rest, u, hmem, rfl, rfl⟩
        exact ⟨rest, rfl, (mem_places_iff view).1 hmem⟩
      · rintro ⟨rest, rfl, hat⟩
        exact ⟨rest, w, (mem_places_iff view).2 hat, rfl, rfl⟩
    rw [placesFrom, List.mem_append, hhere, mem_placesFrom_iff (index + 1) views]
    constructor
    · rintro (⟨rest, rfl, hat⟩ | ⟨i, rest, rfl, hat⟩)
      · exact ⟨0, rest, rfl, hat⟩
      · exact ⟨i + 1, rest, by rw [Nat.add_right_comm, Nat.add_assoc], hat⟩
    · rintro ⟨i, rest, rfl, hat⟩
      cases i with
      | zero => exact .inl ⟨rest, rfl, hat⟩
      | succ i => exact .inr ⟨i, rest, by rw [Nat.add_right_comm, Nat.add_assoc], hat⟩

end

mutual

/-- Pre-order is the lexicographic order of the places. -/
theorem pairwise_places : (v : View) → v.places.Pairwise fun a b => a.1 < b.1
  | ⟨_, _, _, _, children⟩ => by
    rw [places, List.pairwise_cons]
    refine ⟨fun e he => ?_, pairwise_placesFrom 0 children⟩
    obtain ⟨i, rest, hplace, -⟩ := (mem_placesFrom_iff 0 children).1 he
    rw [hplace]
    exact List.nil_lt_cons _ _

theorem pairwise_placesFrom (index : Nat) : (views : List View) →
    (placesFrom index views).Pairwise fun a b => a.1 < b.1
  | [] => .nil
  | view :: views => by
    rw [placesFrom, List.pairwise_append]
    refine ⟨?_, pairwise_placesFrom (index + 1) views, fun a ha b hb => ?_⟩
    · rw [List.pairwise_map]
      exact (pairwise_places view).imp fun h => List.cons_lt_cons_self.2 h
    · obtain ⟨e, -, rfl⟩ := List.mem_map.1 ha
      obtain ⟨i, rest, hplace, -⟩ := (mem_placesFrom_iff (index + 1) views).1 hb
      rw [hplace]
      exact List.cons_lt_cons_iff.2 (.inl (by omega))

end

/-! ## Searching, counting and outlining -/

mutual

theorem find?_eq_find?_preorder (id : String) : (v : View) →
    v.find? id = v.preorder.find? fun w => w.id = some id
  | ⟨_, own, _, _, children⟩ => by
    rw [find?, preorder, List.find?_cons, findIn?_eq_find?_preorderAll id children]
    by_cases h : own = some id
    · simp [h]
    · simp [h]

theorem findIn?_eq_find?_preorderAll (id : String) : (views : List View) →
    findIn? id views = (preorderAll views).find? fun w => w.id = some id
  | [] => rfl
  | view :: views => by
    rw [findIn?, preorderAll, List.find?_append, find?_eq_find?_preorder id view,
      findIn?_eq_find?_preorderAll id views]

end

mutual

theorem count_eq_length_preorder : (v : View) → v.count = v.preorder.length
  | ⟨_, _, _, _, children⟩ => by
    rw [count, preorder, List.length_cons, countAll_eq_length_preorderAll children, Nat.add_comm]

theorem countAll_eq_length_preorderAll : (views : List View) → countAll views = (preorderAll views).length
  | [] => rfl
  | view :: views => by
    rw [countAll, preorderAll, List.length_append, count_eq_length_preorder view,
      countAll_eq_length_preorderAll views]

end

/-- Two spaces for each level. -/
def indent (depth : Nat) : String := String.ofList (List.replicate (2 * depth) ' ')

/-- The line of a view without its indentation. -/
def ownLine (v : View) : String := line 0 v.type v.id v.props

theorem line_eq_indent_append (v : View) (depth : Nat) :
    line depth v.type v.id v.props = indent depth ++ v.ownLine := by
  simp only [ownLine, line, indent, ← String.ofList_append, Nat.mul_zero, List.replicate_zero, List.nil_append,
    List.append_assoc]

mutual

theorem outline_eq_map_places (level : Nat) : (v : View) →
    v.outline level = v.places.map fun e => indent (level + e.1.length) ++ e.2.ownLine
  | ⟨type, id, style, props, children⟩ => by
    rw [outline, places, List.map_cons, outlineAll_eq_map_placesFrom level 0 children]
    exact congrArg (· :: _) (line_eq_indent_append ⟨type, id, style, props, children⟩ level)

/-- The first index of a place tells which child it is; it counts for one level, whichever it is. -/
theorem outlineAll_eq_map_placesFrom (level index : Nat) : (views : List View) →
    outlineAll (level + 1) views =
      (placesFrom index views).map fun e => indent (level + e.1.length) ++ e.2.ownLine
  | [] => rfl
  | view :: views => by
    rw [outlineAll, placesFrom, List.map_append, List.map_map, outline_eq_map_places (level + 1) view,
      outlineAll_eq_map_placesFrom level (index + 1) views]
    simp only [Function.comp_def, List.length_cons, Nat.add_assoc, Nat.add_comm 1]

end

/-- **Searching, counting and outlining go through a tree in pre-order.** The first view with an id is found, and
none only if no view has it; each view counts once; and each has one line, indented by two spaces for each level
above it. The views are those at the places of the tree, in the order of the places. -/
theorem traversals_agree (v : View) :
    (∀ id, v.find? id = v.preorder.find? fun w => w.id = some id) ∧
    (∀ id, v.find? id = none ↔ ∀ w ∈ v.preorder, w.id ≠ some id) ∧
    v.count = v.preorder.length ∧
    v.outline 0 = v.places.map (fun e => indent e.1.length ++ e.2.ownLine) ∧
    v.places.map Prod.snd = v.preorder ∧
    (∀ place w, (place, w) ∈ v.places ↔ v.viewAt? place = some w) ∧
    v.places.Pairwise fun a b => a.1 < b.1 := by
  refine ⟨fun id => find?_eq_find?_preorder id v, fun id => ?_, count_eq_length_preorder v, ?_,
    map_snd_places v, fun place w => mem_places_iff v, pairwise_places v⟩
  · rw [find?_eq_find?_preorder, List.find?_eq_none]
    simp only [decide_eq_true_eq, ne_eq]
  · rw [outline_eq_map_places]
    simp only [Nat.zero_add]

end ViewEngine.View
