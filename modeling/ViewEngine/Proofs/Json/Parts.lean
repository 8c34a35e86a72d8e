import ViewEngine.Document.Depth

/-!
# Parts of a datum

What stands inside a datum, and the conditions under which JSON text holds it.
-/

namespace ViewEngine.Json

mutual

/-- A datum and everything inside it. -/
def parts : Json → List Json
  | array items => array items :: itemParts items
  | object members => object members :: memberParts members
  | j => [j]

def itemParts : List Json → List Json
  | [] => []
  | j :: rest => parts j ++ itemParts rest

def memberParts : List (String × Json) → List Json
  | [] => []
  | (_, j) :: rest => parts j ++ memberParts rest

end

theorem mem_itemParts {x : Json} {items : List Json} :
    x ∈ itemParts items ↔ ∃ j ∈ items, x ∈ j.parts := by
  induction items with
  | nil => simp [itemParts]
  | cons j rest ih => simp [itemParts, ih]

theorem mem_memberParts {x : Json} {members : List (String × Json)} :
    x ∈ memberParts members ↔ ∃ m ∈ members, x ∈ m.2.parts := by
  induction members with
  | nil => simp [memberParts]
  | cons m rest ih =>
    obtain ⟨key, j⟩ := m
    simp [memberParts, ih]

theorem itemsDepth_le {n : Nat} {items : List Json} :
    itemsDepth items ≤ n ↔ ∀ j ∈ items, j.depth ≤ n := by
  induction items with
  | nil => simp [itemsDepth]
  | cons j rest ih => rw [itemsDepth, Nat.max_le, ih, List.forall_mem_cons]

theorem membersDepth_le {n : Nat} {members : List (String × Json)} :
    membersDepth members ≤ n ↔ ∀ m ∈ members, m.2.depth ≤ n := by
  induction members with
  | nil => simp [membersDepth]
  | cons m rest ih =>
    obtain ⟨key, j⟩ := m
    rw [membersDepth, Nat.max_le, ih, List.forall_mem_cons]

theorem self_mem_parts (j : Json) : j ∈ j.parts := by
  cases j <;> simp [parts]

theorem forall_parts_leaf {p : Json → Prop} {j : Json} (hparts : j.parts = [j]) (h : p j) :
    ∀ x ∈ j.parts, p x := by
  rw [hparts]
  exact List.forall_mem_singleton.2 h

theorem forall_parts_array {p : Json → Prop} {items : List Json} :
    (∀ x ∈ (array items).parts, p x) ↔ p (array items) ∧ ∀ j ∈ items, ∀ x ∈ j.parts, p x := by
  simp only [parts, List.forall_mem_cons, mem_itemParts]
  constructor
  · rintro ⟨hself, h⟩
    exact ⟨hself, fun j hj x hx => h x ⟨j, hj, hx⟩⟩
  · rintro ⟨hself, h⟩
    exact ⟨hself, fun x ⟨j, hj, hx⟩ => h j hj x hx⟩

theorem forall_parts_object {p : Json → Prop} {members : List (String × Json)} :
    (∀ x ∈ (object members).parts, p x) ↔
      p (object members) ∧ ∀ m ∈ members, ∀ x ∈ m.2.parts, p x := by
  simp only [parts, List.forall_mem_cons, mem_memberParts]
  constructor
  · rintro ⟨hself, h⟩
    exact ⟨hself, fun m hm x hx => h x ⟨m, hm, hx⟩⟩
  · rintro ⟨hself, h⟩
    exact ⟨hself, fun x ⟨m, hm, hx⟩ => h m hm x hx⟩

/-! ## What text holds -/

/-- The integers that JSON text holds as integers. -/
def FitsInt (i : Int) : Prop := Int64.minValue.toInt ≤ i ∧ i < UInt64.size

/-- A datum that is no number, or a number that text holds as it is. -/
def Fits : Json → Prop
  | int i => FitsInt i
  | double d => d.isFinite = true
  | _ => True

/-- Every number in the datum is held by text as it is. -/
def NumbersFit (j : Json) : Prop := ∀ x ∈ j.parts, x.Fits

/-- Every part of the datum is held by text as it is. -/
def IsPrintable (j : Json) : Prop := ∀ x ∈ j.parts, x.Fits ∧ x ≠ unreadable

theorem numbersFit_array {items : List Json} : (array items).NumbersFit ↔ ∀ j ∈ items, j.NumbersFit :=
  forall_parts_array.trans ⟨And.right, fun h => ⟨trivial, h⟩⟩

theorem numbersFit_object {members : List (String × Json)} :
    (object members).NumbersFit ↔ ∀ m ∈ members, m.2.NumbersFit :=
  forall_parts_object.trans ⟨And.right, fun h => ⟨trivial, h⟩⟩

theorem isPrintable_leaf {j : Json} (hparts : j.parts = [j]) (hfits : j.Fits) (hread : j ≠ unreadable) :
    j.IsPrintable :=
  forall_parts_leaf hparts ⟨hfits, hread⟩

theorem isPrintable_array {items : List Json} :
    (array items).IsPrintable ↔ ∀ j ∈ items, j.IsPrintable :=
  forall_parts_array.trans ⟨And.right, fun h => ⟨⟨trivial, nofun⟩, h⟩⟩

theorem isPrintable_object {members : List (String × Json)} :
    (object members).IsPrintable ↔ ∀ m ∈ members, m.2.IsPrintable :=
  forall_parts_object.trans ⟨And.right, fun h => ⟨⟨trivial, nofun⟩, h⟩⟩

end ViewEngine.Json
