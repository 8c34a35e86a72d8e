import ViewEngine.Proofs.Binary64.Rounding
import ViewEngine.Proofs.Json.Parts
import ViewEngine.Proofs.Table.Order
import ViewEngine.Value.Codec

/-!
# Parts of a value

What stands inside a value. Two conditions are about the parts: every double is finite, which writing
asks for, and the fields of every object are a table, which every operation on values keeps so.
-/

namespace ViewEngine.Value

mutual

/-- A value and everything inside it. -/
def parts : Value → List Value
  | array items => array items :: itemParts items
  | object fields => object fields :: fieldParts fields
  | v => [v]

def itemParts : List Value → List Value
  | [] => []
  | v :: rest => parts v ++ itemParts rest

def fieldParts : List (String × Value) → List Value
  | [] => []
  | (_, v) :: rest => parts v ++ fieldParts rest

end

theorem mem_itemParts {x : Value} {items : List Value} :
    x ∈ itemParts items ↔ ∃ v ∈ items, x ∈ v.parts := by
  induction items with
  | nil => simp [itemParts]
  | cons v rest ih => simp [itemParts, ih]

theorem mem_fieldParts {x : Value} {fields : List (String × Value)} :
    x ∈ fieldParts fields ↔ ∃ e ∈ fields, x ∈ e.2.parts := by
  induction fields with
  | nil => simp [fieldParts]
  | cons e rest ih =>
    obtain ⟨key, v⟩ := e
    simp [fieldParts, ih]

theorem mem_parts_array {x : Value} {items : List Value} :
    x ∈ (array items).parts ↔ x = array items ∨ ∃ v ∈ items, x ∈ v.parts := by
  rw [parts, List.mem_cons, mem_itemParts]

theorem mem_parts_object {x : Value} {fields : List (String × Value)} :
    x ∈ (object fields).parts ↔ x = object fields ∨ ∃ e ∈ fields, x ∈ e.2.parts := by
  rw [parts, List.mem_cons, mem_fieldParts]

/-! ## Finite doubles -/

/-- No double inside the value is infinite or not a number. -/
def IsFinite (v : Value) : Prop := ∀ d, double d ∈ v.parts → d.isFinite = true

theorem isFinite_array {items : List Value} : (array items).IsFinite ↔ ∀ v ∈ items, v.IsFinite := by
  constructor
  · intro h v hv d hd
    exact h d (mem_parts_array.2 (Or.inr ⟨v, hv, hd⟩))
  · intro h d hd
    rcases mem_parts_array.1 hd with hd | ⟨v, hv, hd⟩
    · cases hd
    · exact h v hv d hd

theorem isFinite_object {fields : List (String × Value)} :
    (object fields).IsFinite ↔ ∀ e ∈ fields, e.2.IsFinite := by
  constructor
  · intro h e he d hd
    exact h d (mem_parts_object.2 (Or.inr ⟨e, he, hd⟩))
  · intro h d hd
    rcases mem_parts_object.1 hd with hd | ⟨e, he, hd⟩
    · cases hd
    · exact h e he d hd

theorem isFinite_double {d : Binary64} : (double d).IsFinite ↔ d.isFinite = true := by
  simp [IsFinite, parts]

mutual

/-- Writing finds no double to refuse exactly where all are finite. -/
theorem firstNonFinite?_eq_none : ∀ v : Value, v.firstNonFinite? = none ↔ v.IsFinite
  | null | bool _ | int _ | string _ => by simp [firstNonFinite?, IsFinite, parts]
  | double d => by
    rw [isFinite_double, firstNonFinite?]
    cases d.isFinite <;> simp
  | array items => by rw [isFinite_array, firstNonFinite?, firstNonFiniteItem?_eq_none items]
  | object fields => by rw [isFinite_object, firstNonFinite?, firstNonFiniteField?_eq_none fields]

theorem firstNonFiniteItem?_eq_none :
    ∀ items : List Value, firstNonFiniteItem? items = none ↔ ∀ v ∈ items, v.IsFinite
  | [] => by simp [firstNonFiniteItem?]
  | v :: rest => by
    rw [firstNonFiniteItem?, Option.or_eq_none_iff, firstNonFinite?_eq_none v,
      firstNonFiniteItem?_eq_none rest, List.forall_mem_cons]

theorem firstNonFiniteField?_eq_none :
    ∀ fields : List (String × Value), firstNonFiniteField? fields = none ↔ ∀ e ∈ fields, e.2.IsFinite
  | [] => by simp [firstNonFiniteField?]
  | (_, v) :: rest => by
    rw [firstNonFiniteField?, Option.or_eq_none_iff, firstNonFinite?_eq_none v,
      firstNonFiniteField?_eq_none rest, List.forall_mem_cons]

end

/-! ## Tables -/

/-- The fields of every object inside the value are a table: each key once, in increasing order. -/
def IsTabled (v : Value) : Prop := ∀ fields, object fields ∈ v.parts → Table.Sorted fields

theorem isTabled_string (s : String) : (string s).IsTabled := by simp [IsTabled, parts]

theorem isTabled_array {items : List Value} : (array items).IsTabled ↔ ∀ v ∈ items, v.IsTabled := by
  constructor
  · intro h v hv fields hf
    exact h fields (mem_parts_array.2 (Or.inr ⟨v, hv, hf⟩))
  · intro h fields hf
    rcases mem_parts_array.1 hf with hf | ⟨v, hv, hf⟩
    · cases hf
    · exact h v hv fields hf

theorem isTabled_object {fields : List (String × Value)} :
    (object fields).IsTabled ↔ Table.Sorted fields ∧ ∀ e ∈ fields, e.2.IsTabled := by
  constructor
  · intro h
    exact ⟨h fields (mem_parts_object.2 (Or.inl rfl)),
      fun e he fs hf => h fs (mem_parts_object.2 (Or.inr ⟨e, he, hf⟩))⟩
  · rintro ⟨hsorted, h⟩ fs hf
    rcases mem_parts_object.1 hf with hf | ⟨e, he, hf⟩
    · cases hf
      exact hsorted
    · exact h e he fs hf

end ViewEngine.Value
