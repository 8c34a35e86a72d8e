import ViewEngine.Proofs.Value.Parts

/-!
# Equality of values

Equality compares doubles by their number, so it is not reflexive: what is not a number differs from itself, and
so does every array or object that holds such a double at some depth. Nothing else does (`equal_self_iff`), and
equality is symmetric and transitive (`equal_comm`, `equal_trans`).
-/

namespace ViewEngine

namespace Binary64

theorem equal_comm (a b : Binary64) : a.equal b = b.equal a := by
  simp only [equal, Bool.and_comm, eq_comm]

theorem equal_trans {a b c : Binary64} (hab : a.equal b = true) (hbc : b.equal c = true) : a.equal c = true := by
  simp only [equal, Bool.and_eq_true, Bool.not_eq_true', decide_eq_true_eq] at hab hbc ⊢
  obtain ⟨⟨ha, -⟩, hpos⟩ := hab
  obtain ⟨⟨-, hc⟩, hpos'⟩ := hbc
  exact ⟨⟨ha, hc⟩, hpos.trans hpos'⟩

theorem equal_self (a : Binary64) : a.equal a = !a.isNaN := by
  simp [equal]

end Binary64

namespace Value

/-! ## Symmetry -/

mutual

theorem equal_comm : ∀ a b : Value, a.equal b = b.equal a
  | array as, b => by
    cases b with
    | array bs => exact equalItems_comm as bs
    | _ => rfl
  | object as, b => by
    cases b with
    | object bs => exact equalFields_comm as bs
    | _ => rfl
  | double d, b => by
    cases b with
    | double e => exact d.equal_comm e
    | _ => rfl
  | null, b | bool _, b | int _, b | string _, b => by
    cases b <;> first | rfl | exact BEq.comm

theorem equalItems_comm : ∀ as bs : List Value, equalItems as bs = equalItems bs as
  | [], [] | [], _ :: _ | _ :: _, [] => rfl
  | a :: as, b :: bs => by
    rw [equalItems, equalItems, equal_comm a b, equalItems_comm as bs]

theorem equalFields_comm : ∀ as bs : List (String × Value), equalFields as bs = equalFields bs as
  | [], [] | [], _ :: _ | _ :: _, [] => rfl
  | (k, a) :: as, (l, b) :: bs => by
    rw [equalFields, equalFields, equal_comm a b, equalFields_comm as bs, BEq.comm (a := k)]

end

/-! ## Transitivity -/

/-- What a value equals: arrays, objects and doubles equal their like, and all else only itself. -/
theorem equal_iff (a b : Value) : a.equal b = true ↔ match a with
    | array as => ∃ bs, b = array bs ∧ equalItems as bs = true
    | object as => ∃ bs, b = object bs ∧ equalFields as bs = true
    | double d => ∃ e, b = double e ∧ d.equal e = true
    | a => a = b := by
  cases a <;> cases b <;> simp [equal]

mutual

theorem equal_trans : ∀ (a : Value) {b c : Value}, a.equal b = true → b.equal c = true → a.equal c = true
  | array as, b, c, hab, hbc => by
    obtain ⟨bs, rfl, hab⟩ := (equal_iff _ _).1 hab
    obtain ⟨cs, rfl, hbc⟩ := (equal_iff _ _).1 hbc
    exact equalItems_trans as hab hbc
  | object as, b, c, hab, hbc => by
    obtain ⟨bs, rfl, hab⟩ := (equal_iff _ _).1 hab
    obtain ⟨cs, rfl, hbc⟩ := (equal_iff _ _).1 hbc
    exact equalFields_trans as hab hbc
  | double d, b, c, hab, hbc => by
    obtain ⟨e, rfl, hab⟩ := (equal_iff _ _).1 hab
    obtain ⟨f, rfl, hbc⟩ := (equal_iff _ _).1 hbc
    exact Binary64.equal_trans hab hbc
  | null, b, c, hab, hbc | bool _, b, c, hab, hbc | int _, b, c, hab, hbc | string _, b, c, hab, hbc => by
    obtain rfl := (equal_iff _ _).1 hab
    exact hbc

theorem equalItems_trans : ∀ (as : List Value) {bs cs : List Value},
    equalItems as bs = true → equalItems bs cs = true → equalItems as cs = true
  | [], [], [], _, _ => rfl
  | a :: as, b :: bs, c :: cs, hab, hbc => by
    rw [equalItems, Bool.and_eq_true] at hab hbc ⊢
    exact ⟨equal_trans a hab.1 hbc.1, equalItems_trans as hab.2 hbc.2⟩

theorem equalFields_trans : ∀ (as : List (String × Value)) {bs cs : List (String × Value)},
    equalFields as bs = true → equalFields bs cs = true → equalFields as cs = true
  | [], [], [], _, _ => rfl
  | (k, a) :: as, (l, b) :: bs, (m, c) :: cs, hab, hbc => by
    simp only [equalFields, Bool.and_eq_true, beq_iff_eq] at hab hbc ⊢
    obtain ⟨⟨hkl, hab⟩, hrest⟩ := hab
    obtain ⟨⟨hlm, hbc⟩, hrest'⟩ := hbc
    exact ⟨⟨hkl.trans hlm, equal_trans a hab hbc⟩, equalFields_trans as hrest hrest'⟩

end

/-! ## What differs from itself -/

/-- A double inside the value is not a number. -/
def HoldsNaN (v : Value) : Prop := ∃ d, double d ∈ v.parts ∧ d.isNaN = true

theorem holdsNaN_array {items : List Value} : (array items).HoldsNaN ↔ ∃ v ∈ items, v.HoldsNaN := by
  constructor
  · rintro ⟨d, hd, hnan⟩
    rcases mem_parts_array.1 hd with hd | ⟨v, hv, hd⟩
    · cases hd
    · exact ⟨v, hv, d, hd, hnan⟩
  · rintro ⟨v, hv, d, hd, hnan⟩
    exact ⟨d, mem_parts_array.2 (.inr ⟨v, hv, hd⟩), hnan⟩

theorem holdsNaN_object {fields : List (String × Value)} :
    (object fields).HoldsNaN ↔ ∃ e ∈ fields, e.2.HoldsNaN := by
  constructor
  · rintro ⟨d, hd, hnan⟩
    rcases mem_parts_object.1 hd with hd | ⟨e, he, hd⟩
    · cases hd
    · exact ⟨e, he, d, hd, hnan⟩
  · rintro ⟨e, he, d, hd, hnan⟩
    exact ⟨d, mem_parts_object.2 (.inr ⟨e, he, hd⟩), hnan⟩

mutual

/-- **A value differs from itself exactly if it holds a double that is not a number.** -/
theorem equal_self_iff : ∀ v : Value, v.equal v = true ↔ ¬ v.HoldsNaN
  | null | bool _ | int _ | string _ => by simp [equal, HoldsNaN, parts]
  | double d => by simp [equal, Binary64.equal_self, HoldsNaN, parts]
  | array items => by
    rw [equal, equalItems_self_iff items, holdsNaN_array]
    simp
  | object fields => by
    rw [equal, equalFields_self_iff fields, holdsNaN_object]
    simp

theorem equalItems_self_iff : ∀ items : List Value, equalItems items items = true ↔ ∀ v ∈ items, ¬ v.HoldsNaN
  | [] => by simp [equalItems]
  | v :: rest => by
    rw [equalItems, Bool.and_eq_true, equal_self_iff v, equalItems_self_iff rest, List.forall_mem_cons]

theorem equalFields_self_iff : ∀ fields : List (String × Value),
    equalFields fields fields = true ↔ ∀ e ∈ fields, ¬ e.2.HoldsNaN
  | [] => by simp [equalFields]
  | (_, v) :: rest => by
    rw [equalFields, Bool.and_eq_true, Bool.and_eq_true, equal_self_iff v, equalFields_self_iff rest,
      List.forall_mem_cons]
    simp

end

end Value

end ViewEngine
