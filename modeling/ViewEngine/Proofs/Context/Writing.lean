import ViewEngine.Proofs.Context.Mentions
import ViewEngine.Proofs.Context.Paths

/-!
# Writing through a binding

A write goes by the components of its path. It changes one key of the own scope at most
(`writtenKey?`): the one component, the first of two, or the last of more. So what is read under other keys
stays as it was, and what the path itself leads to is the value written, if it has at most two components.

With two components the value goes into the object that the own scope has under the first. An object further
out is not copied: the new one shadows it.
-/

namespace ViewEngine

variable {path other : List Char} {components : List (List Char)} {v : Value}

/-- The components after the `$.` that a path begins with, if it does. -/
def boundComponents (path : List Char) : List (List Char) :=
  ((dropStart? ['$', '.'] (trim path)).map pathComponents).getD []

/-- The own key that a write through the path changes. -/
def writtenKey? (path : List Char) : Option String :=
  match boundComponents path with
  | [] => none
  | [key] => some (String.ofList key)
  | [outer, _] => some (String.ofList outer)
  | components => some (String.ofList (components.getLastD []))

/-- What is written to is read from. -/
theorem baseComponents_of_boundComponents (h : boundComponents path = components) (hne : components ≠ []) :
    baseComponents (trim path) = components := by
  unfold boundComponents at h
  cases hrest : dropStart? ['$', '.'] (trim path) with
  | none =>
    rw [hrest] at h
    exact absurd h.symm hne
  | some rest =>
    rw [hrest] at h
    rw [dropStart?_eq_some hrest, ← h]
    exact pathComponents_append [] rest

namespace Context

variable {c : Context}

theorem resolve_eq_lookup? (hpath : ¬ pipe <:+: path) (h : baseComponents (trim path) = components)
    (hne : components ≠ []) : c.resolve path = .ok (c.lookup? components) := by
  have hbare : trim path ≠ ['$'] := by
    intro hbare
    rw [hbare] at h
    exact hne h.symm
  rw [resolve_of_pipeless (not_isInfix_trim hpath), resolvePlain?_eq_lookup? hbare, h]

/-! ## What a write does -/

theorem setBinding_eq (c : Context) (path : List Char) (v : Value) :
    c.setBinding path v = match boundComponents path with
      | [] => c
      | [key] => c.set (String.ofList key) v
      | [outer, key] => c.set (String.ofList outer)
          (.object ((fieldsOf (c.get? (String.ofList outer))).insert (String.ofList key) v))
      | components => c.set (String.ofList (components.getLastD [])) v := by
  unfold setBinding boundComponents
  cases dropStart? ['$', '.'] (trim path) with
  | none => rfl
  | some rest => rfl

/-- A write changes the key it is for, or nothing. -/
theorem setBinding_cases (c : Context) (path : List Char) (v : Value) :
    writtenKey? path = none ∧ c.setBinding path v = c ∨
      ∃ key w, writtenKey? path = some key ∧ c.setBinding path v = c.set key w := by
  rw [setBinding_eq, writtenKey?]
  split
  · exact .inl ⟨rfl, rfl⟩
  all_goals exact .inr ⟨_, _, rfl, rfl⟩

theorem outer_setBinding (c : Context) (path : List Char) (v : Value) : (c.setBinding path v).outer = c.outer := by
  obtain ⟨-, h⟩ | ⟨key, w, -, h⟩ := c.setBinding_cases path v
  · rw [h]
  · rw [h, set]

theorem get?_setBinding {key : String} (h : key ∉ writtenKey? path) :
    (c.setBinding path v).get? key = c.get? key := by
  obtain ⟨-, hset⟩ | ⟨written, w, hkey, hset⟩ := c.setBinding_cases path v
  · rw [hset]
  · rw [hset, get?, get?, set, Table.get?_insert_of_ne]
    rintro rfl
    exact h hkey

/-- What a write leaves agrees with what there was, off the key that it changes. -/
theorem agreeOff_setBinding (c : Context) (path : List Char) (v : Value) :
    c.setBinding path v = c ∨ ∃ key ∈ writtenKey? path, AgreeOff key (c.setBinding path v) c := by
  obtain ⟨-, hset⟩ | ⟨key, w, hkey, hset⟩ := c.setBinding_cases path v
  · exact .inl hset
  · exact .inr ⟨key, hkey, hset ▸ agreeOff_set c key w⟩

theorem lookup?_set (c : Context) (key : List Char) (rest : List (List Char)) (w : Value) :
    (c.set (String.ofList key) w).lookup? (key :: rest) = w.dig? rest := by
  simp only [lookup?, set, findBinding?, Table.get?_insert_self, Option.bind_some]

theorem lookup?_of_get? {key : List Char} {w : Value} (h : c.get? (String.ofList key) = some w)
    (rest : List (List Char)) : c.lookup? (key :: rest) = w.dig? rest := by
  have hown : c.own.get? (String.ofList key) = some w := h
  simp only [lookup?, findBinding?, hown, Option.bind_some]

/-! ## What is read where it was written -/

theorem resolve_setBinding_one {key : List Char} (hpath : ¬ pipe <:+: path) (h : boundComponents path = [key]) :
    (c.setBinding path v).resolve path = .ok (some v) := by
  rw [resolve_eq_lookup? hpath (baseComponents_of_boundComponents h (List.cons_ne_nil _ _)) (List.cons_ne_nil _ _),
    setBinding_eq, h]
  exact congrArg Except.ok (lookup?_set c key [] v)

section
variable {outer key x : List Char} {rest : List (List Char)} {fields : Fields}

/-- The object that a write to two components leaves under the first. -/
theorem lookup?_setBinding_two (h : boundComponents path = [outer, key]) (rest : List (List Char)) :
    (c.setBinding path v).lookup? (outer :: rest) =
      (Value.object ((fieldsOf (c.get? (String.ofList outer))).insert (String.ofList key) v)).dig? rest := by
  rw [setBinding_eq, h]
  exact lookup?_set c outer rest _

theorem resolve_setBinding_two (hpath : ¬ pipe <:+: path) (h : boundComponents path = [outer, key]) :
    (c.setBinding path v).resolve path = .ok (some v) := by
  rw [resolve_eq_lookup? hpath (baseComponents_of_boundComponents h (List.cons_ne_nil _ _)) (List.cons_ne_nil _ _),
    lookup?_setBinding_two h]
  simp only [Value.dig?, Table.get?_insert_self, Option.bind_some]

/-- Another field is what it is in the own object, whatever there is further out. -/
theorem resolve_setBinding_beside (h : boundComponents path = [outer, key]) (hother : ¬ pipe <:+: other)
    (hcomponents : baseComponents (trim other) = outer :: x :: rest) (hx : x ≠ key) :
    (c.setBinding path v).resolve other =
      .ok ((Value.object (fieldsOf (c.get? (String.ofList outer)))).dig? (x :: rest)) := by
  have hne : String.ofList key ≠ String.ofList x := fun heq => hx (String.ofList_injective heq).symm
  rw [resolve_eq_lookup? hother hcomponents (List.cons_ne_nil _ _), lookup?_setBinding_two h, Value.dig?, Value.dig?,
    Table.get?_insert_of_ne _ _ hne]

theorem fieldsOf_eq_nil {w : Option Value} (h : ∀ fields, w ≠ some (.object fields)) : fieldsOf w = [] := by
  cases w with
  | none => rfl
  | some w =>
    cases w with
    | object fields => exact absurd rfl (h fields)
    | _ => rfl

end

/-- Of more components than two the last is a key of the own scope. -/
theorem get?_setBinding_last {front : List (List Char)} {last : List Char}
    (h : boundComponents path = front ++ [last]) (hlong : 2 ≤ front.length) :
    (c.setBinding path v).get? (String.ofList last) = some v := by
  match front, hlong with
  | a :: b :: front, _ =>
    have hne : front ++ [last] ≠ [] := List.append_ne_nil_of_right_ne_nil front (List.cons_ne_nil last [])
    obtain ⟨d, ds, hd⟩ := List.exists_cons_of_ne_nil hne
    have hlast : (a :: b :: d :: ds).getLastD [] = last := by
      rw [← hd, ← List.cons_append, ← List.cons_append, List.getLastD_concat]
    rw [setBinding_eq, h, List.cons_append, List.cons_append, hd]
    simp only [hlast]
    exact Table.get?_insert_self ..

/-- **What is written through a binding is read back through it, and nothing else shows.** A path of one component
or two leads to the value afterwards. Beside the second of two, the fields of the own object stay; if the own scope
had no object there, nothing else is found, whatever a scope around has. Of more components the last is bound. No
scope around changes, nor an own key other than the one written, so nor does a path that reads another key, with
or without transforms, or a condition of such paths. -/
theorem setBinding_writes_back (c : Context) (path : List Char) (v : Value) (hpath : ¬ pipe <:+: path) :
    (∀ key, boundComponents path = [key] → (c.setBinding path v).resolve path = .ok (some v)) ∧
    (∀ outer key, boundComponents path = [outer, key] →
      (c.setBinding path v).resolve path = .ok (some v) ∧
      ∀ other x rest, ¬ pipe <:+: other → baseComponents (trim other) = outer :: x :: rest → x ≠ key →
        (∀ fields, c.get? (String.ofList outer) = some (.object fields) →
          (c.setBinding path v).resolve other = .ok ((Value.object fields).dig? (x :: rest)) ∧
            (c.setBinding path v).resolve other = c.resolve other) ∧
        ((∀ fields, c.get? (String.ofList outer) ≠ some (.object fields)) →
          (c.setBinding path v).resolve other = .ok none)) ∧
    (∀ front last, boundComponents path = front ++ [last] → 2 ≤ front.length →
      (c.setBinding path v).get? (String.ofList last) = some v) ∧
    (boundComponents path = [] → c.setBinding path v = c) ∧
    (c.setBinding path v).outer = c.outer ∧
    (∀ key, key ∉ writtenKey? path → (c.setBinding path v).get? key = c.get? key) ∧
    (∀ other, (∀ key ∈ writtenKey? path, Spares key other) →
      (c.setBinding path v).resolve other = c.resolve other) ∧
    (∀ condition, (∀ key ∈ writtenKey? path, ∀ other ∈ (Condition.read condition.toList).paths, Spares key other) →
      evaluate condition (c.setBinding path v) = evaluate condition c) := by
  refine ⟨fun key h => resolve_setBinding_one hpath h, fun outer key h => ⟨resolve_setBinding_two hpath h, ?_⟩,
    fun front last h hlong => get?_setBinding_last h hlong, fun h => ?_, outer_setBinding c path v,
    fun key h => get?_setBinding h, ?_, ?_⟩
  · intro other x rest hother hcomponents hx
    have hbeside := resolve_setBinding_beside (c := c) (v := v) h hother hcomponents hx
    refine ⟨fun fields hfields => ?_, fun hnone => ?_⟩
    · rw [hfields] at hbeside
      refine ⟨hbeside, hbeside.trans ?_⟩
      rw [resolve_eq_lookup? hother hcomponents (List.cons_ne_nil _ _), lookup?_of_get? hfields]
      rfl
    · rw [hbeside, fieldsOf_eq_nil hnone]
      rfl
  · rw [setBinding_eq, h]
  · intro other hspares
    obtain hsame | ⟨key, hkey, hagree⟩ := c.agreeOff_setBinding path v
    · rw [hsame]
    · exact hagree.resolve (hspares key hkey)
  · intro condition hspares
    obtain hsame | ⟨key, hkey, hagree⟩ := c.agreeOff_setBinding path v
    · rw [hsame]
    · exact hagree.holds (hspares key hkey)

theorem setBinding_writes_back_shown :
    let c : Context := ⟨[("near", .object [("a", .int 1)])], [[("far", .object [("b", .int 2)])]]⟩
    let written := c.setBinding " $.near..k".toList (.int 5)
    let shadowed := c.setBinding "$.far.k".toList (.int 5)
    written.resolve " $.near..k".toList = .ok (some (.int 5)) ∧
      written.resolve "$.near.a".toList = c.resolve "$.near.a".toList ∧
      written.resolve "$far.b | uppercase".toList = c.resolve "$far.b | uppercase".toList ∧
      shadowed.resolve "$.far.k".toList = .ok (some (.int 5)) ∧
      shadowed.resolve "$.far.b".toList = .ok none ∧ c.resolve "$.far.b".toList = .ok (some (.int 2)) := by
  intro c written shadowed
  obtain ⟨-, hwritten, -, -, -, -, hspared, -⟩ := c.setBinding_writes_back " $.near..k".toList (.int 5) (by decide)
  obtain ⟨hnear, hbeside⟩ := hwritten "near".toList ['k'] rfl
  obtain ⟨-, hshadowed, -⟩ := c.setBinding_writes_back "$.far.k".toList (.int 5) (by decide)
  obtain ⟨hfar, hhidden⟩ := hshadowed "far".toList ['k'] rfl
  refine ⟨hnear, ?_, hspared _ ?_, hfar, ?_, rfl⟩
  · exact ((hbeside "$.near.a".toList ['a'] [] (by decide) rfl (by decide)).1 _ rfl).2
  · rintro key ⟨⟩ base ⟨⟩
    exact ⟨by decide, by decide⟩
  · exact (hhidden "$.far.b".toList ['b'] [] (by decide) rfl (by decide)).2 nofun

end Context

end ViewEngine
