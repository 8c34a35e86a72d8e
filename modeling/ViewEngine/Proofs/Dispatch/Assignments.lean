import ViewEngine.Proofs.Context.Faults
import ViewEngine.Proofs.Dispatch.Sessions
import ViewEngine.Proofs.Document.Encoding
import ViewEngine.Proofs.Value.Routes

/-!
# Authored assignments

A `setState` action is written as text, read as a value, taken for an action and dispatched. What its key is bound to
in the end is the value that its `value` has as a text of its own, whatever it is and whatever bindings stand inside
it (`Dispatcher.assignment_stores_authored`). There is one exception: a null is taken for a field that was left out,
and such an action stores nothing.
-/

namespace ViewEngine

/-- An assignment as a datum, with whatever stands for its value. -/
def Json.assignment (key : String) (j : Json) : Json :=
  .object [("actionType", .string "setState"), ("key", .string key), ("value", j)]

namespace Value

/-- An assignment of a value. -/
def assignment (key : String) (v : Value) : Value :=
  object [("actionType", string "setState"), ("key", string key), ("value", v)]

variable {s t : Json.Spelling} {key : String} {v document : Value}

/-! ## Reading -/

theorem decode?_spelling : decode? (Utf8.encode (String.ofList s.text)) = some v ↔
    s.datum.depth ≤ Json.maxDepth ∧ read? s.datum = some v := by
  have hsymbols : Utf8.symbols (Utf8.encode (String.ofList s.text)) = s.text.map .char := by
    rw [Utf8.symbols_encode, String.toList_ofList]
  rw [decode?_of_symbols_eq hsymbols, s.read?_datum v]

theorem sorted_assignment (key : String) (v : Value) :
    Table.Sorted [("actionType", string "setState"), ("key", string key), ("value", v)] := by
  have hkeys : ["actionType", "key", "value"].Pairwise (· < ·) := by decide
  exact List.pairwise_map.1 hkeys

theorem read?_assignment {j : Json} :
    read? (Json.assignment key j) = some document ↔ ∃ v, read? j = some v ∧ assignment key v = document := by
  have htable (v : Value) : object (Table.ofList
      [("actionType", string "setState"), ("key", string key), ("value", v)]) = assignment key v :=
    congrArg object (Table.ofList_of_sorted (sorted_assignment key v))
  cases h : read? j <;> simp [Json.assignment, read?, readMembers?, h, htable]

/-- Where the text of an assignment is read, so is the text of its value. -/
theorem decode?_assignment (hs : s.datum = Json.assignment key t.datum)
    (h : decode? (Utf8.encode (String.ofList s.text)) = some document) :
    ∃ v, decode? (Utf8.encode (String.ofList t.text)) = some v ∧ document = assignment key v := by
  obtain ⟨hdepth, hread⟩ := decode?_spelling.1 h
  rw [hs] at hdepth hread
  obtain ⟨v, hv, hdocument⟩ := read?_assignment.1 hread
  have hvalue : t.datum.depth + 1 ≤ (Json.assignment key t.datum).depth :=
    Nat.succ_le_succ (Json.membersDepth_le.1 (Nat.le_refl _) ("value", t.datum) (by simp))
  exact ⟨v, decode?_spelling.2 ⟨by omega, hv⟩, hdocument.symm⟩

/-! ## The action -/

/-- The value that an action has: null counts as left out. -/
def given? : Value → Option Value
  | null => none
  | v => some v

theorem given?_of_ne_null (h : v ≠ null) : v.given? = some v := by
  cases v with
  | null => exact absurd rfl h
  | _ => rfl

theorem optional?_given? (hfinite : v.IsFinite) (htabled : v.IsTabled) :
    Json.optional? read? v.toJson = some v.given? := by
  by_cases hnull : v = null
  · subst hnull
    rfl
  · rw [optional?_value hfinite htabled hnull, given?_of_ne_null hnull]

theorem ofValue?_assignment (hfinite : v.IsFinite) (htabled : v.IsTabled) (key : String) :
    Action.ofValue? (assignment key v) =
      some { type := "setState", key := some key, value := v.given? } := by
  simp only [Action.ofValue?, assignment, toJson, toJsonMembers, Action.ofJson?, Action.ofMembers?, Action.put?,
    optional?_given? hfinite htabled]
  rfl

end Value

/-! ## The dispatch -/

namespace Dispatcher

variable {σ : Type} (d : Dispatcher) {c : Context} {key : String} {v : Value}

/-- A text that is no binding is taken as it is, and so is everything that is no text. -/
theorem resolveValue_of_plain (h : ∀ text, v = .string text → (trimStart text.toList).head? ≠ some '$') :
    c.resolveValue v = .ok v := by
  cases v with
  | string text => exact if_neg (mt of_decide_eq_true (h text rfl))
  | _ => rfl

theorem dispatch_assignment (h : c.resolveValue v = .ok v) :
    d.dispatch { type := "setState", key := some key, value := some v } c = .done (c.set key v) := by
  have htype : "setState" ≠ "sequence" := by decide
  rw [dispatch_of_type d htype]
  simp only [perform, h]
  rfl

/-- An assignment without a value does nothing. -/
theorem dispatch_assignment_of_none (key : String) (c : Context) :
    d.dispatch { type := "setState", key := some key } c = .done c := by
  have htype : "setState" ≠ "sequence" := by decide
  rw [dispatch_of_type d htype]
  rfl

/-- **An assignment stores what was authored.** Take the text of a value and any text of the assignment of it to a
key. If the assignment can be read, then so can the value on its own, and the assignment is an action. Unless the
value is a text that is a binding, or null, dispatching the action binds the key to just that value, in any context
and on any endpoint, and does nothing else. If the value is null, nothing is stored at all. -/
theorem assignment_stores_authored (s t : Json.Spelling) (key : String) (document : Value)
    (hs : s.datum = Json.assignment key t.datum)
    (hdocument : Value.decode? (Utf8.encode (String.ofList s.text)) = some document) :
    ∃ v a, Value.decode? (Utf8.encode (String.ofList t.text)) = some v ∧ Action.ofValue? document = some a ∧
      ((∀ text, v = .string text → (trimStart text.toList).head? ≠ some '$') →
        (v ≠ .null → ∀ {σ : Type} (d : Dispatcher) (endpoint : Endpoint σ) (c : Context) (time : Nat) (state : σ),
          (d.dispatch a c).run endpoint time state = ⟨[], time, state, .ok (c.set key v)⟩ ∧
            (c.set key v).get? key = some v) ∧
        (v = .null → ∀ {σ : Type} (d : Dispatcher) (endpoint : Endpoint σ) (c : Context) (time : Nat) (state : σ),
          (d.dispatch a c).run endpoint time state = ⟨[], time, state, .ok c⟩)) := by
  obtain ⟨v, hv, rfl⟩ := Value.decode?_assignment hs hdocument
  obtain ⟨htabled, hfinite, -⟩ := Value.isFinite_of_decode? hv
  refine ⟨v, _, hv, Value.ofValue?_assignment hfinite htabled key, fun hplain => ⟨fun hnull => ?_, fun hnull => ?_⟩⟩
  · intro σ d endpoint c time state
    rw [Value.given?_of_ne_null hnull, d.dispatch_assignment (resolveValue_of_plain hplain)]
    exact ⟨rfl, Table.get?_insert_self _ key v⟩
  · intro σ d endpoint c time state
    subst hnull
    rw [Value.given?, d.dispatch_assignment_of_none]
    rfl

/-- A string in which every character stands for itself. -/
def plainText (cs : List Char) (h : cs.all fun c => c ≠ '"' ∧ c ≠ '\\' ∧ 32 ≤ c.toNat) : Json.StringText :=
  cs.attach.map fun c => .plain c.1 (of_decide_eq_true (List.all_eq_true.1 h c.1 c.2))

/-- The text `[null, "$.x"]`, in which neither the null nor the binding counts. -/
def nestedBinding : Json.Spelling :=
  .array .null [.spaced [.blank] (.string (plainText ['$', '.', 'x'] rfl)) []]

/-- The text that assigns it to `k`. -/
def nestedAssignment : Json.Spelling :=
  .object ⟨[], plainText "actionType".toList rfl, []⟩ (.string (plainText "setState".toList rfl))
    [(⟨[], plainText "key".toList rfl, []⟩, .string (plainText ['k'] rfl)),
      (⟨[], plainText "value".toList rfl, []⟩, nestedBinding)]

/-- Where `x` is bound to one, `k` is bound to the array as it is authored. -/
theorem assignment_stores_authored_nested :
    let v : Value := .array [.null, .string "$.x"]
    let c : Context := { own := [("x", .int 1)] }
    nestedAssignment.datum = Json.assignment "k" nestedBinding.datum ∧
      Value.decode? (Utf8.encode (String.ofList nestedAssignment.text)) = some (Value.assignment "k" v) ∧
      ∃ a, Action.ofValue? (Value.assignment "k" v) = some a ∧
        ((dispatch {} a c).run Fixtures.call 0 {}).result = .ok (c.set "k" v) ∧ (c.set "k" v).get? "k" = some v := by
  intro v c
  have hs : nestedAssignment.datum = Json.assignment "k" nestedBinding.datum := rfl
  have hread : Value.read? nestedBinding.datum = some v := rfl
  have hdocument : Value.decode? (Utf8.encode (String.ofList nestedAssignment.text)) =
      some (Value.assignment "k" v) :=
    Value.decode?_spelling.2 ⟨by decide, hs ▸ Value.read?_assignment.2 ⟨v, hread, rfl⟩⟩
  obtain ⟨w, a, hw, ha, hdispatch⟩ := assignment_stores_authored _ _ _ _ hs hdocument
  obtain rfl : w = v := Option.some.inj ((Value.decode?_spelling.1 hw).2.symm.trans hread)
  obtain ⟨hrun, hkey⟩ := (hdispatch nofun).1 nofun {} Fixtures.call c 0 {}
  exact ⟨hs, hdocument, a, ha, by rw [hrun], hkey⟩

/-- The text `null` assigned to a key that is bound to one: it stays bound to one. -/
theorem null_assignment_stores_nothing :
    let text := "\x7b\"actionType\":\"setState\",\"key\":\"k\",\"value\":null\x7d"
    let c : Context := { own := [("k", .int 1)] }
    Value.decode? (Utf8.encode "null") = some .null ∧
      ∃ document a, Value.decode? (Utf8.encode text) = some document ∧ Action.ofValue? document = some a ∧
        ∃ c', ((dispatch {} a c).run Fixtures.call 0 {}).result = .ok c' ∧ c'.get? "k" ≠ some .null := by
  intro text c
  have hnull : Value.null.IsTabled ∧ Value.null.IsFinite := by
    simp [Value.IsTabled, Value.IsFinite, Value.parts]
  have hfinite : (Value.assignment "k" .null).IsFinite := (Value.firstNonFinite?_eq_none _).1 rfl
  have htabled : (Value.assignment "k" .null).IsTabled :=
    Value.isTabled_object.2 ⟨Value.sorted_assignment "k" .null, by simp [Value.IsTabled, Value.parts]⟩
  have hvalue : String.ofList Value.null.compact = "null" := by decide
  have htext : String.ofList (Value.assignment "k" .null).compact = text := by decide
  have hback : Value.null.ReadsBack ∧ (Value.assignment "k" .null).ReadsBack := by
    simp [Value.ReadsBack, Value.assignment, Value.parts, Value.fieldParts]
  refine ⟨hvalue ▸ Value.decode?_encode_compact hnull.1 hnull.2 (by decide) hback.1, Value.assignment "k" .null,
    { type := "setState", key := some "k" }, ?_, rfl, c, rfl, ?_⟩
  · rw [← htext]
    exact Value.decode?_encode_compact htabled hfinite (by decide) hback.2
  · intro h
    cases h

end Dispatcher

end ViewEngine
