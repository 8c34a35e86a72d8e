import ViewEngine.Proofs.Dispatch.Moves

/-!
# What a dispatch writes

A leaf writes at most one key, which can be read off it (`Action.writtenKey?`), and only into the own
scope. So all that a dispatch does to its context is a list of writes, in the order in which the leaves
are performed (`left_eq_setAll`): the keys that the action does not name are bound as before, and of
several writes to a key the last one counts (`dispatch_writes_only`).
-/

namespace ViewEngine

/-! ## Writes one after the other -/

/-- The value that the last write to a key gives it. -/
def lastWrite? (writes : List (String × Value)) (key : String) : Option Value :=
  (writes.filter fun w => w.1 = key).getLast?.map (·.2)

theorem lastWrite?_cons (w : String × Value) (writes : List (String × Value)) (key : String) :
    lastWrite? (w :: writes) key =
      (lastWrite? writes key).or (if w.1 = key then some w.2 else none) := by
  by_cases h : w.1 = key
  · simp only [lastWrite?, List.filter_cons, h, decide_true, if_true, List.getLast?_cons, Option.map_some]
    cases (writes.filter fun w => w.1 = key).getLast? <;> rfl
  · simp [lastWrite?, h]

/-- A key that no write names has no last write. -/
theorem lastWrite?_eq_none {writes : List (String × Value)} {key : String}
    (h : ∀ w ∈ writes, w.1 ≠ key) : lastWrite? writes key = none := by
  have hnone : writes.filter (fun w => w.1 = key) = [] :=
    List.filter_eq_nil_iff.2 fun w hw => by simpa using h w hw
  simp [lastWrite?, hnone]

namespace Context

/-- Binds keys in the own scope, one after the other. -/
def setAll (c : Context) (writes : List (String × Value)) : Context :=
  writes.foldl (fun c w => c.set w.1 w.2) c

theorem setAll_append (c : Context) (xs ys : List (String × Value)) :
    c.setAll (xs ++ ys) = (c.setAll xs).setAll ys := List.foldl_append

theorem get?_set (c : Context) (key other : String) (v : Value) :
    (c.set key v).get? other = if key = other then some v else c.get? other :=
  Table.get?_insert c.own key other v

theorem get?_setAll (c : Context) (writes : List (String × Value)) (key : String) :
    (c.setAll writes).get? key = (lastWrite? writes key).or (c.get? key) := by
  induction writes generalizing c with
  | nil => rfl
  | cons w writes ih =>
    have hstep : c.setAll (w :: writes) = (c.set w.1 w.2).setAll writes := rfl
    rw [hstep, ih, lastWrite?_cons, get?_set, Option.or_assoc]
    by_cases h : w.1 = key <;> simp [h]

theorem outer_setAll (c : Context) (writes : List (String × Value)) :
    (c.setAll writes).outer = c.outer := by
  induction writes generalizing c with
  | nil => rfl
  | cons w writes ih => exact ih (c.set w.1 w.2)

end Context

/-! ## The keys of an action -/

namespace Action

mutual

/-- The keys that an action may write: those of its steps, if it is a sequence. -/
def written : Action → List String
  | a@⟨type, _, _, _, _, _, _, _, _, actions, _⟩ =>
    if type = "sequence" then stepWritten actions else a.writtenKey?.toList

def stepWritten : Option (List Action) → List String
  | none => []
  | some actions => listWritten actions

def listWritten : List Action → List String
  | [] => []
  | a :: rest => written a ++ listWritten rest

end

mutual

theorem written_eq : (a : Action) → a.written = a.leaves.filterMap writtenKey?
  | ⟨type, screen, params, name, resultKey, key, value, event, payload, actions, binding⟩ => by
    by_cases htype : type = "sequence"
    · simp only [written, leaves, if_pos htype]
      exact stepWritten_eq actions
    · simp only [written, leaves, if_neg htype, List.filterMap_cons, List.filterMap_nil]
      cases writtenKey? _ <;> rfl

theorem stepWritten_eq :
    (actions : Option (List Action)) → stepWritten actions = (stepLeaves actions).filterMap writtenKey?
  | none => rfl
  | some actions => listWritten_eq actions

theorem listWritten_eq :
    (actions : List Action) → listWritten actions = (listLeaves actions).filterMap writtenKey?
  | [] => rfl
  | a :: rest => by
    rw [listWritten, listLeaves, List.filterMap_append, written_eq a, listWritten_eq rest]

end

end Action

/-! ## The writes of a dispatch -/

/-- The answer of the first of so many calls that succeeds. -/
def firstAnswer? (answers : Nat → Except EndpointError Json) (attempts : Nat) : Option Json :=
  (List.range attempts).findSome? fun i => (answers i).toOption

theorem firstAnswer?_of_ok {answers : Nat → Except EndpointError Json} {j : Json}
    (h : answers 0 = .ok j) (left : Nat) : firstAnswer? answers (left + 1) = some j := by
  simp [firstAnswer?, List.range_succ_eq_map, h, Except.toOption]

theorem firstAnswer?_of_error {answers : Nat → Except EndpointError Json} {e : EndpointError}
    (h : answers 0 = .error e) (left : Nat) :
    firstAnswer? answers (left + 1) = firstAnswer? (fun n => answers (n + 1)) left := by
  simp [firstAnswer?, List.range_succ_eq_map, h, Except.toOption, List.findSome?_map,
    Function.comp_def]

namespace Dispatcher

variable {σ : Type} (d : Dispatcher) (endpoint : Endpoint σ)

/-- The write by which a leaf takes effect in a context and a state of the endpoint, if it does. -/
def write? (leaf : Action) (c : Context) (s : σ) : Option (String × Value) :=
  match leaf.type with
  | "setState" => do
    let key ← leaf.key
    let authored ← leaf.value
    let v ← (c.resolveValue authored).toOption
    pure (key, v)
  | "api" => do
    let name ← leaf.endpoint
    let key ← leaf.resultKey
    let params ← (c.resolveTexts (leaf.params.getD [])).toOption
    let answer ← firstAnswer? (endpoint.answer name params s) d.attempts
    pure (key, normalizeResult (.ofJson answer))
  | _ => none

/-- The writes of a run in the order in which they are made. -/
def writes : List Move → Context → σ → List (String × Value)
  | [], _, _ => []
  | .pause :: rest, c, s => writes rest c s
  | .perform leaf :: rest, c, s =>
    let run := (d.perform leaf c).run endpoint 0 s
    match run.result with
    | .ok c' => (d.write? endpoint leaf c s).toList ++ writes rest c' run.state
    | .error _ => []

/-- A leaf writes no key but its own. -/
theorem writtenKey?_of_write? {leaf : Action} {c : Context} {s : σ} {w : String × Value}
    (h : d.write? endpoint leaf c s = some w) : leaf.writtenKey? = some w.1 := by
  unfold write? at h
  split at h
  case h_1 htype =>
    simp only [Option.bind_eq_bind, Option.bind_eq_some_iff, Option.pure_def, Option.some.injEq] at h
    obtain ⟨key, hkey, authored, hvalue, v, -, rfl⟩ := h
    simp [Action.writtenKey?, htype, hkey, hvalue]
  case h_2 htype =>
    simp only [Option.bind_eq_bind, Option.bind_eq_some_iff, Option.pure_def, Option.some.injEq] at h
    obtain ⟨name, hname, key, hkey, params, -, answer, -, rfl⟩ := h
    simp [Action.writtenKey?, htype, hname, hkey]
  case h_3 => cases h

/-- A request stores the first answer that it gets. -/
theorem result_request (name : String) (params : Table String) (resultKey : Option String) (c : Context)
    (attempts time : Nat) (s : σ) :
    ((d.request name params resultKey c attempts).run endpoint time s).result =
      .ok (match firstAnswer? (endpoint.answer name params s) attempts with
        | some j => c.store resultKey j
        | none => c) := by
  induction attempts generalizing time s with
  | zero => rfl
  | succ left ih =>
    cases h : endpoint.answer name params s 0 with
    | ok j => rw [run_request_of_ok d endpoint name params resultKey c h, firstAnswer?_of_ok h]
    | error e =>
      rw [run_request_of_error d endpoint name params resultKey c h, firstAnswer?_of_error h]
      by_cases hleft : left = 0
      · subst hleft
        rfl
      · rw [if_neg hleft]
        exact ih _ _

/-- A leaf that is not at fault makes its write. -/
theorem result_perform {leaf : Action} {c c' : Context} {time : Nat} {s : σ}
    (h : ((d.perform leaf c).run endpoint time s).result = .ok c') :
    c' = c.setAll (d.write? endpoint leaf c s).toList := by
  have hnone : leaf.writtenKey? = none → d.write? endpoint leaf c s = none := by
    intro hkey
    cases hw : d.write? endpoint leaf c s with
    | none => rfl
    | some w => cases hkey.symm.trans (d.writtenKey?_of_write? endpoint hw)
  have hleaf := d.performs_perform leaf c
  generalize d.perform leaf c = p at h hleaf
  cases hleaf with
  | fault f => cases h
  | idle _ hkey =>
    cases h
    rw [hnone hkey]
    rfl
  | report intent _ hkey =>
    cases h
    rw [hnone hkey]
    rfl
  | @request name params htype hname hparams =>
    rw [result_request] at h
    cases h
    simp only [write?, htype, hname, Option.bind_eq_bind, Option.bind_some, hparams, Except.toOption]
    cases leaf.resultKey with
    | none => cases firstAnswer? (endpoint.answer name params s) d.attempts <;> rfl
    | some key => cases firstAnswer? (endpoint.answer name params s) d.attempts <;> rfl
  | write htype hkey hvalue hv =>
    cases h
    simp only [write?, htype, hkey, hvalue, Option.bind_eq_bind, Option.bind_some, hv, Except.toOption]
    rfl

/-- A run leaves its context with its writes made, and nothing else done to it. -/
theorem left_eq_setAll (moves : List Move) (c : Context) (s : σ) :
    d.left endpoint moves c s = c.setAll (d.writes endpoint moves c s) := by
  induction moves generalizing c s with
  | nil => rfl
  | cons move rest ih =>
    cases move with
    | pause => exact ih c s
    | perform leaf =>
      cases hres : ((d.perform leaf c).run endpoint 0 s).result with
      | error f => simp only [left, writes, hres, Context.setAll, List.foldl_nil]
      | ok c' =>
        simp only [left, writes, hres, Context.setAll_append]
        rw [← d.result_perform endpoint hres]
        exact ih c' _

theorem writtenKey?_of_mem_writes {moves : List Move} {c : Context} {s : σ} {w : String × Value}
    (h : w ∈ d.writes endpoint moves c s) :
    w.1 ∈ (moves.filterMap Move.leaf?).filterMap Action.writtenKey? := by
  induction moves generalizing c s with
  | nil => cases h
  | cons move rest ih =>
    cases move with
    | pause => exact ih h
    | perform leaf =>
      have hcons : (Move.perform leaf :: rest).filterMap Move.leaf? = leaf :: rest.filterMap Move.leaf? := rfl
      rw [hcons, List.mem_filterMap]
      cases hres : ((d.perform leaf c).run endpoint 0 s).result with
      | error f => simp only [writes, hres, List.not_mem_nil] at h
      | ok c' =>
        simp only [writes, hres, List.mem_append, Option.mem_toList] at h
        rcases h with h | h
        · exact ⟨leaf, List.mem_cons_self, d.writtenKey?_of_write? endpoint h⟩
        · obtain ⟨other, hother, hkey⟩ := List.mem_filterMap.1 (ih h)
          exact ⟨other, List.mem_cons_of_mem _ hother, hkey⟩

theorem mem_written_of_mem_writes {a : Action} {c : Context} {s : σ} {w : String × Value}
    (h : w ∈ d.writes endpoint a.moves c s) : w.1 ∈ a.written := by
  rw [Action.written_eq, ← Action.filterMap_leaf?_moves]
  exact d.writtenKey?_of_mem_writes endpoint h

/-- **A dispatch writes only what the action names.** In the context in which its run ends, by itself or
before a leaf at fault, the outer scopes are as they were and no key of the own scope is gone. The keys
that the action does not name are bound as before; a key that it names has the value of the last write
to it, or its old binding if no write to it took effect. -/
theorem dispatch_writes_only (a : Action) (c : Context) (time : Nat) (s : σ) :
    let run := (d.dispatch a c).run endpoint time s
    let left := d.left endpoint a.moves c s
    let writes := d.writes endpoint a.moves c s
    (run.result = .ok left ∨
      ∃ before leaf after f, a.moves = before ++ .perform leaf :: after ∧
        (d.follow before c).run endpoint time s = { run with result := .ok left } ∧
        d.perform leaf left = .fault f ∧ run.result = .error f) ∧
    left.outer = c.outer ∧
    (∀ key, (c.get? key).isSome → (left.get? key).isSome) ∧
    (∀ key, key ∉ a.written → left.get? key = c.get? key) ∧
    (∀ key ∈ a.written, left.get? key = (lastWrite? writes key).or (c.get? key)) := by
  intro run left writes
  have hleft : left = c.setAll writes := d.left_eq_setAll endpoint a.moves c s
  have hget (key : String) : left.get? key = (lastWrite? writes key).or (c.get? key) := by
    rw [hleft, Context.get?_setAll]
  refine ⟨?_, ?_, ?_, ?_, fun key _ => hget key⟩
  · simp only [run, dispatch_eq_follow]
    exact d.follow_left endpoint a.moves c time s
  · rw [hleft, Context.outer_setAll]
  · intro key hkey
    rw [hget]
    cases lastWrite? writes key with
    | none => exact hkey
    | some v => rfl
  · intro key hkey
    have hnone : lastWrite? writes key = none :=
      lastWrite?_eq_none fun w hw heq => hkey (heq ▸ d.mem_written_of_mem_writes endpoint hw)
    rw [hget, hnone, Option.none_or]

/-- The second of two writes counts, a call without an answer writes nothing, and the rest stays. -/
theorem dispatch_writes_only_last_write :
    let set (v : Value) : Action := { type := "setState", key := some "k", value := some v }
    let lost : Action := { type := "api", endpoint := some "/none", resultKey := some "r" }
    let a : Action := { type := "sequence", actions := some [set (.int 1), lost, set (.int 2)] }
    let c : Context := { own := [("r", .null), ("x", .bool true)] }
    let left := left {} Fixtures.call a.moves c {}
    a.written = ["k", "r", "k"] ∧ left.get? "k" = some (.int 2) ∧ left.get? "r" = some .null ∧
      left.get? "x" = some (.bool true) := by
  intro set lost a c left
  obtain ⟨-, -, -, hother, hnamed⟩ := dispatch_writes_only {} Fixtures.call a c 0 {}
  refine ⟨rfl, ?_, ?_, ?_⟩
  · exact (hnamed "k" (by decide)).trans rfl
  · exact (hnamed "r" (by decide)).trans rfl
  · exact (hother "x" (by decide)).trans rfl

end Dispatcher

end ViewEngine
