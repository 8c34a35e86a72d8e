import ViewEngine.Proofs.Context.Flattening
import ViewEngine.Proofs.Dispatch.Moves

/-!
# Dispatches in lockstep

Two programs run in lockstep if they do the same at each step, whatever the endpoint answers, and end
with results in a given relation. Contexts with the same flattened data read alike, and a write keeps
them so, although it only reaches the innermost scope; so a dispatch in a chain of scopes runs in lockstep
with the dispatch in the single scope that holds the flattened data (`dispatch_lockstep`). Nothing that
the host or the endpoint can see tells the two apart (`dispatch_flatten`).
-/

namespace ViewEngine

variable {α β α' β' σ : Type}

namespace Program

/-- The programs do the same step by step, for any answers, and end at the same fault or with results in
the relation. -/
inductive Lockstep (R : α → β → Prop) : Program α → Program β → Prop
  | done {a : α} {b : β} : R a b → Lockstep R (.done a) (.done b)
  | fault (f : Fault) : Lockstep R (.fault f) (.fault f)
  | report (intent : Intent) {p : Program α} {q : Program β} :
      Lockstep R p q → Lockstep R (.report intent p) (.report intent q)
  | call (name : String) (params : Table String) {p : Except EndpointError Json → Program α}
      {q : Except EndpointError Json → Program β} :
      (∀ answer, Lockstep R (p answer) (q answer)) → Lockstep R (.call name params p) (.call name params q)
  | sleep (ms : Nat) {p : Program α} {q : Program β} :
      Lockstep R p q → Lockstep R (.sleep ms p) (.sleep ms q)

variable {R : α → β → Prop} {S : α' → β' → Prop}

namespace Lockstep

theorem bind {p : Program α} {q : Program β} {f : α → Program α'} {g : β → Program β'}
    (h : Lockstep R p q) (hnext : ∀ a b, R a b → Lockstep S (f a) (g b)) :
    Lockstep S (p.bind f) (q.bind g) := by
  induction h with
  | done hab => exact hnext _ _ hab
  | fault f => exact .fault f
  | report intent _ ih => exact .report intent ih
  | call name params _ ih => exact .call name params ih
  | sleep ms _ ih => exact .sleep ms ih

/-- What follows the same resolution of a value only has to be compared at that value. -/
theorem ofExcept_bind (x : Except Fault α) {f : α → Program α'} {g : α → Program β'}
    (hnext : ∀ v, Lockstep S (f v) (g v)) :
    Lockstep S ((ofExcept x).bind f) ((ofExcept x).bind g) := by
  cases x with
  | error e => exact .fault e
  | ok v => exact hnext v

/-- Runs in lockstep show the same at the same times, leave the endpoint in the same state and end
alike. -/
theorem run {p : Program α} {q : Program β} (h : Lockstep R p q) (endpoint : Endpoint σ) (time : Nat)
    (s : σ) :
    let r := p.run endpoint time s
    let r' := q.run endpoint time s
    r.log = r'.log ∧ r.time = r'.time ∧ r.state = r'.state ∧
      ((∃ a b, r.result = .ok a ∧ r'.result = .ok b ∧ R a b) ∨
        ∃ f, r.result = .error f ∧ r'.result = .error f) := by
  induction h generalizing time s with
  | done hab => exact ⟨rfl, rfl, rfl, .inl ⟨_, _, rfl, rfl, hab⟩⟩
  | fault f => exact ⟨rfl, rfl, rfl, .inr ⟨f, rfl, rfl⟩⟩
  | report intent _ ih =>
    obtain ⟨hlog, hrest⟩ := ih time s
    exact ⟨congrArg _ hlog, hrest⟩
  | call name params _ ih =>
    obtain ⟨hlog, hrest⟩ := ih (endpoint s name params).1 time (endpoint s name params).2
    exact ⟨congrArg _ hlog, hrest⟩
  | sleep ms _ ih => exact ih (time + ms) s

end Lockstep

end Program

namespace Context

/-- Contexts with the same flattened data, over given outer scopes. -/
structure Alike (outer outer' : List Fields) (c c' : Context) : Prop where
  allData : c.allData = c'.allData
  outer_left : c.outer = outer
  outer_right : c'.outer = outer'

variable {outer outer' : List Fields} {c c' : Context}

/-- A write only changes the own scope, and shows alike in both. -/
theorem Alike.set (h : Alike outer outer' c c') (key : String) (v : Value) :
    Alike outer outer' (c.set key v) (c'.set key v) :=
  ⟨by rw [allData_set, allData_set, h.allData], h.outer_left, h.outer_right⟩

theorem Alike.store (h : Alike outer outer' c c') (resultKey : Option String) (answer : Json) :
    Alike outer outer' (c.store resultKey answer) (c'.store resultKey answer) := by
  cases resultKey with
  | none => exact h
  | some key => exact h.set key _

theorem alike_flatten (c : Context) : Alike c.outer [] c c.flatten :=
  ⟨(allData_flatten c).symm, rfl, rfl⟩

theorem resolveTexts_congr (h : c.allData = c'.allData) (fields : Fields) :
    c.resolveTexts fields = c'.resolveTexts fields := by
  simp only [resolveTexts, resolveAll_congr h]

end Context

namespace Dispatcher

open Program (Lockstep)
open Context (Alike)

variable (d : Dispatcher) {outer outer' : List Fields} {c c' : Context}

theorem reportIf_lockstep (h : Alike outer outer' c c') (noticed : Bool) (intent : Intent) :
    Lockstep (Alike outer outer') (reportIf noticed intent c) (reportIf noticed intent c') := by
  cases noticed with
  | true => exact .report intent (.done h)
  | false => exact .done h

theorem request_lockstep (h : Alike outer outer' c c') (name : String) (params : Table String)
    (resultKey : Option String) (attempts : Nat) :
    Lockstep (Alike outer outer') (d.request name params resultKey c attempts)
      (d.request name params resultKey c' attempts) := by
  induction attempts with
  | zero => exact .done h
  | succ left ih =>
    refine .call name params fun answer => ?_
    cases answer with
    | ok j => exact .done (h.store resultKey j)
    | error e =>
      by_cases hleft : left = 0
      · simp only [if_pos hleft]
        exact .done h
      · simp only [if_neg hleft]
        exact .sleep _ ih

/-- A leaf reads the flattened data only, and writes to the own scope only. -/
theorem perform_lockstep (h : Alike outer outer' c c') (leaf : Action) :
    Lockstep (Alike outer outer') (d.perform leaf c) (d.perform leaf c') := by
  simp only [perform, Context.resolveAll_congr h.allData, Context.resolveTexts_congr h.allData,
    Context.resolveValue_congr h.allData]
  split
  case h_1 | h_2 =>
    split
    · exact .ofExcept_bind _ fun params => reportIf_lockstep h _ _
    · exact .done h
  case h_3 => exact reportIf_lockstep h _ _
  case h_4 =>
    split
    · exact .ofExcept_bind _ fun params => d.request_lockstep h _ params _ _
    · exact .done h
  case h_5 =>
    split
    · exact .ofExcept_bind _ fun v => .done (h.set _ v)
    · exact .done h
  case h_6 =>
    split
    · exact .ofExcept_bind _ fun payload => .report _ (.done h)
    · exact .done h
  case h_7 => exact .done h

theorem follow_lockstep (h : Alike outer outer' c c') (moves : List Move) :
    Lockstep (Alike outer outer') (d.follow moves c) (d.follow moves c') := by
  induction moves generalizing c c' with
  | nil => exact .done h
  | cons move rest ih =>
    cases move with
    | pause => exact .sleep _ (ih h)
    | perform leaf => exact (d.perform_lockstep h leaf).bind fun _ _ h => ih h

/-- Contexts that read alike are dispatched in alike. -/
theorem dispatch_lockstep (h : Alike outer outer' c c') (a : Action) :
    Lockstep (Alike outer outer') (d.dispatch a c) (d.dispatch a c') := by
  rw [dispatch_eq_follow, dispatch_eq_follow]
  exact d.follow_lockstep h a.moves

/-- Also runs that break off leave contexts that read alike. -/
theorem left_alike (endpoint : Endpoint σ) (h : Alike outer outer' c c') (moves : List Move) (s : σ) :
    Alike outer outer' (d.left endpoint moves c s) (d.left endpoint moves c' s) := by
  induction moves generalizing c c' s with
  | nil => exact h
  | cons move rest ih =>
    cases move with
    | pause => exact ih h s
    | perform leaf =>
      obtain ⟨-, -, hstate, hresult⟩ := (d.perform_lockstep h leaf).run endpoint 0 s
      rcases hresult with ⟨c₁, c₂, hres, hres', hnext⟩ | ⟨f, hres, hres'⟩
      · simp only [left, hres, hres', hstate]
        exact ih hnext _
      · simp only [left, hres, hres']
        exact h

/-- **Flattening the scopes is a simulation.** A dispatch in a chain of scopes and the dispatch in the single
scope with the flattened data show the same entries at the same times, leave the endpoint in the same
state and end at the same time with the same flattened data, or at the same fault. Each outer scope
keeps what it held. All this holds as well of the contexts that a fault leaves behind. -/
theorem dispatch_flatten (endpoint : Endpoint σ) (a : Action) (c : Context) (time : Nat) (s : σ) :
    let run := (d.dispatch a c).run endpoint time s
    let flat := (d.dispatch a c.flatten).run endpoint time s
    run.log = flat.log ∧ run.time = flat.time ∧ run.state = flat.state ∧
    (match run.result, flat.result with
      | .ok c₁, .ok c₂ => c₁.allData = c₂.allData ∧ c₁.outer = c.outer
      | .error f, .error g => f = g
      | _, _ => False) ∧
    (d.left endpoint a.moves c s).allData = (d.left endpoint a.moves c.flatten s).allData ∧
    (d.left endpoint a.moves c s).outer = c.outer := by
  intro run flat
  have h := Context.alike_flatten c
  have hleft := d.left_alike endpoint h a.moves s
  obtain ⟨hlog, htime, hstate, hresult⟩ := (d.dispatch_lockstep h a).run endpoint time s
  refine ⟨hlog, htime, hstate, ?_, hleft.allData, hleft.outer_left⟩
  rcases hresult with ⟨c₁, c₂, hres, hres', hend⟩ | ⟨f, hres, hres'⟩
  · simp only [run, flat, hres, hres']
    exact ⟨hend.allData, hend.outer_left⟩
  · simp only [run, flat, hres, hres']

end Dispatcher

end ViewEngine
