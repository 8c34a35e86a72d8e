import ViewEngine.Dispatch.Basic
import ViewEngine.Proofs.Dispatch.Run

/-!
# The leaves of an action

A sequence does what its leaves do one after the other, whatever the nesting: the pauses before its
steps are all that tells the two runs apart (`dispatch_sameButTimes`). Each leaf runs in the context
and on the endpoint that the leaf before it left, and none is skipped or run twice, unless a fault
breaks off the run (`dispatch_executes_leaves`).
-/

namespace ViewEngine

namespace Action

mutual

/-- The actions that are dispatched in an action: itself, or the leaves of its steps in order. -/
def leaves : Action → List Action
  | a@⟨type, _, _, _, _, _, _, _, _, actions, _⟩ =>
    if type = "sequence" then stepLeaves actions else [a]

def stepLeaves : Option (List Action) → List Action
  | none => []
  | some actions => listLeaves actions

def listLeaves : List Action → List Action
  | [] => []
  | a :: rest => leaves a ++ listLeaves rest

end

end Action

namespace Dispatcher

variable {σ : Type} (d : Dispatcher) (endpoint : Endpoint σ)

/-- Dispatches actions one after the other, each where the one before it ended. -/
def runEach : List Action → Context → Nat → σ → Run σ Context
  | [], c, time, s => ⟨[], time, s, .ok c⟩
  | a :: rest, c, time, s => ((d.dispatch a c).run endpoint time s).andThen (runEach rest)

theorem runEach_append (xs ys : List Action) (c : Context) (time : Nat) (s : σ) :
    d.runEach endpoint (xs ++ ys) c time s =
      (d.runEach endpoint xs c time s).andThen (d.runEach endpoint ys) := by
  induction xs generalizing c time s with
  | nil => rfl
  | cons a xs ih =>
    have hrest : d.runEach endpoint (xs ++ ys) = fun c time s =>
        (d.runEach endpoint xs c time s).andThen (d.runEach endpoint ys) := by
      funext c time s
      exact ih c time s
    simp only [List.cons_append, runEach, hrest, Run.andThen_assoc]

/-- An action on its own is dispatched as a list of one. -/
theorem runEach_singleton (a : Action) (c : Context) (time : Nat) (s : σ) :
    d.runEach endpoint [a] c time s = (d.dispatch a c).run endpoint time s := by
  simp only [runEach]
  cases h : ((d.dispatch a c).run endpoint time s).result with
  | error f =>
    rw [Run.andThen_error h, ← h]
  | ok c' =>
    rw [Run.andThen_ok h, List.append_nil, ← h]

mutual

theorem dispatch_sameButTimes : (a : Action) → (c : Context) → (t u : Nat) → (s : σ) →
    ((d.dispatch a c).run endpoint t s).SameButTimes (d.runEach endpoint a.leaves c u s)
  | ⟨type, screen, params, name, resultKey, key, value, event, payload, actions, binding⟩, c, t, u, s => by
    by_cases htype : type = "sequence"
    · simp only [dispatch, Action.leaves, if_pos htype]
      exact dispatchSteps_sameButTimes actions c t u s
    · simp only [Action.leaves, if_neg htype]
      rw [runEach_singleton]
      exact Program.run_sameButTimes endpoint _ t u s

theorem dispatchSteps_sameButTimes : (actions : Option (List Action)) → (c : Context) → (t u : Nat) →
    (s : σ) → ((d.dispatchSteps actions c).run endpoint t s).SameButTimes
      (d.runEach endpoint (Action.stepLeaves actions) c u s)
  | none, _, _, _, _ => ⟨rfl, rfl, rfl⟩
  | some actions, c, t, u, s => dispatchAll_sameButTimes true actions c t u s

theorem dispatchAll_sameButTimes (isFirst : Bool) : (actions : List Action) → (c : Context) →
    (t u : Nat) → (s : σ) → ((d.dispatchAll isFirst actions c).run endpoint t s).SameButTimes
      (d.runEach endpoint (Action.listLeaves actions) c u s)
  | [], _, _, _, _ => ⟨rfl, rfl, rfl⟩
  | a :: rest, c, t, u, s => by
    have hstep (t : Nat) :
        (((d.dispatch a c).bind (d.dispatchAll false rest)).run endpoint t s).SameButTimes
          (d.runEach endpoint (Action.listLeaves (a :: rest)) c u s) := by
      rw [Program.run_bind, Action.listLeaves, runEach_append]
      exact (dispatch_sameButTimes a c t u s).andThen (dispatchAll_sameButTimes false rest)
    cases isFirst with
    | true => exact hstep t
    | false => exact hstep (t + d.timing.sequenceDelay)

end

/-! ## Each leaf once -/

/-- Actions that are dispatched in order, each once: `runs` are their runs, and each starts in the
context and the state of the endpoint in which the one before it ended. A fault is the end, and the
actions after it are not dispatched. -/
inductive Executes : List Action → Context → σ → List (Run σ Context) → Except Fault Context → σ → Prop
  | nil (c : Context) (s : σ) : Executes [] c s [] (.ok c) s
  | cons {a : Action} {rest : List Action} {c c' : Context} {s s' : σ} {run : Run σ Context}
      {runs : List (Run σ Context)} {result : Except Fault Context} :
      run = (d.dispatch a c).run endpoint 0 s → run.result = .ok c' →
      Executes rest c' run.state runs result s' → Executes (a :: rest) c s (run :: runs) result s'
  | fault {a : Action} {rest : List Action} {c : Context} {s : σ} {run : Run σ Context} {f : Fault} :
      run = (d.dispatch a c).run endpoint 0 s → run.result = .error f →
      Executes (a :: rest) c s [run] (.error f) run.state

variable {d endpoint}

/-- All of the actions are dispatched exactly if none of them breaks off. -/
theorem Executes.ok_iff {actions : List Action} {c : Context} {s s' : σ} {runs : List (Run σ Context)}
    {result : Except Fault Context} (h : d.Executes endpoint actions c s runs result s') :
    (∃ c', result = .ok c') ↔
      runs.length = actions.length ∧ ∀ q ∈ runs, ∃ c', q.result = .ok c' := by
  induction h with
  | nil c s => simp
  | cons hrun hok _ ih => simp [ih, hok]
  | fault hrun herr => simp [herr]

variable (d endpoint)

theorem runEach_executes (actions : List Action) (c : Context) (time : Nat) (s : σ) :
    ∃ runs, d.Executes endpoint actions c s runs (d.runEach endpoint actions c time s).result
        (d.runEach endpoint actions c time s).state ∧
      (d.runEach endpoint actions c time s).entries = runs.flatMap Run.entries := by
  induction actions generalizing c time s with
  | nil => exact ⟨[], .nil c s, rfl⟩
  | cons a rest ih =>
    obtain ⟨hentries, hstate, hresult⟩ :=
      Program.run_sameButTimes endpoint (d.dispatch a c) time 0 s
    simp only [runEach]
    cases h : ((d.dispatch a c).run endpoint time s).result with
    | error f =>
      rw [Run.andThen_error h]
      refine ⟨[(d.dispatch a c).run endpoint 0 s], ?_, ?_⟩
      · rw [hstate]
        exact .fault rfl (hresult ▸ h)
      · simpa [Run.entries] using hentries
    | ok c' =>
      obtain ⟨runs, hrest, hlog⟩ := ih c' ((d.dispatch a c).run endpoint time s).time
        ((d.dispatch a c).run endpoint time s).state
      rw [Run.andThen_ok h]
      refine ⟨(d.dispatch a c).run endpoint 0 s :: runs, .cons rfl (hresult ▸ h) (hstate ▸ hrest), ?_⟩
      simp only [Run.entries, List.map_append, List.flatMap_cons] at hentries hlog ⊢
      rw [hentries, hlog]

/-- **Sequences are the flattening of their leaves.** Dispatching an action of any nesting differs at
most in its times from dispatching its leaves one after the other: what is seen, the state of the
endpoint and the context at the end, or the fault, are the same. What is seen is what the leaves that
were dispatched show, in order; and each leaf is dispatched once, to its end, exactly if no fault
breaks off the run. -/
theorem dispatch_executes_leaves (a : Action) (c : Context) (time : Nat) (s : σ) :
    let run := (d.dispatch a c).run endpoint time s
    run.SameButTimes (d.runEach endpoint a.leaves c time s) ∧
    ∃ runs, d.Executes endpoint a.leaves c s runs run.result run.state ∧
      run.entries = runs.flatMap Run.entries ∧
      ((∃ c', run.result = .ok c') ↔
        runs.length = a.leaves.length ∧ ∀ q ∈ runs, ∃ c', q.result = .ok c') := by
  intro run
  have hsame := d.dispatch_sameButTimes endpoint a c time time s
  obtain ⟨runs, hexec, hlog⟩ := d.runEach_executes endpoint a.leaves c time s
  rw [← hsame.result, ← hsame.state] at hexec
  exact ⟨hsame, runs, hexec, hsame.entries.trans hlog, hexec.ok_iff⟩

/-- After a leaf that breaks off, no leaf is dispatched: here the dismissal is never reported. -/
theorem dispatch_late_date_skips_leaf :
    let late : Action := { type := "setState", key := some "k", value := some (.string "$.t | date:'x'") }
    let a : Action := { type := "sequence", actions := some [late, { type := "dismiss" }] }
    let c : Context := { own := [("t", .string "9999-12-31T23:59:59-01:00")] }
    let d : Dispatcher := { dismisses := true }
    let run := (d.dispatch a c).run Fixtures.call 0 {}
    a.leaves.length = 2 ∧ run.log.length = 0 ∧ run.result = .error .yearOutOfRange := by
  refine ⟨?_, ?_, ?_⟩ <;> rfl

end Dispatcher

end ViewEngine
