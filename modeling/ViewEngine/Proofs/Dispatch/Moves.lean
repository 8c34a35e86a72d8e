import ViewEngine.Proofs.Dispatch.Leaves
import ViewEngine.Proofs.Dispatch.Retries

/-!
# The moves of an action

Whatever its nesting, a dispatch goes through one list of moves: it performs the leaves in order and
pauses before each step of a sequence but the first. Following that list is the same program as the
dispatch itself (`dispatch_eq_follow`), pauses included, so what a dispatch does can be shown by
induction on a list with two cases, and a leaf can only do one of five things (`Performs`).

A run that breaks off does so between two moves: the leaf at fault has shown and written nothing yet
(`follow_left`).
-/

namespace ViewEngine

/-- What a dispatch does between two points at which it may be seen to stand. -/
inductive Move where
  /-- The pause before a step of a sequence. -/
  | pause
  | perform (leaf : Action)

namespace Action

mutual

/-- The leaves of an action in order, and the pauses between its steps. -/
def moves : Action → List Move
  | a@⟨type, _, _, _, _, _, _, _, _, actions, _⟩ =>
    if type = "sequence" then stepMoves actions else [.perform a]

def stepMoves : Option (List Action) → List Move
  | none => []
  | some actions => listMoves true actions

def listMoves (isFirst : Bool) : List Action → List Move
  | [] => []
  | a :: rest =>
    let step := moves a ++ listMoves false rest
    if isFirst then step else .pause :: step

end

/-- The action calls an endpoint, unless one of its parameters is at fault. -/
def isRequest (a : Action) : Bool := a.type = "api" && a.endpoint.isSome

/-- The key that a leaf may write. -/
def writtenKey? (a : Action) : Option String :=
  match a.type with
  | "setState" => a.value.bind fun _ => a.key
  | "api" => a.endpoint.bind fun _ => a.resultKey
  | _ => none

end Action

/-- The leaf that is performed, if the move is no pause. -/
def Move.leaf? : Move → Option Action
  | .pause => none
  | .perform leaf => some leaf

namespace Action

mutual

/-- Without the pauses the moves are the leaves. -/
theorem filterMap_leaf?_moves : (a : Action) → a.moves.filterMap Move.leaf? = a.leaves
  | ⟨type, screen, params, name, resultKey, key, value, event, payload, actions, binding⟩ => by
    by_cases htype : type = "sequence"
    · simp only [moves, leaves, if_pos htype]
      exact filterMap_leaf?_stepMoves actions
    · simp only [moves, leaves, if_neg htype]
      rfl

theorem filterMap_leaf?_stepMoves :
    (actions : Option (List Action)) → (stepMoves actions).filterMap Move.leaf? = stepLeaves actions
  | none => rfl
  | some actions => filterMap_leaf?_listMoves true actions

theorem filterMap_leaf?_listMoves (isFirst : Bool) : (actions : List Action) →
    (listMoves isFirst actions).filterMap Move.leaf? = listLeaves actions
  | [] => rfl
  | a :: rest => by
    have hstep : (moves a ++ listMoves false rest).filterMap Move.leaf? = listLeaves (a :: rest) := by
      rw [List.filterMap_append, filterMap_leaf?_moves a, filterMap_leaf?_listMoves false rest, listLeaves]
    cases isFirst with
    | true => exact hstep
    | false => exact hstep

end

end Action

namespace Dispatcher

variable {σ : Type} (d : Dispatcher) (endpoint : Endpoint σ)

/-- Goes through moves one after the other. -/
def follow : List Move → Context → Program Context
  | [], c => .done c
  | .pause :: rest, c => .sleep d.timing.sequenceDelay (follow rest c)
  | .perform leaf :: rest, c => (d.perform leaf c).bind (follow rest)

theorem follow_append (xs ys : List Move) (c : Context) :
    d.follow (xs ++ ys) c = (d.follow xs c).bind (d.follow ys) := by
  induction xs generalizing c with
  | nil => rfl
  | cons move xs ih =>
    cases move with
    | pause => simp only [List.cons_append, follow, ih, Program.bind]
    | perform leaf =>
      have hrest : d.follow (xs ++ ys) = fun c => (d.follow xs c).bind (d.follow ys) := funext ih
      simp only [List.cons_append, follow, hrest, Program.bind_assoc]

mutual

/-- **A dispatch follows its moves**, however its sequences are nested. -/
theorem dispatch_eq_follow : (a : Action) → (c : Context) → d.dispatch a c = d.follow a.moves c
  | ⟨type, screen, params, name, resultKey, key, value, event, payload, actions, binding⟩, c => by
    by_cases htype : type = "sequence"
    · simp only [dispatch, Action.moves, if_pos htype]
      exact dispatchSteps_eq_follow actions c
    · simp only [dispatch, Action.moves, if_neg htype]
      exact (Program.bind_done _).symm

theorem dispatchSteps_eq_follow : (actions : Option (List Action)) → (c : Context) →
    d.dispatchSteps actions c = d.follow (Action.stepMoves actions) c
  | none, _ => rfl
  | some actions, c => dispatchAll_eq_follow true actions c

theorem dispatchAll_eq_follow (isFirst : Bool) : (actions : List Action) → (c : Context) →
    d.dispatchAll isFirst actions c = d.follow (Action.listMoves isFirst actions) c
  | [], _ => rfl
  | a :: rest, c => by
    have hrest : d.dispatchAll false rest = d.follow (Action.listMoves false rest) :=
      funext (dispatchAll_eq_follow false rest)
    have hstep : (d.dispatch a c).bind (d.dispatchAll false rest) =
        d.follow (a.moves ++ Action.listMoves false rest) c := by
      rw [dispatch_eq_follow a c, hrest, follow_append]
    cases isFirst with
    | true => exact hstep
    | false => exact congrArg (Program.sleep d.timing.sequenceDelay) hstep

end

/-! ## What a leaf does -/

/-- The programs that a leaf may come to in a context. -/
inductive Performs (a : Action) (c : Context) : Program Context → Prop
  /-- A value that it needs is at fault, before anything can be seen of it. -/
  | fault (f : Fault) : Performs a c (.fault f)
  | idle : a.isRequest = false → a.writtenKey? = none → Performs a c (.done c)
  | report (intent : Intent) : a.isRequest = false → a.writtenKey? = none →
      Performs a c (.report intent (.done c))
  | request {name : String} {params : Table String} : a.type = "api" → a.endpoint = some name →
      c.resolveTexts (a.params.getD []) = .ok params →
      Performs a c (d.request name params a.resultKey c d.attempts)
  | write {key : String} {authored v : Value} : a.type = "setState" → a.key = some key →
      a.value = some authored → c.resolveValue authored = .ok v → Performs a c (.done (c.set key v))

theorem performs_reportIf {a : Action} {c : Context} (hcall : a.isRequest = false)
    (hkey : a.writtenKey? = none) (noticed : Bool) (intent : Intent) :
    d.Performs a c (reportIf noticed intent c) := by
  cases noticed with
  | true => exact .report intent hcall hkey
  | false => exact .idle hcall hkey

/-- What follows the resolution of a value is only reached if there is no fault. -/
theorem performs_ofExcept {α : Type} {a : Action} {c : Context} {x : Except Fault α}
    {next : α → Program Context} (h : ∀ v, x = .ok v → d.Performs a c (next v)) :
    d.Performs a c ((Program.ofExcept x).bind next) := by
  cases x with
  | error f => exact .fault f
  | ok v => exact h v rfl

theorem performs_perform (a : Action) (c : Context) : d.Performs a c (d.perform a c) := by
  unfold perform
  split
  case h_1 htype | h_2 htype =>
    have hcall : a.isRequest = false := by simp [Action.isRequest, htype]
    have hkey : a.writtenKey? = none := by simp [Action.writtenKey?, htype]
    split
    · exact d.performs_ofExcept fun params _ => d.performs_reportIf hcall hkey _ _
    · exact .idle hcall hkey
  case h_3 htype =>
    exact d.performs_reportIf (by simp [Action.isRequest, htype])
      (by simp [Action.writtenKey?, htype]) _ _
  case h_4 htype =>
    split
    next name hname => exact d.performs_ofExcept fun params hparams => .request htype hname hparams
    next hname =>
      exact .idle (by simp [Action.isRequest, hname]) (by simp [Action.writtenKey?, htype, hname])
  case h_5 htype =>
    have hcall : a.isRequest = false := by simp [Action.isRequest, htype]
    split
    next key authored hkey hvalue =>
      exact d.performs_ofExcept fun v hv => .write htype hkey hvalue hv
    next hmissing =>
      refine .idle hcall ?_
      cases hkey : a.key <;> cases hvalue : a.value <;>
        simp_all [Action.writtenKey?]
  case h_6 htype =>
    have hcall : a.isRequest = false := by simp [Action.isRequest, htype]
    have hkey : a.writtenKey? = none := by simp [Action.writtenKey?, htype]
    split
    · exact d.performs_ofExcept fun payload _ => .report _ hcall hkey
    · exact .idle hcall hkey
  case h_7 =>
    refine .idle ?_ ?_
    · simp_all [Action.isRequest]
    · unfold Action.writtenKey?
      split <;> simp_all

theorem exists_attempts_eq_succ : ∃ left, d.attempts = left + 1 :=
  Nat.exists_eq_add_of_le' (Nat.le_max_left _ _)

variable {d} in
/-- A leaf that breaks off does nothing before. -/
theorem Performs.eq_fault {a : Action} {c : Context} {p : Program Context} (h : d.Performs a c p)
    {time : Nat} {s : σ} {f : Fault} (hf : (p.run endpoint time s).result = .error f) : p = .fault f := by
  cases h with
  | fault g =>
    cases hf
    rfl
  | idle | report intent | write => cases hf
  | request =>
    obtain ⟨left, hleft⟩ := d.exists_attempts_eq_succ
    rw [hleft, run_request] at hf
    cases hf

/-! ## Where a run ends -/

/-- The context in which a run ends. Also a run that breaks off leaves one: what the leaves before the one
at fault have made of it. -/
def left : List Move → Context → σ → Context
  | [], c, _ => c
  | .pause :: rest, c, s => left rest c s
  | .perform leaf :: rest, c, s =>
    let run := (d.perform leaf c).run endpoint 0 s
    match run.result with
    | .ok c' => left rest c' run.state
    | .error _ => c

theorem left_perform_ok {leaf : Action} {c c' : Context} {time : Nat} {s : σ}
    (h : ((d.perform leaf c).run endpoint time s).result = .ok c') (rest : List Move) :
    d.left endpoint (.perform leaf :: rest) c s =
      d.left endpoint rest c' ((d.perform leaf c).run endpoint time s).state := by
  obtain ⟨-, hstate, hresult⟩ := Program.run_sameButTimes endpoint (d.perform leaf c) 0 time s
  simp only [left, hstate, hresult, h]

theorem left_perform_fault {leaf : Action} {c : Context} {f : Fault} (h : d.perform leaf c = .fault f)
    (rest : List Move) (s : σ) : d.left endpoint (.perform leaf :: rest) c s = c := by
  simp only [left, h, Program.run]

theorem run_follow_perform_ok {leaf : Action} {c c' : Context} {time : Nat} {s : σ}
    (h : ((d.perform leaf c).run endpoint time s).result = .ok c') (rest : List Move) :
    let first := (d.perform leaf c).run endpoint time s
    let last := (d.follow rest c').run endpoint first.time first.state
    (d.follow (.perform leaf :: rest) c).run endpoint time s =
      ⟨first.log ++ last.log, last.time, last.state, last.result⟩ := by
  rw [follow, Program.run_bind, Run.andThen_ok h]

/-- A run goes through all of its moves, or it ends between two of them: it is the run of the moves
before the leaf at fault, and nothing can be seen of that leaf. -/
theorem follow_left (moves : List Move) (c : Context) (time : Nat) (s : σ) :
    let run := (d.follow moves c).run endpoint time s
    let left := d.left endpoint moves c s
    run.result = .ok left ∨
      ∃ before leaf after f, moves = before ++ .perform leaf :: after ∧
        (d.follow before c).run endpoint time s = { run with result := .ok left } ∧
        d.perform leaf left = .fault f ∧ run.result = .error f := by
  induction moves generalizing c time s with
  | nil => exact .inl rfl
  | cons move rest ih =>
    cases move with
    | pause =>
      refine (ih c (time + d.timing.sequenceDelay) s).imp_right ?_
      rintro ⟨before, leaf, after, f, rfl, hrun, hfault, herr⟩
      exact ⟨.pause :: before, leaf, after, f, rfl, hrun, hfault, herr⟩
    | perform leaf =>
      cases hres : ((d.perform leaf c).run endpoint time s).result with
      | error f =>
        have hfault := (d.performs_perform leaf c).eq_fault endpoint hres
        refine .inr ⟨[], leaf, rest, f, rfl, ?_, ?_, ?_⟩
        · simp only [follow, hfault, Program.bind, Program.run, left_perform_fault d endpoint hfault]
        · rwa [left_perform_fault d endpoint hfault]
        · simp only [follow, hfault, Program.bind, Program.run]
      | ok c' =>
        simp only [run_follow_perform_ok d endpoint hres, left_perform_ok d endpoint hres]
        refine (ih c' _ _).imp_right ?_
        rintro ⟨before, next, after, f, rfl, hrun, hfault, herr⟩
        refine ⟨.perform leaf :: before, next, after, f, rfl, ?_, hfault, herr⟩
        rw [run_follow_perform_ok d endpoint hres, hrun]

end Dispatcher

end ViewEngine
