import ViewEngine.Proofs.Dispatch.Moves

/-!
# The time of a dispatch

Only pauses and the waits between two attempts of a call take time. So the time of a dispatch can be read
off the action and the number of calls: one pause for each gap between two steps of a sequence, one
wait for each call beyond the first of its request (`dispatch_accounts_for_time`). The account is kept
move by move (`follow_time`), which also gives it for a run that a fault breaks off, with the moves
that were made.
-/

namespace ViewEngine

variable {α σ : Type}

/-! ## Times of any program -/

/-- The entries of a run lie between its start and its end and follow each other in time. -/
theorem Program.run_times (endpoint : Endpoint σ) (p : Program α) (time : Nat) (s : σ) :
    let run := p.run endpoint time s
    time ≤ run.time ∧ (∀ e ∈ run.log, time ≤ e.1) ∧ run.log.Pairwise fun a b => a.1 ≤ b.1 := by
  induction p generalizing time s with
  | done a => exact ⟨Nat.le_refl _, by simp [run], .nil⟩
  | fault f => exact ⟨Nat.le_refl _, by simp [run], .nil⟩
  | report intent next ih =>
    obtain ⟨hend, hlog, hsorted⟩ := ih time s
    exact ⟨hend, List.forall_mem_cons.2 ⟨Nat.le_refl _, hlog⟩, .cons hlog hsorted⟩
  | call name params next ih =>
    obtain ⟨hend, hlog, hsorted⟩ := ih _ time (endpoint s name params).2
    exact ⟨hend, List.forall_mem_cons.2 ⟨Nat.le_refl _, hlog⟩, .cons hlog hsorted⟩
  | sleep ms next ih =>
    obtain ⟨hend, hlog, hsorted⟩ := ih (time + ms) s
    have hlater : time ≤ time + ms := Nat.le_add_right time ms
    exact ⟨hlater.trans hend, fun e he => hlater.trans (hlog e he), hsorted⟩

/-! ## What is counted -/

namespace Action

mutual

/-- The gaps between the steps of an action: for each sequence that is reached, one fewer than its steps. -/
def gaps : Action → Nat
  | ⟨type, _, _, _, _, _, _, _, _, actions, _⟩ => if type = "sequence" then stepGaps actions else 0

def stepGaps : Option (List Action) → Nat
  | none => 0
  | some actions => (actions.length - 1) + listGaps actions

def listGaps : List Action → Nat
  | [] => 0
  | a :: rest => gaps a + listGaps rest

end

end Action

/-- The number of pauses among moves. -/
def pauses (moves : List Move) : Nat := moves.countP fun move => move.leaf?.isNone

/-- The number of `api` actions with an endpoint among moves. -/
def requests (moves : List Move) : Nat := (moves.filterMap Move.leaf?).countP Action.isRequest

theorem pauses_append (xs ys : List Move) : pauses (xs ++ ys) = pauses xs + pauses ys :=
  List.countP_append

theorem requests_moves (a : Action) : requests a.moves = a.leaves.countP Action.isRequest := by
  rw [requests, Action.filterMap_leaf?_moves]

theorem requests_perform (leaf : Action) (rest : List Move) :
    requests (.perform leaf :: rest) = (if leaf.isRequest then 1 else 0) + requests rest := by
  simp [requests, Move.leaf?, List.countP_cons, Nat.add_comm]

namespace Action

mutual

/-- Each gap is a pause. -/
theorem pauses_moves : (a : Action) → pauses a.moves = a.gaps
  | ⟨type, screen, params, name, resultKey, key, value, event, payload, actions, binding⟩ => by
    by_cases htype : type = "sequence"
    · simp only [moves, gaps, if_pos htype]
      exact pauses_stepMoves actions
    · simp only [moves, gaps, if_neg htype]
      rfl

theorem pauses_stepMoves : (actions : Option (List Action)) → pauses (stepMoves actions) = stepGaps actions
  | none => rfl
  | some [] => rfl
  | some (a :: rest) => by
    simp only [stepMoves, listMoves, if_true, stepGaps, listGaps, pauses_append, pauses_moves a,
      pauses_listMoves rest, List.length_cons]
    omega

/-- Steps that come later are each preceded by a pause. -/
theorem pauses_listMoves : (actions : List Action) →
    pauses (listMoves false actions) = actions.length + listGaps actions
  | [] => rfl
  | a :: rest => by
    have hpause (moves : List Move) : pauses (.pause :: moves) = pauses moves + 1 := by
      simp [pauses, Move.leaf?]
    simp only [listMoves, Bool.false_eq_true, if_false, listGaps, hpause, pauses_append, pauses_moves a,
      pauses_listMoves rest, List.length_cons]
    omega

end

end Action

def LogEntry.isCall : LogEntry → Bool
  | .intent _ => false
  | .call _ _ _ => true

/-- The number of calls in a run. -/
def Run.calls (r : Run σ α) : Nat := r.log.countP fun e => e.2.isCall

namespace Dispatcher

variable (d : Dispatcher) (endpoint : Endpoint σ)

theorem countP_callEntries (name : String) (params : Table String) (time : Nat) (s : σ) (calls : Nat) :
    (d.callEntries endpoint name params time s calls).countP (fun e => e.2.isCall) = calls := by
  have hall : ∀ e ∈ d.callEntries endpoint name params time s calls, e.2.isCall = true := by
    simp [callEntries, LogEntry.ofCall, LogEntry.isCall]
  rw [List.countP_eq_length.2 hall, callEntries, List.length_map, List.length_range]

/-! ## The account, move by move -/

/-- A leaf waits once for each call beyond the first of its request. -/
theorem perform_time {leaf : Action} {c c' : Context} {time : Nat} {s : σ}
    (h : ((d.perform leaf c).run endpoint time s).result = .ok c') :
    let run := (d.perform leaf c).run endpoint time s
    ∃ retries, run.calls = (if leaf.isRequest then 1 else 0) + retries ∧
      run.time = time + d.timing.retryBackoff * retries := by
  have hleaf := d.performs_perform leaf c
  generalize d.perform leaf c = p at h hleaf ⊢
  cases hleaf with
  | fault f => cases h
  | idle hcall => exact ⟨0, by simp [Program.run, Run.calls, hcall], rfl⟩
  | report intent hcall =>
    exact ⟨0, by simp [Program.run, Run.cons, Run.calls, LogEntry.isCall, hcall], rfl⟩
  | @request name params htype hname _ =>
    obtain ⟨left, hleft⟩ := d.exists_attempts_eq_succ
    have hcall : leaf.isRequest = true := by simp [Action.isRequest, htype, hname]
    have hpos := callsMade_pos (endpoint.answer name params s) left
    refine ⟨callsMade (endpoint.answer name params s) (left + 1) - 1, ?_, ?_⟩
    · simp only [hleft, run_request, Run.calls, countP_callEntries, hcall, if_true]
      omega
    · simp only [hleft, run_request, Nat.mul_comm]
  | write htype =>
    exact ⟨0, by simp [Program.run, Run.calls, Action.isRequest, htype], rfl⟩

/-- A run to the end takes a pause for each of its pauses and a wait for each call beyond the first of
its request. -/
theorem follow_time {moves : List Move} {c c' : Context} {time : Nat} {s : σ}
    (h : ((d.follow moves c).run endpoint time s).result = .ok c') :
    let run := (d.follow moves c).run endpoint time s
    ∃ retries, run.calls = requests moves + retries ∧
      run.time = time + d.timing.sequenceDelay * pauses moves + d.timing.retryBackoff * retries := by
  induction moves generalizing c time s with
  | nil => exact ⟨0, rfl, rfl⟩
  | cons move rest ih =>
    cases move with
    | pause =>
      obtain ⟨retries, hcalls, htime⟩ := ih h
      refine ⟨retries, hcalls, htime.trans ?_⟩
      simp only [pauses, Move.leaf?, Option.isNone_none, List.countP_cons_of_pos, Nat.mul_succ]
      omega
    | perform leaf =>
      cases hres : ((d.perform leaf c).run endpoint time s).result with
      | error f =>
        rw [follow, Program.run_bind, Run.andThen_error hres] at h
        cases h
      | ok c₁ =>
        rw [run_follow_perform_ok d endpoint hres] at h ⊢
        obtain ⟨first, hfirst, htime⟩ := d.perform_time endpoint hres
        obtain ⟨later, hlater, hend⟩ := ih h
        refine ⟨first + later, ?_, hend.trans ?_⟩
        · simp only [Run.calls, List.countP_append, requests_perform] at hfirst hlater ⊢
          omega
        · have hpauses : pauses (.perform leaf :: rest) = pauses rest := rfl
          rw [hpauses, htime, Nat.mul_add]
          omega

/-- The account with the calls given: all but one for each request are repeated. -/
theorem follow_account {moves : List Move} {c c' : Context} {time : Nat} {s : σ}
    (h : ((d.follow moves c).run endpoint time s).result = .ok c') :
    let run := (d.follow moves c).run endpoint time s
    requests moves ≤ run.calls ∧ run.time = time + d.timing.sequenceDelay * pauses moves +
      d.timing.retryBackoff * (run.calls - requests moves) := by
  obtain ⟨retries, hcalls, htime⟩ := d.follow_time endpoint h
  dsimp only
  rw [hcalls, Nat.add_sub_cancel_left]
  exact ⟨Nat.le_add_right _ _, htime⟩

end Dispatcher

/-! ## When a step begins -/

/-- A step of a sequence at the moment at which it begins. -/
structure Step (σ : Type) where
  action : Action
  context : Context
  time : Nat
  state : σ

namespace Dispatcher

variable (d : Dispatcher) (endpoint : Endpoint σ)

def runStep (step : Step σ) : Run σ Context :=
  (d.dispatch step.action step.context).run endpoint step.time step.state

/-- How long a step takes. -/
def duration (step : Step σ) : Nat := (d.runStep endpoint step).time - step.time

/-- The steps of a sequence that are begun, each one pause after the end of the one before it. -/
def steps : List Action → Context → Nat → σ → List (Step σ)
  | [], _, _, _ => []
  | a :: rest, c, time, s =>
    let step : Step σ := ⟨a, c, time, s⟩
    let run := d.runStep endpoint step
    step :: match run.result with
      | .ok c' => steps rest c' (run.time + d.timing.sequenceDelay) run.state
      | .error _ => []

variable {d endpoint} in
theorem steps_cons_ok {a : Action} {c c' : Context} {time : Nat} {s : σ}
    (h : ((d.dispatch a c).run endpoint time s).result = .ok c') (rest : List Action) :
    let run := (d.dispatch a c).run endpoint time s
    d.steps endpoint (a :: rest) c time s =
      ⟨a, c, time, s⟩ :: d.steps endpoint rest c' (run.time + d.timing.sequenceDelay) run.state := by
  simp only [steps, runStep, h]

variable {d endpoint} in
theorem steps_cons_error {a : Action} {c : Context} {time : Nat} {s : σ} {f : Fault}
    (h : ((d.dispatch a c).run endpoint time s).result = .error f) (rest : List Action) :
    d.steps endpoint (a :: rest) c time s = [⟨a, c, time, s⟩] := by
  simp only [steps, runStep, h]

/-- A sequence is made of the runs of its steps: what is seen of it is what is seen of them, it ends when
and as the last of them ends, and only a fault keeps a step from being begun. -/
theorem run_dispatchAll (actions : List Action) (c : Context) (time : Nat) (s : σ) :
    let run := (d.dispatchAll true actions c).run endpoint time s
    let steps := d.steps endpoint actions c time s
    run.log = steps.flatMap (fun step => (d.runStep endpoint step).log) ∧
    (∀ last ∈ steps.getLast?, (d.runStep endpoint last).time = run.time ∧
      (d.runStep endpoint last).state = run.state ∧ (d.runStep endpoint last).result = run.result) ∧
    steps.map Step.action <+: actions ∧
    ((∃ c', run.result = .ok c') → steps.map Step.action = actions) := by
  induction actions generalizing c time s with
  | nil => simp [dispatchAll, Program.run, steps]
  | cons a rest ih =>
    have hrun : (d.dispatchAll true (a :: rest) c).run endpoint time s =
        ((d.dispatch a c).run endpoint time s).andThen fun c => (d.dispatchAll false rest c).run endpoint := by
      rw [← Program.run_bind]
      rfl
    rw [hrun]
    cases hres : ((d.dispatch a c).run endpoint time s).result with
    | error f =>
      rw [Run.andThen_error hres, steps_cons_error hres]
      simp [runStep, hres]
    | ok c' =>
      rw [Run.andThen_ok hres, steps_cons_ok hres]
      cases rest with
      | nil => simp [dispatchAll, Program.run, steps, runStep, hres]
      | cons b rest =>
        -- a later step is a first step one pause later
        obtain ⟨hlog, hlast, hprefix, hall⟩ := ih c'
          (((d.dispatch a c).run endpoint time s).time + d.timing.sequenceDelay)
          ((d.dispatch a c).run endpoint time s).state
        refine ⟨?_, ?_, ?_, ?_⟩
        · rw [List.flatMap_cons, ← hlog]
          rfl
        · exact hlast
        · exact List.cons_prefix_cons.2 ⟨rfl, hprefix⟩
        · intro hok
          rw [List.map_cons, hall hok]

/-- A step begins after the pauses and the steps before it. -/
theorem time_of_step (actions : List Action) (c : Context) (time : Nat) (s : σ) (i : Nat) (step : Step σ)
    (h : (d.steps endpoint actions c time s)[i]? = some step) :
    step.time = time + i * d.timing.sequenceDelay +
      (((d.steps endpoint actions c time s).take i).map (d.duration endpoint)).sum := by
  induction actions generalizing c time s i with
  | nil => simp [steps] at h
  | cons a rest ih =>
    have hend := (Program.run_times endpoint (d.dispatch a c) time s).1
    cases i with
    | zero =>
      simp only [steps, List.getElem?_cons_zero, Option.some.injEq] at h
      simp [← h]
    | succ i =>
      cases hres : ((d.dispatch a c).run endpoint time s).result with
      | error f => simp [steps_cons_error hres] at h
      | ok c' =>
        rw [steps_cons_ok hres] at h ⊢
        have hstep := ih _ _ _ _ h
        simp only [List.take_succ_cons, List.map_cons, List.sum_cons, duration, runStep, Nat.succ_mul]
          at hstep ⊢
        omega

/-- **The time of a dispatch.** A dispatch that returns takes one pause for each gap between two steps of
the sequences in it and one wait for each call beyond the first of an `api` action, whether that
succeeded or used up its attempts. One that breaks off takes this for the moves before the leaf at
fault. A step of a sequence begins as many pauses after the sequence as there are steps before it, plus
the time that those took, and entries never go back in time. -/
theorem dispatch_accounts_for_time (a : Action) (c : Context) (time : Nat) (s : σ) :
    let run := (d.dispatch a c).run endpoint time s
    let delay := d.timing.sequenceDelay
    let backoff := d.timing.retryBackoff
    (match run.result with
      | .ok _ =>
        let apis := a.leaves.countP Action.isRequest
        apis ≤ run.calls ∧ run.time = time + delay * a.gaps + backoff * (run.calls - apis)
      | .error f => ∃ before leaf after, a.moves = before ++ .perform leaf :: after ∧
          d.perform leaf (d.left endpoint a.moves c s) = .fault f ∧ requests before ≤ run.calls ∧
          run.time = time + delay * pauses before + backoff * (run.calls - requests before)) ∧
    (∀ actions, a.type = "sequence" → a.actions = some actions →
      let steps := d.steps endpoint actions c time s
      run.log = steps.flatMap (fun step => (d.runStep endpoint step).log) ∧
      (∀ last ∈ steps.getLast?, (d.runStep endpoint last).time = run.time ∧
        (d.runStep endpoint last).state = run.state ∧ (d.runStep endpoint last).result = run.result) ∧
      steps.map Step.action <+: actions ∧
      ((∃ c', run.result = .ok c') → steps.map Step.action = actions) ∧
      ∀ i step, steps[i]? = some step →
        step.time = time + i * delay + ((steps.take i).map (d.duration endpoint)).sum) ∧
    run.log.Pairwise fun e e' => e.1 ≤ e'.1 := by
  intro run delay backoff
  refine ⟨?_, ?_, (Program.run_times endpoint _ time s).2.2⟩
  · have hrun : run = (d.follow a.moves c).run endpoint time s := by rw [← dispatch_eq_follow]
    rcases d.follow_left endpoint a.moves c time s with
      hok | ⟨before, leaf, after, f, hmoves, hbefore, hfault, herr⟩
    · have haccount := d.follow_account endpoint hok
      rw [requests_moves, Action.pauses_moves] at haccount
      rw [hrun, hok]
      exact haccount
    · have haccount := d.follow_account endpoint (congrArg Run.result hbefore)
      rw [hbefore] at haccount
      rw [hrun, herr]
      exact ⟨before, leaf, after, hmoves, hfault, haccount⟩
  · intro actions htype hactions
    have hrun : run = (d.dispatchAll true actions c).run endpoint time s := by
      obtain ⟨type, screen, params, name, resultKey, key, value, event, payload, _, binding⟩ := a
      subst htype hactions
      simp only [run, dispatch, if_true, dispatchSteps]
    obtain ⟨hlog, hlast, hprefix, hall⟩ := d.run_dispatchAll endpoint actions c time s
    rw [hrun]
    exact ⟨hlog, hlast, hprefix, hall, d.time_of_step endpoint actions c time s⟩

/-- Two gaps in nested sequences and a second call: three times two seconds. The call is begun after the
gap before it and the one in the sequence before it. -/
theorem dispatch_accounts_for_time_nested :
    let pair : Action := { type := "sequence", actions := some [{ type := "dismiss" }, { type := "dismiss" }] }
    let load : Action := { type := "api", endpoint := some "/e" }
    let a : Action := { type := "sequence", actions := some [pair, load] }
    let fixtures : Fixtures := { responses := [("/e", .int 1)], failures := [("/e", 1)] }
    let run := (dispatch {} a { own := [] }).run Fixtures.call 0 fixtures
    let steps := steps {} Fixtures.call [pair, load] { own := [] } 0 fixtures
    a.type = "sequence" ∧ a.gaps = 2 ∧ run.calls = 2 ∧ run.time = 2000 * 2 + 2000 * (2 - 1) ∧
      ∃ step, steps[1]? = some step ∧ step.time = 1 * 2000 + 2000 := by
  intro pair load a fixtures run steps
  obtain ⟨htime, hsteps, -⟩ := dispatch_accounts_for_time {} Fixtures.call a { own := [] } 0 fixtures
  have hresult : run.result = .ok { own := [] } := rfl
  have hcalls : run.calls = 2 := rfl
  simp only [run] at hresult hcalls
  rw [hresult] at htime
  obtain ⟨-, -, -, -, hstart⟩ := hsteps [pair, load] rfl rfl
  refine ⟨rfl, rfl, hcalls, htime.2.trans ?_, _, rfl, (hstart 1 _ rfl).trans rfl⟩
  rw [hcalls]
  decide

/-- A leaf at fault ends the run before the pause that follows it, so the account for the whole action
fails. -/
theorem dispatch_late_date_skips_pause :
    let late : Action := { type := "setState", key := some "k", value := some (.string "$.t | date:'x'") }
    let next : Action := { type := "setState", key := some "m", value := some (.int 1) }
    let a : Action := { type := "sequence", actions := some [late, next] }
    let c : Context := { own := [("t", .string "9999-12-31T23:59:59-01:00")] }
    let d : Dispatcher := {}
    let run := (d.dispatch a c).run Fixtures.call 0 {}
    let apis := a.leaves.countP Action.isRequest
    run.time ≠ d.timing.sequenceDelay * a.gaps + d.timing.retryBackoff * (run.calls - apis) := by
  intro late next a c d run apis
  have htime : run.time = 0 := rfl
  have hgaps : a.gaps = 1 := rfl
  have hdelay : d.timing.sequenceDelay = 2000 := rfl
  rw [htime, hgaps, hdelay]
  omega

end Dispatcher

end ViewEngine
