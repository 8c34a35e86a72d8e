import ViewEngine.Proofs.Dispatch.Fixtures
import ViewEngine.Proofs.Dispatch.Writes

/-!
# Sessions

Actions dispatched one after the other on one context and one endpoint. Fixtures count the calls of an
endpoint over the whole session, so where the attempts of one dispatch run out shifts where the next one
begins: of an endpoint that fails `f` times, `f / m` dispatches with `m` attempts each find nothing but
failures, the next one uses up what is left, and from then on one call is enough (`session_retries`).
-/

namespace ViewEngine

variable {σ : Type}

/-- What a dispatch finds: a context, a time and a state of the endpoint. -/
structure Moment (σ : Type) where
  context : Context
  time : Nat
  state : σ

namespace Dispatcher

variable (d : Dispatcher) (endpoint : Endpoint σ)

/-- What a dispatch leaves, also if it breaks off. -/
def after (step : Step σ) : Moment σ where
  context := d.left endpoint step.action.moves step.context step.state
  time := (d.runStep endpoint step).time
  state := (d.runStep endpoint step).state

/-- The dispatches of a session, each on what the one before it left. -/
def session : List Action → Moment σ → List (Step σ)
  | [], _ => []
  | a :: rest, m =>
    let step : Step σ := ⟨a, m.context, m.time, m.state⟩
    step :: session rest (d.after endpoint step)

/-- What a session leaves. -/
def sessionEnd : List Action → Moment σ → Moment σ
  | [], m => m
  | a :: rest, m => sessionEnd rest (d.after endpoint ⟨a, m.context, m.time, m.state⟩)

/-- What is seen of a session. -/
def sessionLog (actions : List Action) (m : Moment σ) : List (Nat × LogEntry) :=
  (d.session endpoint actions m).flatMap fun step => (d.runStep endpoint step).log

end Dispatcher

theorem Fixtures.session_served (d : Dispatcher) (actions : List Action) (m : Moment Fixtures) :
    m.state.Served (d.sessionLog call actions m) (d.sessionEnd call actions m).state := by
  induction actions generalizing m with
  | nil => exact .nil m.state
  | cons a rest ih =>
    rw [Dispatcher.sessionLog, Dispatcher.session, List.flatMap_cons]
    exact (run_served (d.dispatch a m.context) m.time m.state).append
      (ih (d.after call ⟨a, m.context, m.time, m.state⟩))

/-! ## A closed form -/

/-- The calls of an endpoint that fails `f` times, after `j` dispatches with `m` attempts each. -/
def callsAfter (f m j : Nat) : Nat := if j ≤ f / m then j * m else f + j - f / m

theorem callsAfter_zero (f m : Nat) : callsAfter f m 0 = 0 := by
  simp [callsAfter]

/-- The failures that are left are fewer than the attempts from the dispatch on that succeeds. -/
theorem sub_callsAfter_lt_iff {m : Nat} (hm : 0 < m) (f j : Nat) :
    f - callsAfter f m j < m ↔ f / m ≤ j := by
  have hdiv := Nat.div_add_mod f m
  have hmod := Nat.mod_lt f hm
  rw [callsAfter]
  split
  · rename_i hle
    have hmul : m * j ≤ m * (f / m) := Nat.mul_le_mul_left m hle
    rw [Nat.mul_comm j m]
    constructor
    · intro hlt
      refine Nat.le_of_not_lt fun hlt' => ?_
      have := Nat.mul_le_mul_left m (Nat.succ_le_of_lt hlt')
      rw [Nat.mul_succ] at this
      omega
    · intro hge
      rw [Nat.le_antisymm hge hle] at hdiv
      omega
  · omega

/-- One more dispatch calls until the failures that are left or the attempts are used up. -/
theorem callsAfter_succ {m : Nat} (hm : 0 < m) (f j : Nat) :
    callsAfter f m (j + 1) = callsAfter f m j + min (f - callsAfter f m j + 1) m := by
  have hlast := sub_callsAfter_lt_iff hm f j
  have hdiv := Nat.div_add_mod f m
  have hmod := Nat.mod_lt f hm
  rcases Nat.lt_trichotomy j (f / m) with hlt | heq | hgt
  · rw [Nat.min_eq_right (by omega), callsAfter, callsAfter, if_pos (by omega), if_pos hlt.le, Nat.succ_mul]
  · rw [Nat.min_eq_left (by omega), callsAfter, callsAfter, if_neg (by omega), if_pos heq.le, heq,
      Nat.mul_comm (f / m) m]
    omega
  · rw [Nat.min_eq_left (by omega), callsAfter, callsAfter, if_neg (by omega), if_neg (by omega)]
    omega

/-! ## The calls of one dispatch -/

theorem firstSuccess_of_threshold {answers : Nat → Except EndpointError Json} {k : Nat}
    (h : ∀ n, (∃ j, answers n = .ok j) ↔ k ≤ n) : firstSuccess answers = (k + 1 : Nat) := by
  refine le_antisymm ?_ (le_iInf₂ fun n hn => ?_)
  · exact (iInf₂_le k ((h k).2 le_rfl)).trans (by push_cast; exact le_rfl)
  · exact_mod_cast Nat.succ_le_succ ((h n).1 hn)

theorem callsMade_of_threshold {answers : Nat → Except EndpointError Json} {k : Nat}
    (h : ∀ n, (∃ j, answers n = .ok j) ↔ k ≤ n) (attempts : Nat) :
    callsMade answers attempts = min (k + 1) attempts := by
  have hcast := cast_callsMade answers attempts
  rw [firstSuccess_of_threshold h, ← Nat.mono_cast.map_min] at hcast
  exact_mod_cast hcast

namespace Action

/-- The action calls an endpoint and stores the answer under a key. -/
def fetches (name key : String) (a : Action) : Bool :=
  a.type = "api" && a.endpoint = some name && a.resultKey = some key

theorem fetches_iff {name key : String} {a : Action} : a.fetches name key = true ↔
    a.type = "api" ∧ a.endpoint = some name ∧ a.resultKey = some key := by
  simp [fetches, and_assoc]

theorem moves_of_type {a : Action} (h : a.type ≠ "sequence") : a.moves = [.perform a] := by
  obtain ⟨type, _, _, _, _, _, _, _, _, _, _⟩ := a
  exact if_neg h

end Action

namespace Dispatcher

variable (d : Dispatcher) (endpoint : Endpoint σ)

theorem dispatch_of_type {a : Action} (h : a.type ≠ "sequence") (c : Context) :
    d.dispatch a c = d.perform a c := by
  rw [dispatch_eq_follow, Action.moves_of_type h]
  exact Program.bind_done _

theorem after_of_ok {step : Step σ} {c : Context} (h : (d.runStep endpoint step).result = .ok c) :
    (d.after endpoint step).context = c := by
  rw [runStep, dispatch_eq_follow] at h
  rcases d.follow_left endpoint step.action.moves step.context step.time step.state with
    hok | ⟨_, _, _, f, -, -, -, herr⟩
  · exact Except.ok.inj (hok.symm.trans h)
  · cases herr.symm.trans h

/-- A leaf that breaks off leaves everything as it was. -/
theorem after_of_error {step : Step σ} {f : Fault} (htype : step.action.type ≠ "sequence")
    (h : (d.runStep endpoint step).result = .error f) :
    d.after endpoint step = ⟨step.context, step.time, step.state⟩ := by
  have hfault : d.perform step.action step.context = .fault f := by
    rw [runStep, d.dispatch_of_type htype] at h
    exact (d.performs_perform step.action step.context).eq_fault endpoint h
  have hrun : d.runStep endpoint step = ⟨[], step.time, step.state, .error f⟩ := by
    rw [runStep, d.dispatch_of_type htype, hfault]
    rfl
  rw [after, hrun, Action.moves_of_type htype, d.left_perform_fault endpoint hfault]

/-! ## From one dispatch to the next -/

/-- How things stand after `j` dispatches have fetched from an endpoint that fails `f` times. -/
structure Stands (name key : String) (f j : Nat) (c : Context) (s : Fixtures) : Prop where
  response : (s.responses.get? name).isSome
  failures : s.failureCount name = f
  calls : s.callCount name = callsAfter f d.attempts j
  bound : (c.get? key).isSome ↔ f / d.attempts < j

/-- The step neither calls the endpoint nor writes the key. -/
def Spares (name key : String) (step : Step Fixtures) : Prop :=
  failedCalls name (d.runStep Fixtures.call step).log = [] ∧
    ∀ w ∈ d.writes Fixtures.call step.action.moves step.context step.state, w.1 ≠ key

variable {d} {name key : String} {f j : Nat} {step : Step Fixtures}

theorem Stands.spared (h : d.Stands name key f j step.context step.state) (hspares : d.Spares name key step) :
    d.Stands name key f j (d.after Fixtures.call step).context (d.after Fixtures.call step).state := by
  obtain ⟨hcalls, hwrites⟩ := hspares
  have hserved := Fixtures.run_served (d.dispatch step.action step.context) step.time step.state
  refine ⟨?_, ?_, ?_, ?_⟩
  · exact (congrArg (fun t => (Table.get? t name).isSome) hserved.responses).trans h.response
  · exact (congrArg (fun t => (Table.get? t name).getD 0) hserved.failures).trans h.failures
  · refine (hserved.callCount name).trans ?_
    rw [runStep] at hcalls
    rw [hcalls, List.length_nil, Nat.add_zero, h.calls]
  · have hget : (d.after Fixtures.call step).context.get? key = step.context.get? key := by
      rw [after, left_eq_setAll, Context.get?_setAll, lastWrite?_eq_none hwrites, Option.none_or]
    rw [hget, h.bound]

/-- The endpoint answers once the failures that are left are used up. -/
theorem Stands.answer_ok_iff {c : Context} {s : Fixtures} (h : d.Stands name key f j c s)
    (params : Table String) (n : Nat) :
    (∃ answer, Endpoint.answer Fixtures.call name params s n = .ok answer) ↔
      f - callsAfter f d.attempts j ≤ n := by
  obtain ⟨answer, hanswer⟩ := Option.isSome_iff_exists.1 h.response
  rw [s.answer_ok_iff, Fixtures.Fails, h.failures, h.calls, hanswer]
  simp only [reduceCtorEq, or_false]
  omega

/-- A dispatch whose parameters resolve calls until the failures that are left or the attempts are used
up; of the two it is the failures from the dispatch `f / m + 1` on. -/
theorem Stands.fetched (h : d.Stands name key f j step.context step.state)
    (hfetch : step.action.fetches name key = true) {params : Table String}
    (hparams : step.context.resolveTexts (step.action.params.getD []) = .ok params) :
    let calls := min (f - callsAfter f d.attempts j + 1) d.attempts
    (∃ c, (d.runStep Fixtures.call step).result = .ok c) ∧
      d.duration Fixtures.call step = (calls - 1) * d.timing.retryBackoff ∧
      d.Stands name key f (j + 1) (d.after Fixtures.call step).context (d.after Fixtures.call step).state := by
  intro calls
  obtain ⟨htype, hname, hkey⟩ := Action.fetches_iff.1 hfetch
  obtain ⟨left, hleft⟩ := d.exists_attempts_eq_succ
  have hpos : 0 < d.attempts := by omega
  have hthreshold := h.answer_ok_iff params
  have hcalls : callsMade (Endpoint.answer Fixtures.call name params step.state) (left + 1) = calls := by
    rw [← hleft, callsMade_of_threshold hthreshold]
  have hrun := d.run_dispatch_api Fixtures.call htype hname step.context step.time step.state
  simp only [hparams, hleft, run_request, hcalls] at hrun
  have hlast := last_answer_ok_iff (Endpoint.answer Fixtures.call name params step.state) left
  rw [hcalls, firstSuccess_of_threshold hthreshold, ← hleft, Nat.cast_le, Nat.succ_le_iff,
    sub_callsAfter_lt_iff hpos] at hlast
  replace hrun : d.runStep Fixtures.call step = _ := hrun
  have hcontext := d.after_of_ok Fixtures.call (congrArg Run.result hrun)
  obtain ⟨hresponses, hfailures, hcount⟩ := step.state.stateAfter_call name params calls
  have hstate : (d.after Fixtures.call step).state =
      Endpoint.stateAfter Fixtures.call name params step.state calls := congrArg Run.state hrun
  refine ⟨⟨_, congrArg Run.result hrun⟩, ?_, ?_, ?_, ?_, ?_⟩
  · rw [duration, hrun]
    exact Nat.add_sub_cancel_left _ _
  · rw [hstate, hresponses]
    exact h.response
  · rw [hstate, Fixtures.failureCount, hfailures]
    exact h.failures
  · rw [hstate, hcount, h.calls, callsAfter_succ hpos]
  · rw [hcontext, hkey, Nat.lt_succ_iff, ← hlast]
    cases hanswer : Endpoint.answer Fixtures.call name params step.state (calls - 1) with
    | ok answer =>
      refine iff_of_true ?_ ⟨answer, rfl⟩
      rw [contextAfter_ok _ _ rfl, Context.get?_set, if_pos rfl]
      rfl
    | error e =>
      have hearly : ¬ f / d.attempts ≤ j := fun hle => by cases hanswer.symm.trans (hlast.2 hle).choose_spec
      refine iff_of_false (fun hsome => hearly (h.bound.1 hsome).le) ?_
      rintro ⟨_, hok⟩
      cases hok

/-- Parameters at fault end a dispatch before anything is called or written. -/
theorem fetch_at_fault (hfetch : step.action.fetches name key = true) {fault : Fault}
    (hparams : step.context.resolveTexts (step.action.params.getD []) = .error fault) :
    (d.runStep Fixtures.call step).result = .error fault ∧ d.duration Fixtures.call step = 0 ∧
      d.after Fixtures.call step = ⟨step.context, step.time, step.state⟩ := by
  obtain ⟨htype, hname, -⟩ := Action.fetches_iff.1 hfetch
  have hrun := d.run_dispatch_api Fixtures.call htype hname step.context step.time step.state
  rw [hparams] at hrun
  have hresult : (d.runStep Fixtures.call step).result = .error fault := congrArg Run.result hrun
  refine ⟨hresult, ?_, d.after_of_error Fixtures.call (by rw [htype]; decide) hresult⟩
  rw [duration, runStep, hrun, Nat.sub_self]

/-- What a session adds to how things stand: the dispatches that fetch and come to an end. -/
theorem session_stands {actions : List Action} {m : Moment Fixtures}
    (h : d.Stands name key f j m.context m.state)
    (hsteps : ∀ step ∈ d.session Fixtures.call actions m,
      step.action.fetches name key = true ∨ d.Spares name key step) :
    let fetched := (d.session Fixtures.call actions m).filter (·.action.fetches name key)
    let n := fetched.countP fun step => (d.runStep Fixtures.call step).result.isOk
    let last := d.sessionEnd Fixtures.call actions m
    d.Stands name key f (j + n) last.context last.state ∧
      ∃ waits, callsAfter f d.attempts (j + n) = callsAfter f d.attempts j + n + waits ∧
        (fetched.map (d.duration Fixtures.call)).sum = waits * d.timing.retryBackoff := by
  -- The induction is on the actions, from any number `j` of dispatches before them.
  induction actions generalizing m j with
  | nil => exact ⟨h, 0, rfl, by simp [session]⟩
  | cons a rest ih =>
    rw [session] at hsteps ⊢
    obtain ⟨hfirst, hrest⟩ := List.forall_mem_cons.1 hsteps
    set step : Step Fixtures := ⟨a, m.context, m.time, m.state⟩ with hstep
    cases hfetch : a.fetches name key with
    | false =>
      have hspares : d.Spares name key step := hfirst.resolve_left (by simp [hstep, hfetch])
      rw [List.filter_cons_of_neg (by simp [hstep, hfetch])]
      exact ih (h.spared hspares) hrest
    | true =>
      rw [List.filter_cons_of_pos (by simp [hstep, hfetch])]
      simp only [List.countP_cons, List.map_cons, List.sum_cons]
      cases hparams : step.context.resolveTexts (step.action.params.getD []) with
      | error fault =>
        obtain ⟨hresult, hduration, hafter⟩ := fetch_at_fault hfetch hparams
        have hsame : d.Stands name key f j (d.after Fixtures.call step).context
            (d.after Fixtures.call step).state := by
          rw [hafter]
          exact h
        have hbroken : (d.runStep Fixtures.call step).result.isOk = false := by rw [hresult]; rfl
        simp only [hbroken, hduration, Bool.false_eq_true, if_false, Nat.add_zero, Nat.zero_add]
        exact ih hsame hrest
      | ok params =>
        have hbefore : d.Stands name key f j step.context step.state := h
        obtain ⟨⟨c, hresult⟩, hduration, hafter⟩ := hbefore.fetched hfetch hparams
        obtain ⟨hlast, waits, hcalls, hsum⟩ := ih hafter hrest
        have hended : (d.runStep Fixtures.call step).result.isOk = true := by rw [hresult]; rfl
        have hattempts : 1 ≤ d.attempts := Nat.le_max_left _ _
        have hfirst := callsAfter_succ hattempts f j
        simp only [hended, hduration, hsum, if_true]
        rw [Nat.add_right_comm j, Nat.add_assoc j] at hlast hcalls
        refine ⟨hlast, _, hcalls.trans ?_, (Nat.add_mul _ _ _).symm⟩
        omega

theorem fetch_isOk_iff (hfetch : step.action.fetches name key = true) :
    (d.runStep Fixtures.call step).result.isOk = true ↔
      ∃ params, step.context.resolveTexts (step.action.params.getD []) = .ok params := by
  obtain ⟨htype, hname, -⟩ := Action.fetches_iff.1 hfetch
  have hrun := d.run_dispatch_api Fixtures.call htype hname step.context step.time step.state
  obtain ⟨left, hleft⟩ := d.exists_attempts_eq_succ
  rw [runStep, hrun]
  cases step.context.resolveTexts (step.action.params.getD []) with
  | error fault => simp [Except.isOk, Except.toBool]
  | ok params => simp [hleft, run_request, Except.isOk, Except.toBool]

/-- **Retries across dispatches.** In a session on fresh fixtures, an endpoint with an answer fails its
first `f` calls, and `j` dispatches come to an end that fetch from it into a key that nothing else writes;
nothing else calls the endpoint, and a dispatch tries a call `m` times. The key is bound in the end exactly
if `j` is more than `f / m`, the calls are `j * m` up to there and `f + j - f / m` beyond, and all calls but
one for each dispatch were waited for. Only a parameter at fault keeps such a dispatch from its end.

Whatever the actions, the `n`-th call of an endpoint in the session fails exactly if `n` is at most its
number of failures or it has no answer, and the fixtures have counted the calls that were made, each
endpoint's and all. -/
theorem session_retries (d : Dispatcher) (responses : Table Json) (failures : Table Nat) (c : Context)
    (time : Nat) (actions : List Action) :
    let start : Moment Fixtures := ⟨c, time, { responses, failures }⟩
    let session := d.session Fixtures.call actions start
    let log := d.sessionLog Fixtures.call actions start
    let last := d.sessionEnd Fixtures.call actions start
    (∀ name key, (responses.get? name).isSome → c.get? key = none →
      (∀ step ∈ session, step.action.fetches name key = true ∨ d.Spares name key step) →
      let f := (failures.get? name).getD 0
      let m := max 1 d.timing.maxAttempts
      let fetched := session.filter (·.action.fetches name key)
      let j := fetched.countP fun step => (d.runStep Fixtures.call step).result.isOk
      ((last.context.get? key).isSome ↔ f / m < j) ∧
      last.state.callCount name = (if j ≤ f / m then j * m else f + j - f / m) ∧
      (fetched.map (d.duration Fixtures.call)).sum =
        (last.state.callCount name - j) * d.timing.retryBackoff ∧
      ∀ step ∈ fetched, ((d.runStep Fixtures.call step).result.isOk = true ↔
        ∃ params, step.context.resolveTexts (step.action.params.getD []) = .ok params)) ∧
    (∀ name n failed, (failedCalls name log)[n]? = some failed →
      (failed = true ↔ n + 1 ≤ (failures.get? name).getD 0 ∨ responses.get? name = none)) ∧
    (∀ name, last.state.callCount name = (failedCalls name log).length) ∧
    last.state.totalCalls = log.countP (·.2.isCall) := by
  intro start session log last
  have hserved := Fixtures.session_served d actions start
  refine ⟨fun name key hresponse hkey hsteps => ?_, fun name n failed hn => ?_, fun name => ?_, ?_⟩
  · intro f m fetched j
    have hstart : d.Stands name key f 0 start.context start.state :=
      ⟨hresponse, rfl, (callsAfter_zero f d.attempts).symm, by simp [start, hkey]⟩
    obtain ⟨hlast, waits, hcalls, hsum⟩ := session_stands hstart hsteps
    rw [Nat.zero_add] at hlast hcalls
    rw [callsAfter_zero, Nat.zero_add, ← hlast.calls] at hcalls
    refine ⟨hlast.bound, hlast.calls, hsum.trans ?_, fun step hstep => ?_⟩
    · rw [hcalls, Nat.add_sub_cancel_left]
    · exact fetch_isOk_iff (List.mem_filter.1 hstep).2
  · refine (hserved.fails name n failed hn).trans ?_
    have hzero : start.state.callCount name = 0 := rfl
    rw [hzero, Nat.zero_add]
    rfl
  · exact (hserved.callCount name).trans (Nat.zero_add _)
  · exact (hserved.totalCalls Table.sorted_nil).trans (Nat.zero_add _)

/-- One failure takes up the only attempt of the first dispatch, and the second one succeeds. -/
theorem session_retries_second_succeeds :
    let fetch : Action := { type := "api", endpoint := some "/e", resultKey := some "r" }
    let other : Action := { type := "setState", key := some "k", value := some (.int 1) }
    let d : Dispatcher := { timing := { maxAttempts := 1 } }
    let start : Moment Fixtures :=
      ⟨{ own := [] }, 0, { responses := [("/e", .int 1)], failures := [("/e", 1)] }⟩
    let last := d.sessionEnd Fixtures.call [fetch, other, fetch] start
    (last.context.get? "r").isSome ∧ last.state.callCount "/e" = 2 ∧ last.state.totalCalls = 2 := by
  intro fetch other d start last
  obtain ⟨hretries, -, -, htotal⟩ := d.session_retries [("/e", .int 1)] [("/e", 1)] { own := [] } 0
    [fetch, other, fetch]
  have hwrites : ∀ w ∈ [("k", Value.int 1)], w.1 ≠ "r" := by simp
  obtain ⟨hbound, hcalls, -⟩ := hretries "/e" "r" rfl rfl (List.forall_mem_cons.2 ⟨.inl rfl,
    List.forall_mem_cons.2 ⟨.inr ⟨rfl, hwrites⟩, List.forall_mem_singleton.2 (.inl rfl)⟩⟩)
  exact ⟨hbound.2 (by decide), hcalls.trans (by decide), htotal.trans (by decide)⟩

/-- A dispatch whose parameter is at fault makes none of its calls: after one dispatch with one attempt the
endpoint has not been called. -/
theorem session_late_date_calls_nothing :
    let fetch : Action := { type := "api", endpoint := some "/e", resultKey := some "r",
                            params := some [("d", .string "$.t | date:'x'")] }
    let d : Dispatcher := { timing := { maxAttempts := 1 } }
    let start : Moment Fixtures := ⟨{ own := [("t", .string "9999-12-31T23:59:59-01:00")] }, 0,
      { responses := [("/e", .int 1)], failures := [("/e", 1)] }⟩
    let j := (d.session Fixtures.call [fetch] start).length
    j = 1 ∧ (d.sessionEnd Fixtures.call [fetch] start).state.callCount "/e" = 0 ∧
      (if j ≤ 1 / 1 then j * 1 else 1 + j - 1 / 1) = 1 := by
  refine ⟨?_, ?_, ?_⟩ <;> rfl

end Dispatcher

end ViewEngine
