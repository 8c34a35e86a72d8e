import Mathlib.Data.ENat.Lattice
import ViewEngine.Dispatch.Basic
import ViewEngine.Endpoint.Request
import ViewEngine.Proofs.Table.Order

/-!
# Retries

What an `api` action does on an endpoint of any behaviour. The endpoint is seen through its answers to
the same call made again and again (`Endpoint.answer`); the calls stop at the first success or when
the attempts are used up, with one pause between any two of them and none after the last.
-/

namespace ViewEngine

variable {σ : Type}

namespace Endpoint

variable (endpoint : Endpoint σ) (name : String) (params : Table String)

/-- The state after a call has been made `n` times. -/
def stateAfter : σ → Nat → σ
  | s, 0 => s
  | s, n + 1 => stateAfter (endpoint s name params).2 n

/-- The answer to a call that has been made `n` times before. -/
def answer (s : σ) (n : Nat) : Except EndpointError Json :=
  (endpoint (endpoint.stateAfter name params s n) name params).1

theorem answer_succ (s : σ) (n : Nat) :
    endpoint.answer name params s (n + 1) = endpoint.answer name params (endpoint s name params).2 n :=
  rfl

end Endpoint

/-- The position of the first success, counted from one; infinite if there is none. -/
noncomputable def firstSuccess (answers : Nat → Except EndpointError Json) : ℕ∞ :=
  ⨅ (n : ℕ) (_ : ∃ j, answers n = .ok j), (n + 1 : ℕ∞)

theorem firstSuccess_of_ok {answers : Nat → Except EndpointError Json} {j : Json}
    (h : answers 0 = .ok j) : firstSuccess answers = 1 := by
  refine le_antisymm ?_ ?_
  · exact (iInf₂_le 0 ⟨j, h⟩).trans (by simp)
  · exact le_iInf₂ fun n _ => le_add_self

theorem firstSuccess_of_error {answers : Nat → Except EndpointError Json} {e : EndpointError}
    (h : answers 0 = .error e) :
    firstSuccess answers = firstSuccess (fun n => answers (n + 1)) + 1 := by
  have hfirst : ¬ ∃ j, answers 0 = .ok j := by simp [h]
  simp only [firstSuccess, ENat.iInf_add]
  refine le_antisymm ?_ ?_
  · refine le_iInf fun n => le_iInf fun hn => ?_
    exact (iInf₂_le (n + 1) hn).trans (by push_cast; rfl)
  · refine le_iInf fun n => le_iInf fun hn => ?_
    cases n with
    | zero => exact absurd hn hfirst
    | succ n => exact (iInf_le_of_le n (iInf_le_of_le hn (by push_cast; rfl)))

theorem one_le_firstSuccess (answers : Nat → Except EndpointError Json) : 1 ≤ firstSuccess answers :=
  le_iInf₂ fun _ _ => le_add_self

/-- How many calls are made when at most `attempts` may be. -/
noncomputable def callsMade (answers : Nat → Except EndpointError Json) (attempts : Nat) : Nat :=
  (min (firstSuccess answers) attempts).toNat

theorem cast_callsMade (answers : Nat → Except EndpointError Json) (attempts : Nat) :
    (callsMade answers attempts : ℕ∞) = min (firstSuccess answers) attempts :=
  ENat.natCast_toNat (ne_top_of_le_ne_top (ENat.natCast_ne_top attempts) (min_le_right _ _))

theorem callsMade_of_ok {answers : Nat → Except EndpointError Json} {j : Json}
    (h : answers 0 = .ok j) (left : Nat) : callsMade answers (left + 1) = 1 := by
  have hle : (1 : ℕ∞) ≤ (left + 1 : Nat) := by exact_mod_cast Nat.le_add_left 1 left
  rw [callsMade, firstSuccess_of_ok h, min_eq_left hle]
  rfl

theorem callsMade_one (answers : Nat → Except EndpointError Json) : callsMade answers 1 = 1 := by
  rw [callsMade, min_eq_right (by exact_mod_cast one_le_firstSuccess answers)]
  rfl

theorem callsMade_of_error {answers : Nat → Except EndpointError Json} {e : EndpointError}
    (h : answers 0 = .error e) (left : Nat) :
    callsMade answers (left + 1) = callsMade (fun n => answers (n + 1)) left + 1 := by
  have hcast : (callsMade answers (left + 1) : ℕ∞) =
      (callsMade (fun n => answers (n + 1)) left + 1 : Nat) := by
    push_cast
    rw [cast_callsMade, cast_callsMade, firstSuccess_of_error h, Nat.cast_succ, min_add_add_right]
  exact_mod_cast hcast

theorem callsMade_pos (answers : Nat → Except EndpointError Json) (left : Nat) :
    1 ≤ callsMade answers (left + 1) := by
  have hcast : (1 : ℕ∞) ≤ callsMade answers (left + 1) := by
    rw [cast_callsMade]
    exact le_min (one_le_firstSuccess answers) (by exact_mod_cast Nat.le_add_left 1 left)
  exact_mod_cast hcast

/-- The last call that is made succeeds exactly if some call within the attempts would. -/
theorem last_answer_ok_iff (answers : Nat → Except EndpointError Json) (left : Nat) :
    (∃ j, answers (callsMade answers (left + 1) - 1) = .ok j) ↔
      firstSuccess answers ≤ (left + 1 : Nat) := by
  induction left generalizing answers with
  | zero =>
    rw [callsMade_one]
    cases h : answers 0 with
    | ok j => simp [firstSuccess_of_ok h]
    | error e =>
      have hlate : (1 : ℕ∞) < firstSuccess (fun n => answers (n + 1)) + 1 :=
        lt_of_lt_of_le (b := 1 + 1) (by exact_mod_cast Nat.one_lt_two)
          (add_le_add_left (one_le_firstSuccess _) 1)
      simp [firstSuccess_of_error h, hlate]
  | succ left ih =>
    cases h : answers 0 with
    | ok j => simp [callsMade_of_ok h, firstSuccess_of_ok h, h]
    | error e =>
      have hpos := callsMade_pos (fun n => answers (n + 1)) left
      have hshift : callsMade answers (left + 1 + 1) - 1 =
          callsMade (fun n => answers (n + 1)) (left + 1) - 1 + 1 := by
        rw [callsMade_of_error h]
        omega
      rw [hshift, firstSuccess_of_error h, Nat.cast_succ, ENat.add_le_add_iff_right ENat.one_ne_top]
      exact ih fun n => answers (n + 1)

namespace Dispatcher

variable (d : Dispatcher) (endpoint : Endpoint σ)

/-- The entries of the first `calls` calls, one pause apart. -/
def callEntries (name : String) (params : Table String) (time : Nat) (s : σ) (calls : Nat) :
    List (Nat × LogEntry) :=
  (List.range calls).map fun i => (time + i * d.timing.retryBackoff,
    .ofCall name params (endpoint.answer name params s i))

theorem callEntries_succ (name : String) (params : Table String) (time : Nat) (s : σ) (calls : Nat) :
    d.callEntries endpoint name params time s (calls + 1) =
      (time, .ofCall name params (endpoint.answer name params s 0)) ::
        d.callEntries endpoint name params (time + d.timing.retryBackoff) (endpoint s name params).2
          calls := by
  simp only [callEntries, List.range_succ_eq_map, List.map_cons, List.map_map, Nat.zero_mul, Nat.add_zero]
  refine congrArg _ (List.map_congr_left fun i _ => ?_)
  simp only [Function.comp_apply, Nat.succ_eq_add_one, Endpoint.answer_succ, Nat.add_mul]
  congr 1
  omega

/-- The context after calls of which the last one gave `answer`. -/
def contextAfter (c : Context) (resultKey : Option String) (answer : Except EndpointError Json) : Context :=
  match answer with
  | .ok j => c.store resultKey j
  | .error _ => c

section
variable (name : String) (params : Table String) (resultKey : Option String) (c : Context)

theorem contextAfter_ok {key : String} (h : resultKey = some key) (j : Json) :
    contextAfter c resultKey (.ok j) = c.set key (normalizeResult (.ofJson j)) := by
  rw [h]
  rfl

theorem contextAfter_error {answer : Except EndpointError Json} (h : ¬ ∃ j, answer = .ok j) :
    contextAfter c resultKey answer = c := by
  cases answer with
  | ok j => exact absurd ⟨j, rfl⟩ h
  | error e => rfl

theorem contextAfter_none (answer : Except EndpointError Json) : contextAfter c none answer = c := by
  cases answer <;> rfl

theorem run_request_of_ok {s : σ} {j : Json} (h : endpoint.answer name params s 0 = .ok j)
    (left time : Nat) : (d.request name params resultKey c (left + 1)).run endpoint time s =
      ⟨[(time, .ofCall name params (.ok j))], time, (endpoint s name params).2,
        .ok (c.store resultKey j)⟩ := by
  have hanswer : (endpoint s name params).1 = .ok j := h
  simp [request, Program.run, Run.cons, hanswer]

theorem run_request_of_error {s : σ} {e : EndpointError}
    (h : endpoint.answer name params s 0 = .error e) (left time : Nat) :
    (d.request name params resultKey c (left + 1)).run endpoint time s =
      Run.cons time (.ofCall name params (.error e))
        (if left = 0 then ⟨[], time, (endpoint s name params).2, .ok c⟩
        else (d.request name params resultKey c left).run endpoint (time + d.timing.retryBackoff)
          (endpoint s name params).2) := by
  have hanswer : (endpoint s name params).1 = .error e := h
  simp only [request, Program.run, hanswer]
  split <;> rfl

/-- The calls of a request: up to the first success or the last attempt, one pause apart. -/
theorem run_request (left time : Nat) (s : σ) :
    let calls := callsMade (endpoint.answer name params s) (left + 1)
    (d.request name params resultKey c (left + 1)).run endpoint time s =
      ⟨d.callEntries endpoint name params time s calls, time + (calls - 1) * d.timing.retryBackoff,
        endpoint.stateAfter name params s calls,
        .ok (contextAfter c resultKey (endpoint.answer name params s (calls - 1)))⟩ := by
  intro calls
  induction left generalizing time s with
  | zero =>
    have hcalls : calls = 1 := callsMade_one _
    rw [hcalls]
    cases h : endpoint.answer name params s 0 with
    | ok j =>
      rw [run_request_of_ok d endpoint name params resultKey c h]
      simp [callEntries, contextAfter, Endpoint.stateAfter, h]
    | error e =>
      rw [run_request_of_error d endpoint name params resultKey c h]
      simp [Run.cons, callEntries, contextAfter, Endpoint.stateAfter, h]
  | succ left ih =>
    cases h : endpoint.answer name params s 0 with
    | ok j =>
      have hcalls : calls = 1 := callsMade_of_ok h (left + 1)
      rw [hcalls, run_request_of_ok d endpoint name params resultKey c h]
      simp [callEntries, contextAfter, Endpoint.stateAfter, h]
    | error e =>
      -- the rest of the request is a request of its own, on the endpoint after the first call
      obtain ⟨later, hlater⟩ : ∃ n, callsMade (endpoint.answer name params (endpoint s name params).2)
          (left + 1) = n + 1 := Nat.exists_eq_add_of_le' (callsMade_pos _ left)
      have hcalls : calls = later + 1 + 1 := (callsMade_of_error h (left + 1)).trans (by rw [← hlater]; rfl)
      have hrest := ih (time + d.timing.retryBackoff) (endpoint s name params).2
      simp only [hlater] at hrest
      rw [hcalls, run_request_of_error d endpoint name params resultKey c h, if_neg (by omega), hrest]
      simp only [Run.cons, Run.mk.injEq]
      refine ⟨?_, ?_, rfl, rfl⟩
      · rw [callEntries_succ d endpoint name params time s, h]
      · simp only [Nat.add_sub_cancel, Nat.add_mul]
        omega

end

/-- An `api` action with an endpoint is a request with its parameters, resolved once. -/
theorem run_dispatch_api {a : Action} {name : String} (htype : a.type = "api")
    (hname : a.endpoint = some name) (c : Context) (time : Nat) (s : σ) :
    (d.dispatch a c).run endpoint time s =
      match c.resolveTexts (a.params.getD []) with
      | .error f => ⟨[], time, s, .error f⟩
      | .ok params => (d.request name params a.resultKey c d.attempts).run endpoint time s := by
  have hperform : d.dispatch a c = d.perform a c := by
    obtain ⟨type, _, _, _, _, _, _, _, _, _, _⟩ := a
    subst htype
    simp [dispatch]
  rw [hperform]
  simp only [perform, htype, hname]
  cases c.resolveTexts (a.params.getD []) with
  | error f => rfl
  | ok params => rfl

/-- **The retry protocol.** Where the parameters of an `api` action resolve, the calls made are
`min n m`, for the position `n` of the first success and `m` attempts, at least one: all on the same
endpoint with the same parameters, one pause apart, and the run ends with the last of them. A success
among them binds the result key and nothing else; in all other cases the context stays as it was. Where
a parameter is at fault, no call is made. -/
theorem dispatch_api_retries (a : Action) (name : String) (htype : a.type = "api")
    (hname : a.endpoint = some name) (c : Context) (time : Nat) (s : σ) :
    let run := (d.dispatch a c).run endpoint time s
    match c.resolveTexts (a.params.getD []) with
    | .error f => run = ⟨[], time, s, .error f⟩
    | .ok params =>
      let answers := endpoint.answer name params s
      let n := firstSuccess answers
      let m := max 1 d.timing.maxAttempts
      ∃ calls : Nat, (calls : ℕ∞) = min n m ∧
        run.log = (List.range calls).map (fun i =>
          (time + i * d.timing.retryBackoff, LogEntry.ofCall name params (answers i))) ∧
        run.time = time + (calls - 1) * d.timing.retryBackoff ∧
        run.state = endpoint.stateAfter name params s calls ∧
        ∃ c' : Context, run.result = .ok c' ∧
          (∀ key, n ≤ m → a.resultKey = some key → ∃ j, answers (calls - 1) = .ok j ∧
            c' = c.set key (normalizeResult (.ofJson j)) ∧
            ∀ other, key ≠ other → c'.get? other = c.get? other) ∧
          (m < n ∨ a.resultKey = none → c' = c) := by
  intro run
  have hrun := d.run_dispatch_api endpoint htype hname c time s
  cases hparams : c.resolveTexts (a.params.getD []) with
  | error f => simpa only [hparams] using hrun
  | ok params =>
    obtain ⟨left, hleft⟩ : ∃ left, d.attempts = left + 1 :=
      Nat.exists_eq_add_of_le' (Nat.le_max_left _ _)
    simp only [hparams, hleft, run_request] at hrun
    have hlast := last_answer_ok_iff (endpoint.answer name params s) left
    have hm : max 1 d.timing.maxAttempts = left + 1 := hleft
    rw [hm]
    refine ⟨callsMade (endpoint.answer name params s) (left + 1), cast_callsMade _ _,
      congrArg Run.log hrun, congrArg Run.time hrun, congrArg Run.state hrun, _,
      congrArg Run.result hrun, ?_, ?_⟩
    · intro key hle hkey
      obtain ⟨j, hj⟩ := hlast.2 hle
      refine ⟨j, hj, ?_, ?_⟩
      · rw [hj]
        exact contextAfter_ok a.resultKey c hkey j
      · intro other hother
        rw [hj, contextAfter_ok a.resultKey c hkey j]
        exact Table.get?_insert_of_ne c.own _ hother
    · rintro (hlate | hkey)
      · exact contextAfter_error a.resultKey c fun h => not_lt_of_ge (hlast.1 h) hlate
      · rw [hkey]
        exact contextAfter_none c _

/-- Two requests come to nothing, each for a reason of its own, and the third is answered: there are three calls and
two pauses, though five calls might be made. -/
theorem dispatch_api_third_answers :
    let a : Action := { type := "api", endpoint := some "/e", resultKey := some "r",
                        params := some [("page", .int 2), ("q", .string "$.t")] }
    let c : Context := { own := [("r", .null), ("t", .string "news")] }
    let params : Table String := [("page", "2"), ("q", "news")]
    let send : Network Nat := fun requests _ =>
      (match requests with
        | 0 => .illegible "EOF"
        | 1 => .brokenOff "cancelled"
        | _ => .document (.object [("n", .int 1)]), requests + 1)
    let endpoint := web {} send
    let d : Dispatcher := { timing := { maxAttempts := 5, retryBackoff := 2000 } }
    let run := (d.dispatch a c).run endpoint 0 0
    a.type = "api" ∧ a.endpoint = some "/e" ∧ c.resolveTexts (a.params.getD []) = .ok params ∧
      firstSuccess (endpoint.answer "/e" params 0) = 3 ∧
      run.log = [(0, .call "/e" params (some (.decode "/e" "EOF"))),
        (2000, .call "/e" params (some (.join "cancelled"))), (4000, .call "/e" params none)] ∧
      run.time = 4000 ∧ run.state = 3 ∧
      run.result = .ok { own := [("r", .object [("n", .int 1)]), ("t", .string "news")] } := by
  intro a c params send endpoint d run
  have hretries := d.dispatch_api_retries endpoint a "/e" rfl rfl c 0 0
  have hparams : c.resolveTexts (a.params.getD []) = .ok params := rfl
  rw [hparams] at hretries
  obtain ⟨calls, hcalls, hlog, htime, hstate, -⟩ := hretries
  obtain rfl : calls = 3 := by
    have hlength := congrArg List.length hlog
    rw [List.length_map, List.length_range] at hlength
    exact hlength.symm
  have hfirst : firstSuccess (endpoint.answer "/e" params 0) = 3 := by
    rcases min_choice (firstSuccess (endpoint.answer "/e" params 0)) (max 1 d.timing.maxAttempts) with h | h
    · exact h.symm.trans hcalls.symm
    · cases Nat.cast_injective (hcalls.trans h)
  exact ⟨rfl, rfl, hparams, hfirst, hlog, htime, hstate, rfl⟩

/-- A parameter at fault ends the run before the first call. -/
theorem dispatch_api_late_date :
    let a : Action := { type := "api", endpoint := some "/e", resultKey := some "r",
                        params := some [("d", .string "$.t | date:'x'")] }
    let c : Context := { own := [("t", .string "9999-12-31T23:59:59-01:00")] }
    let d : Dispatcher := {}
    let run := (d.dispatch a c).run Fixtures.call 0 { responses := [("/e", .int 1)] }
    run.log.length = 0 ∧ run.result = .error .yearOutOfRange := by
  constructor <;> rfl

end Dispatcher

end ViewEngine
