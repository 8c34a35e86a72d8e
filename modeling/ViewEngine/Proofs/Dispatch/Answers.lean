import ViewEngine.Dispatch.Program

/-!
# Answers that do not change

An endpoint may answer a call by its name and parameters alone, whatever was called before
(`Endpoint.AnswersBy`). A program then has one result, which no call of another program can change
(`Program.resultBy`), and takes one number of turns for it (`Program.turnsBy`).
-/

namespace ViewEngine

variable {σ α : Type}

namespace Endpoint

/-- The state of an endpoint after calls. -/
def afterCalls (endpoint : Endpoint σ) (s : σ) (calls : List (String × Table String)) : σ :=
  calls.foldl (fun s call => (endpoint s call.1 call.2).2) s

/-- Whatever is called from the state on, the endpoint answers by the name and the parameters of a call. -/
def AnswersBy (endpoint : Endpoint σ) (s : σ)
    (answer : String → Table String → Except EndpointError Json) : Prop :=
  ∀ calls name params, (endpoint (endpoint.afterCalls s calls) name params).1 = answer name params

namespace AnswersBy

variable {endpoint : Endpoint σ} {s : σ} {answer : String → Table String → Except EndpointError Json}

theorem now (h : endpoint.AnswersBy s answer) (name : String) (params : Table String) :
    (endpoint s name params).1 = answer name params := h [] name params

theorem next (h : endpoint.AnswersBy s answer) (name : String) (params : Table String) :
    endpoint.AnswersBy (endpoint s name params).2 answer :=
  fun calls => h ((name, params) :: calls)

end AnswersBy

end Endpoint

namespace Fixtures

/-- The registered answer to a call. -/
def registered (f : Fixtures) (name : String) (_ : Table String) : Except EndpointError Json :=
  match f.responses.get? name with
  | some j => .ok j
  | none => .error (.notFound name)

/-- Fixtures that are not told to fail give the registered answers. -/
theorem answersBy_registered {f : Fixtures} (h : f.failures = []) :
    Endpoint.AnswersBy call f f.registered := by
  intro calls
  induction calls generalizing f with
  | nil =>
    intro name params
    simp only [Endpoint.afterCalls, List.foldl, call, h, Table.get?, Option.getD_none]
    rfl
  | cons first calls ih => exact ih (f := (call f first.1 first.2).2) h

end Fixtures

namespace Program

variable (answer : String → Table String → Except EndpointError Json)

/-- The result of a program whose calls are answered so. -/
def resultBy : Program α → Except Fault α
  | done a => .ok a
  | fault e => .error e
  | report _ next => next.resultBy
  | call name params next => (next (answer name params)).resultBy
  | sleep _ next => next.resultBy

/-- How many turns a program takes whose calls are answered so, with the one in which it ends. -/
def turnsBy : Program α → Nat
  | done _ | fault _ => 1
  | report _ next | sleep _ next => next.turnsBy + 1
  | call name params next => (next (answer name params)).turnsBy + 1

variable {answer}

theorem turnsBy_pos (p : Program α) : 0 < p.turnsBy answer := by
  cases p <;> exact Nat.succ_pos _

/-- A run has the result that its answers lead to, and leaves the endpoint with the same answers. -/
theorem run_by {endpoint : Endpoint σ} (p : Program α) {s : σ} (h : endpoint.AnswersBy s answer) (time : Nat) :
    (p.run endpoint time s).result = p.resultBy answer ∧
      endpoint.AnswersBy (p.run endpoint time s).state answer := by
  induction p generalizing time s with
  | done a => exact ⟨rfl, h⟩
  | fault e => exact ⟨rfl, h⟩
  | report intent next ih => exact ih h time
  | call name params next ih =>
    rw [resultBy, ← h.now name params]
    exact ih _ (h.next name params) time
  | sleep ms next ih => exact ih h (time + ms)

end Program

end ViewEngine
