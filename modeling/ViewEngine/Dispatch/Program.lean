import ViewEngine.Endpoint.Basic
import ViewEngine.Transform

/-!
# Programs

What a dispatch does to the world around it, step by step: report an intent, call an endpoint and go on
with its answer, sleep. A program is the rest of such a run at any moment. So a run can be stopped at a
sleep and taken up later, and several can take turns; `Program.run` is the run of one alone.
-/

namespace ViewEngine

/-- Something that a dispatch reports to its host. -/
inductive Intent where
  | navigate (screen : String) (params : Fields)
  | present (screen : String) (params : Fields)
  | dismiss
  /-- An event, by the name of its handler. -/
  | event (handler : String) (payload : Table String)

/-- What remains to be done for a result of type `α`. -/
inductive Program (α : Type) where
  | done (result : α)
  | fault (f : Fault)
  | report (intent : Intent) (next : Program α)
  | call (endpoint : String) (params : Table String)
      (next : Except EndpointError Json → Program α)
  | sleep (milliseconds : Nat) (next : Program α)

/-- What can be seen of a run. -/
inductive LogEntry where
  | intent (intent : Intent)
  /-- A call, with the reason if it failed. -/
  | call (endpoint : String) (params : Table String) (failure : Option EndpointError)

/-- The entry for a call with its answer. -/
def LogEntry.ofCall (endpoint : String) (params : Table String)
    (answer : Except EndpointError Json) : LogEntry :=
  .call endpoint params (match answer with
    | .ok _ => none
    | .error e => some e)

/-- A complete run: what was seen and when, the time and the state of the endpoint at its end, and the
result. -/
structure Run (σ α : Type) where
  log : List (Nat × LogEntry)
  time : Nat
  state : σ
  result : Except Fault α

/-- Adds an entry before all others. -/
def Run.cons {σ α : Type} (time : Nat) (entry : LogEntry) (r : Run σ α) : Run σ α :=
  { r with log := (time, entry) :: r.log }

/-- Where a run stands when nothing more can be done at the moment. -/
inductive Pause (α : Type) where
  | finished (result : Except Fault α)
  | asleep (milliseconds : Nat) (rest : Program α)

namespace Program

variable {α β σ : Type}

/-- Goes on with the result. -/
def bind : Program α → (α → Program β) → Program β
  | done a, f => f a
  | fault e, _ => fault e
  | report i next, f => report i (next.bind f)
  | call endpoint params next, f => call endpoint params fun answer => (next answer).bind f
  | sleep ms next, f => sleep ms (next.bind f)

instance : Monad Program where
  pure := done
  bind := bind

/-- The program of a computation that touches nothing. -/
def ofExcept : Except Fault α → Program α
  | .ok a => done a
  | .error e => fault e

/-- The run of a program from a time and a state of the endpoint on. Only sleeping takes time. -/
def run (endpoint : Endpoint σ) : Program α → Nat → σ → Run σ α
  | done a, time, s => ⟨[], time, s, .ok a⟩
  | fault e, time, s => ⟨[], time, s, .error e⟩
  | report i next, time, s => (next.run endpoint time s).cons time (.intent i)
  | call name params next, time, s =>
    let (answer, s) := endpoint s name params
    ((next answer).run endpoint time s).cons time (.ofCall name params answer)
  | sleep ms next, time, s => next.run endpoint (time + ms) s

/-- What is seen until the next sleep or the end, and where the run stands then. -/
def advance (endpoint : Endpoint σ) : Program α → σ → List LogEntry × σ × Pause α
  | done a, s => ([], s, .finished (.ok a))
  | fault e, s => ([], s, .finished (.error e))
  | report i next, s =>
    let (log, s, pause) := next.advance endpoint s
    (.intent i :: log, s, pause)
  | call name params next, s =>
    let (answer, s) := endpoint s name params
    let (log, s, pause) := (next answer).advance endpoint s
    (.ofCall name params answer :: log, s, pause)
  | sleep ms next, s => ([], s, .asleep ms next)

end Program

end ViewEngine
