import ViewEngine.Json.Basic
import ViewEngine.Table

/-!
# Endpoints

What `api` actions call: a named endpoint with parameters that are texts, answering with JSON. An endpoint
may remember its calls, so calling it takes its state and gives the next one. `Fixtures` answers from
memory, and fails as often as it is told to.
-/

namespace ViewEngine

/-- Why a call has no answer. Every failure may pass, so a caller may try again. -/
inductive EndpointError where
  /-- There is no address to call. -/
  | invalidUrl (url reason : String)
  /-- The request got lost on the way or was refused. -/
  | transport (endpoint reason : String)
  /-- What came back is no JSON. -/
  | decode (endpoint reason : String)
  /-- Nothing is registered under this name. -/
  | notFound (endpoint : String)
  /-- The task that made the request broke off. -/
  | join (reason : String)
deriving DecidableEq, Repr

namespace EndpointError

def message : EndpointError → String
  | invalidUrl url reason => "invalid endpoint url '" ++ url ++ "': " ++ reason
  | transport endpoint reason => "request to '" ++ endpoint ++ "' failed: " ++ reason
  | decode endpoint reason => "response from '" ++ endpoint ++ "' is not valid JSON: " ++ reason
  | notFound endpoint => "no response registered for endpoint '" ++ endpoint ++ "'"
  | join reason => "endpoint task failed: " ++ reason

end EndpointError

/-- An endpoint with states in `σ`. -/
abbrev Endpoint (σ : Type) :=
  σ → String → Table String → Except EndpointError Json × σ

/-! ## Answers from memory -/

/-- Registered answers, and the calls so far. -/
structure Fixtures where
  responses : Table Json := []
  /-- How many of the first calls fail. -/
  failures : Table Nat := []
  calls : Table Nat := []
deriving Inhabited

namespace Fixtures

/-- The fixtures of an object of answers by endpoint; any other datum has none. -/
def ofJson (j : Json) : Fixtures :=
  match j with
  | .object members => { responses := Table.ofList members }
  | _ => {}

/-- How often an endpoint has been called. -/
def callCount (f : Fixtures) (endpoint : String) : Nat := (f.calls.get? endpoint).getD 0

def totalCalls (f : Fixtures) : Nat := f.calls.values.foldl (· + ·) 0

/-- One call. The parameters do not matter. -/
def call : Endpoint Fixtures := fun f endpoint _ =>
  let count := f.callCount endpoint + 1
  let answer : Except EndpointError Json :=
    if count ≤ (f.failures.get? endpoint).getD 0 then
      .error (.transport endpoint ("simulated failure on call " ++ toString count))
    else match f.responses.get? endpoint with
      | some j => .ok j
      | none => .error (.notFound endpoint)
  (answer, { f with calls := f.calls.insert endpoint count })

end Fixtures

end ViewEngine
