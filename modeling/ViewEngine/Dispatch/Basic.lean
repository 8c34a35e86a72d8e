import ViewEngine.Dispatch.Program
import ViewEngine.Document.Action
import ViewEngine.Document.Component
import ViewEngine.Endpoint.Result

/-!
# Dispatch

What an action does in a context. Nothing an author gets wrong is an error: an action without the fields it
needs, of an unknown type or for an event without a handler does nothing, and a call that fails is
tried again and then given up.
-/

namespace ViewEngine

/-- How often a call is tried, and the pauses of a dispatch in milliseconds. -/
structure Timing where
  /-- All attempts of a call; zero counts as one. -/
  maxAttempts : Nat := 3
  /-- Between two attempts. -/
  retryBackoff : Nat := 2000
  /-- Before each step of a sequence but the first. -/
  sequenceDelay : Nat := 2000
deriving DecidableEq, Repr

/-- What the host of a dispatch takes notice of. -/
structure Dispatcher where
  timing : Timing := {}
  navigates : Bool := false
  presents : Bool := false
  dismisses : Bool := false
  /-- The names of the handlers of events. -/
  handlers : Table String := []

namespace Dispatcher

/-- Sets the handler of an event, in place of an earlier one. -/
def register (d : Dispatcher) (event handler : String) : Dispatcher :=
  { d with handlers := d.handlers.insert event handler }

def hasHandler (d : Dispatcher) (event : String) : Bool := d.handlers.contains event

/-- The attempts of a call, at least one. -/
def attempts (d : Dispatcher) : Nat := max 1 d.timing.maxAttempts

end Dispatcher

namespace Context

/-- The text of a value in parameters and payloads. -/
def paramText (v : Value) : String := v.asText?.getD v.display

/-- Parameters and payloads as texts, each resolved in this context. -/
def resolveTexts (c : Context) (fields : Fields) : Except Fault (Table String) :=
  (c.resolveAll fields).map (Table.mapValues paramText)

/-- Stores the answer of a call under a key, if one is given. -/
def store (c : Context) (key : Option String) (answer : Json) : Context :=
  match key with
  | some key => c.set key (normalizeResult (.ofJson answer))
  | none => c

end Context

namespace Dispatcher

/-- Calls an endpoint up to `attempts` times, until it answers. -/
def request (d : Dispatcher) (endpoint : String) (params : Table String) (resultKey : Option String)
    (c : Context) : (attempts : Nat) → Program Context
  | 0 => .done c
  | left + 1 => .call endpoint params fun
    | .ok answer => .done (c.store resultKey answer)
    | .error _ =>
      if left = 0 then .done c
      else .sleep d.timing.retryBackoff (d.request endpoint params resultKey c left)

/-- Reports an intent if the host takes notice of it. -/
def reportIf (noticed : Bool) (intent : Intent) (c : Context) : Program Context :=
  if noticed then .report intent (.done c) else .done c

/-- What an action does that is no sequence. -/
def perform (d : Dispatcher) (a : Action) (c : Context) : Program Context :=
  match a.type with
  | "navigate" =>
    match a.screen with
    | some screen => do
      let params ← Program.ofExcept (c.resolveAll (a.params.getD []))
      reportIf d.navigates (.navigate screen params) c
    | none => .done c
  | "present" =>
    match a.screen with
    | some screen => do
      let params ← Program.ofExcept (c.resolveAll (a.params.getD []))
      reportIf d.presents (.present screen params) c
    | none => .done c
  | "dismiss" => reportIf d.dismisses .dismiss c
  | "api" =>
    match a.endpoint with
    | some endpoint => do
      let params ← Program.ofExcept (c.resolveTexts (a.params.getD []))
      d.request endpoint params a.resultKey c d.attempts
    | none => .done c
  | "setState" =>
    match a.key, a.value with
    | some key, some v => do
      let v ← Program.ofExcept (c.resolveValue v)
      .done (c.set key v)
    | _, _ => .done c
  | "custom" =>
    match a.event.bind d.handlers.get? with
    | some handler => do
      let payload ← Program.ofExcept (c.resolveTexts (a.payload.getD []))
      .report (.event handler payload) (.done c)
    | none => .done c
  | _ => .done c

mutual

/-- What an action does. -/
def dispatch (d : Dispatcher) : Action → Context → Program Context
  | a@⟨type, _, _, _, _, _, _, _, _, actions, _⟩, c =>
    if type = "sequence" then d.dispatchSteps actions c else d.perform a c

/-- The steps of a sequence, if it has any. -/
def dispatchSteps (d : Dispatcher) : Option (List Action) → Context → Program Context
  | none, c => .done c
  | some actions, c => d.dispatchAll true actions c

/-- Steps one after the other, with a pause before each of them but the first of all. -/
def dispatchAll (d : Dispatcher) (isFirst : Bool) : List Action → Context → Program Context
  | [], c => .done c
  | a :: rest, c =>
    let step := (d.dispatch a c).bind (d.dispatchAll false rest)
    if isFirst then step else .sleep d.timing.sequenceDelay step

end

end Dispatcher

namespace Action

mutual

/-- How often at most an action sleeps when calls are tried `attempts` times. -/
def maxSleeps (attempts : Nat) : Action → Nat
  | ⟨_, _, _, _, _, _, _, _, _, actions, _⟩ => attempts + maxStepSleeps attempts actions

def maxStepSleeps (attempts : Nat) : Option (List Action) → Nat
  | none => 0
  | some actions => maxListSleeps attempts actions

def maxListSleeps (attempts : Nat) : List Action → Nat
  | [] => 0
  | a :: rest => 1 + maxSleeps attempts a + maxListSleeps attempts rest

end

end Action

end ViewEngine
