import ViewEngine.Dispatch.Basic
import ViewEngine.Json.Printer

/-!
# Recorded dispatches

A dispatch of which all that it reports is kept. Its dispatcher takes notice of everything: for each
event that the action tree names anywhere there is a handler, called like the event.
-/

namespace ViewEngine

namespace Action

mutual

/-- The events that the `custom` actions of a tree name, wherever they stand in it. -/
def events : Action → List String
  | ⟨type, _, _, _, _, _, _, event, _, actions, _⟩ =>
    (if type = "custom" then event.toList else []) ++ stepEvents actions

def stepEvents : Option (List Action) → List String
  | none => []
  | some actions => listEvents actions

def listEvents : List Action → List String
  | [] => []
  | a :: rest => events a ++ listEvents rest

end

end Action

/-- The dispatcher that takes notice of all that an action may report. -/
def Dispatcher.recording (timing : Timing) (a : Action) : Dispatcher :=
  { timing
    navigates := true
    presents := true
    dismisses := true
    handlers := Table.ofList (a.events.map fun event => (event, event)) }

/-- The intent of an entry that is one. -/
def LogEntry.intent? : LogEntry → Option Intent
  | .intent i => some i
  | .call _ _ _ => none

/-- A dispatch as its host has seen it. -/
structure Recording where
  /-- The data that it left. -/
  data : Fields
  intents : List Intent
  /-- How long it took, in milliseconds. -/
  time : Nat

/-- Dispatches an action on some data. -/
def record {σ : Type} (timing : Timing) (a : Action) (endpoint : Endpoint σ) (state : σ)
    (data : Fields) : Except Fault Recording := do
  let run := ((Dispatcher.recording timing a).dispatch a { own := data }).run endpoint 0 state
  let c ← run.result
  return { data := c.own, intents := run.log.filterMap (·.2.intent?), time := run.time }

namespace Intent

/-- Texts by key, as data. -/
def textsJson (texts : Table String) : Json := .object (texts.mapValues Json.string)

/-- The intent as data. -/
def toJson : Intent → Json
  | navigate screen params =>
    .object [("kind", .string "navigate"), ("params", Table.toJson params), ("screen", .string screen)]
  | present screen params =>
    .object [("kind", .string "present"), ("params", Table.toJson params), ("screen", .string screen)]
  | dismiss => .object [("kind", .string "dismiss")]
  | event name payload =>
    .object [("event", .string name), ("kind", .string "event"), ("payload", textsJson payload)]

/-- The intent on a line. -/
def line : Intent → String
  | navigate screen params => "navigate " ++ screen ++ " " ++ (Table.toJson params).text
  | present screen params => "present " ++ screen ++ " " ++ (Table.toJson params).text
  | dismiss => "dismiss"
  | event name payload => "event " ++ name ++ " " ++ (textsJson payload).text

end Intent

end ViewEngine
