import ViewEngine.Live.Fetching

/-!
# Fetches in any order

`fetchAll` lets fetches take turns by the clock. Here they take turns in any order: a fetch may be called at
any moment, one that is under way may go on by a single step of its dispatch or be dropped where it stands,
and between any two turns a screen or every screen may be invalidated. How long a sleep lasts does not matter,
so every order that a clock allows is among them.

`LiveSystem.run` is what comes of a list of turns, and `LiveSystem.past` tells what has happened. `fetchEach` is
the order in which each fetch ends before the next one is called.
-/

namespace ViewEngine

/-- Where a fetch finds its screen, and by what it is dispatched. -/
structure FetchHost (σ : Type) where
  source : Source
  dispatcher : Dispatcher
  endpoint : Endpoint σ

/-- A fetch that has begun its dispatch and has not ended. -/
structure FetchUnderway (σ : Type) where
  /-- How many fetches were called before it. -/
  number : Nat
  screen : String
  endpoint : Endpoint σ
  rest : Program Context

/-- What can be told of a turn. Fetches go by their numbers. -/
inductive LiveEvent where
  /-- The screen is marked, and the dispatch begins. -/
  | began (number : Nat) (screen : String)
  | seen (number : Nat) (entry : LogEntry)
  | slept (number : Nat) (milliseconds : Nat)
  | ended (number : Nat) (screen : String) (outcome : FetchOutcome)
  /-- The fetch has ended without an outcome: by a fault of its dispatch, or dropped. -/
  | brokeOff (number : Nat) (screen : String) (fault : Option Fault)
  | invalidated (screen : String)
  | invalidatedAll

/-- What may be done next. -/
inductive Turn (σ : Type) where
  | call (host : FetchHost σ) (request : FetchRequest)
  /-- A fetch takes one step of its dispatch, or stores what that has left. -/
  | goOn (number : Nat)
  | drop (number : Nat)
  | invalidate (screen : String)
  | invalidateAll

/-- A cache with the fetches that are under way on it. -/
structure LiveSystem (σ : Type) where
  cache : LiveCache := {}
  underway : List (FetchUnderway σ) := []
  /-- How many fetches have been called. -/
  called : Nat := 0
  /-- What has happened, in order. -/
  past : List LiveEvent := []
  /-- The state of the endpoints. -/
  state : σ

namespace LiveSystem

variable {σ : Type}

/-- The fetch of this number, if it is under way. -/
def find? (w : LiveSystem σ) (number : Nat) : Option (FetchUnderway σ) :=
  w.underway.find? (·.number = number)

/-- The fetches under way without the one of this number. -/
def without (w : LiveSystem σ) (number : Nat) : List (FetchUnderway σ) :=
  w.underway.filter (·.number ≠ number)

/-- Answers a call at once. -/
def answer (w : LiveSystem σ) (screen : String) (outcome : FetchOutcome) : LiveSystem σ :=
  { w with
    called := w.called + 1
    past := w.past ++ [.ended w.called screen outcome] }

/-- Begins the dispatch of a call. -/
def begin (w : LiveSystem σ) (screen : String) (endpoint : Endpoint σ) (rest : Program Context) :
    LiveSystem σ :=
  { w with
    underway := ⟨w.called, screen, endpoint, rest⟩ :: w.underway
    called := w.called + 1
    past := w.past ++ [.began w.called screen] }

/-- Calls a fetch, which is answered at once or begins its dispatch. -/
def call (w : LiveSystem σ) (host : FetchHost σ) (r : FetchRequest) : LiveSystem σ :=
  match w.cache.begin? host.source r.screen r.force with
  | (cache, .answered outcome) => { w with cache }.answer r.screen outcome
  | (cache, .started a) =>
    { w with cache }.begin r.screen host.endpoint (host.dispatcher.dispatch a LiveCache.freshContext)

/-- Leaves a fetch with the rest of its dispatch, after an event. -/
def continueWith (w : LiveSystem σ) (f : FetchUnderway σ) (rest : Program Context) (e : LiveEvent) :
    LiveSystem σ :=
  { w with
    underway := w.underway.map fun g => if g.number = f.number then { g with rest } else g
    past := w.past ++ [e] }

/-- Ends a fetch with what its dispatch has left. -/
def complete (w : LiveSystem σ) (f : FetchUnderway σ) (data : Fields) : LiveSystem σ :=
  { w with
    cache := w.cache.finish f.screen data
    underway := w.without f.number
    past := w.past ++ [.ended f.number f.screen (.fetched data)] }

/-- Ends a fetch without an outcome. -/
def breakOff (w : LiveSystem σ) (f : FetchUnderway σ) (fault : Option Fault) : LiveSystem σ :=
  { w with
    cache := w.cache.abandon f.screen
    underway := w.without f.number
    past := w.past ++ [.brokeOff f.number f.screen fault] }

/-- Lets a fetch take one step of its dispatch. -/
def goOn (w : LiveSystem σ) (f : FetchUnderway σ) : LiveSystem σ :=
  match f.rest with
  | .done c => w.complete f c.own
  | .fault e => w.breakOff f (some e)
  | .report intent next => w.continueWith f next (.seen f.number (.intent intent))
  | .call name params next =>
    let (answer, state) := f.endpoint w.state name params
    { w with state }.continueWith f (next answer) (.seen f.number (.ofCall name params answer))
  | .sleep ms next => w.continueWith f next (.slept f.number ms)

/-- Takes a turn. For a fetch that is not under way, nothing is done. -/
def take (w : LiveSystem σ) : Turn σ → LiveSystem σ
  | .call host r => w.call host r
  | .goOn number =>
    match w.find? number with
    | some f => w.goOn f
    | none => w
  | .drop number =>
    match w.find? number with
    | some f => w.breakOff f none
    | none => w
  | .invalidate screen =>
    { w with cache := w.cache.invalidate screen, past := w.past ++ [.invalidated screen] }
  | .invalidateAll =>
    { w with cache := w.cache.invalidateAll, past := w.past ++ [.invalidatedAll] }

/-- Takes turns, one after the other. -/
def run (w : LiveSystem σ) (turns : List (Turn σ)) : LiveSystem σ := turns.foldl take w

end LiveSystem

/-! ## One after the other -/

namespace FetchHost

variable {σ : Type}

/-- A fetch between whose steps nothing else is done: its outcome, or the fault of its dispatch, with the cache
and the endpoints after it. -/
def fetchAlone (host : FetchHost σ) (r : FetchRequest) (cache : LiveCache) (state : σ) :
    Except Fault FetchOutcome × LiveCache × σ :=
  match cache.begin? host.source r.screen r.force with
  | (cache, .answered outcome) => (.ok outcome, cache, state)
  | (cache, .started a) =>
    let run := (host.dispatcher.dispatch a LiveCache.freshContext).run host.endpoint 0 state
    match run.result with
    | .ok c => (.ok (.fetched c.own), cache.finish r.screen c.own, run.state)
    | .error e => (.error e, cache.abandon r.screen, run.state)

/-- Fetches each alone, one after the other. -/
def fetchEach (host : FetchHost σ) : List FetchRequest → LiveCache → σ → LiveCache × σ
  | [], cache, state => (cache, state)
  | r :: rest, cache, state =>
    let (_, cache, state) := host.fetchAlone r cache state
    host.fetchEach rest cache state

end FetchHost

end ViewEngine
