import ViewEngine.Live.Cache

/-!
# Fetches side by side

Fetches of several screens started together on one cache. Each runs until it first sleeps before the next
one starts; after that, whenever the earliest sleep is over, the fetch whose sleep it was goes on, in the
order in which they were started where several wake at once.
-/

namespace ViewEngine

/-- A screen to fetch. -/
structure FetchRequest where
  screen : String
  force : Bool

/-- A fetch that has begun. -/
inductive Fetch where
  | ended (outcome : FetchOutcome)
  /-- Asleep until a time, with the rest of its dispatch. -/
  | asleep (screen : String) (wake : Nat) (rest : Program Context)

/-- What several fetches share. -/
structure FetchWorld (σ : Type) where
  cache : LiveCache
  state : σ
  /-- What has been seen so far. -/
  log : List (Nat × LogEntry) := []

namespace Fetch

variable {σ : Type}

/-- Goes on with a dispatch at a time, until it sleeps or ends. -/
def resume (endpoint : Endpoint σ) (time : Nat) (screen : String) (rest : Program Context)
    (w : FetchWorld σ) : Except Fault (FetchWorld σ × Fetch) :=
  let (log, state, pause) := rest.advance endpoint w.state
  let w := { w with state, log := w.log ++ log.map (time, ·) }
  match pause with
  | .finished (.error e) => .error e
  | .finished (.ok c) =>
    .ok ({ w with cache := w.cache.finish screen c.own }, ended (.fetched c.own))
  | .asleep ms rest => .ok (w, asleep screen (time + ms) rest)

/-- Begins a fetch at time zero. -/
def start (endpoint : Endpoint σ) (source : Source) (d : Dispatcher) (r : FetchRequest)
    (w : FetchWorld σ) : Except Fault (FetchWorld σ × Fetch) :=
  match w.cache.begin? source r.screen r.force with
  | (cache, .answered outcome) => .ok ({ w with cache }, ended outcome)
  | (cache, .started a) =>
    resume endpoint 0 r.screen (d.dispatch a LiveCache.freshContext) { w with cache }

/-- Begins all fetches, in order. -/
def startAll (endpoint : Endpoint σ) (source : Source) (d : Dispatcher) :
    List FetchRequest → FetchWorld σ → Except Fault (FetchWorld σ × List Fetch)
  | [], w => .ok (w, [])
  | r :: rest, w => do
    let (w, fetch) ← start endpoint source d r w
    let (w, fetches) ← startAll endpoint source d rest w
    pure (w, fetch :: fetches)

/-- The earliest time at which one of the fetches wakes. -/
def nextWake? : List Fetch → Option Nat
  | [] => none
  | ended _ :: rest => nextWake? rest
  | asleep _ wake _ :: rest =>
    match nextWake? rest with
    | some other => some (min wake other)
    | none => some wake

/-- Goes on with every fetch that wakes at a time. -/
def wakeAll (endpoint : Endpoint σ) (time : Nat) :
    List Fetch → FetchWorld σ → Except Fault (FetchWorld σ × List Fetch)
  | [], w => .ok (w, [])
  | fetch :: rest, w => do
    let (w, fetch) ← match fetch with
      | asleep screen wake program =>
        if wake = time then resume endpoint time screen program w
        else .ok (w, asleep screen wake program)
      | ended outcome => .ok (w, ended outcome)
    let (w, fetches) ← wakeAll endpoint time rest w
    pure (w, fetch :: fetches)

/-- Goes from one wake to the next until all fetches have ended, at most `fuel` times; the time of the
last wake comes with the result. -/
def runAll (endpoint : Endpoint σ) : Nat → Nat → List Fetch → FetchWorld σ →
    Except Fault (FetchWorld σ × List Fetch × Nat)
  | 0, time, fetches, w => .ok (w, fetches, time)
  | fuel + 1, time, fetches, w =>
    match nextWake? fetches with
    | none => .ok (w, fetches, time)
    | some wake => do
      let (w, fetches) ← wakeAll endpoint wake fetches w
      runAll endpoint fuel wake fetches w

/-- How a fetch ended, if it has. -/
def outcome? : Fetch → Option FetchOutcome
  | ended outcome => some outcome
  | asleep _ _ _ => none

end Fetch

/-- How often at most the fetches of some screens sleep. -/
def maxFetchSleeps (source : Source) (d : Dispatcher) (requests : List FetchRequest) : Nat :=
  requests.foldl (fun count r =>
    match LiveCache.onLoad source r.screen with
    | .ok a => count + a.maxSleeps d.attempts
    | .error _ => count) 0

/-- Fetches screens side by side: their outcomes in order, the time taken and what the world is then. -/
def fetchAll {σ : Type} (endpoint : Endpoint σ) (source : Source) (d : Dispatcher)
    (requests : List FetchRequest) (cache : LiveCache) (state : σ) :
    Except Fault (FetchWorld σ × List FetchOutcome × Nat) := do
  let (w, fetches) ← Fetch.startAll endpoint source d requests { cache, state }
  let (w, fetches, time) ← Fetch.runAll endpoint (maxFetchSleeps source d requests) 0 fetches w
  pure (w, fetches.filterMap Fetch.outcome?, time)

/-- Fetches one screen. -/
def fetch {σ : Type} (endpoint : Endpoint σ) (source : Source) (d : Dispatcher) (r : FetchRequest)
    (cache : LiveCache) (state : σ) : Except Fault (FetchOutcome × LiveCache × Run σ Unit) := do
  match cache.begin? source r.screen r.force with
  | (cache, .answered outcome) => pure (outcome, cache, ⟨[], 0, state, .ok ()⟩)
  | (cache, .started a) =>
    let run := (d.dispatch a LiveCache.freshContext).run endpoint 0 state
    let c ← run.result
    pure (.fetched c.own, cache.finish r.screen c.own, ⟨run.log, run.time, run.state, .ok ()⟩)

end ViewEngine
