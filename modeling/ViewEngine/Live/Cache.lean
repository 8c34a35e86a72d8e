import ViewEngine.Dispatch.Basic
import ViewEngine.Source

/-!
# Live data

The live data of a screen is what its `onLoad` action leaves in a fresh context. It is fetched once and
then served from a cache until it is invalidated. While a fetch is under way the screen is marked, and
another fetch of it is refused; a fetch that ends in whatever way takes its mark away.

A fetch is three operations on the cache: `begin?` answers at once or starts the action, and a started
fetch ends by `finish` or by `abandon`.
-/

namespace ViewEngine

/-- Why a screen has no live data. -/
inductive FetchError where
  | alreadyFetching (screen : String)
  | unloadable (screen : String) (reason : DocumentError)
  | noOnLoad (screen : String)
deriving DecidableEq, Repr

namespace FetchError

def message : FetchError → String
  | alreadyFetching screen => "already fetching " ++ screen
  | unloadable screen reason => "could not load " ++ screen ++ ".json: " ++ reason.message
  | noOnLoad screen => "screen \"" ++ screen ++ "\" has no onLoad action"

end FetchError

/-- How a fetch ended. -/
inductive FetchOutcome where
  /-- Served from the cache. -/
  | cached (data : Fields)
  /-- The action ran and what it left is now in the cache. -/
  | fetched (data : Fields)
  | error (reason : FetchError)

/-- The data of a fetch that did not fail. -/
def FetchOutcome.data? : FetchOutcome → Option Fields
  | cached data | fetched data => some data
  | error _ => none

/-- The live data of screens. -/
structure LiveCache where
  contexts : Table Fields := []
  /-- The items of all arrays in the data of a screen. -/
  pools : Table (List Value) := []
  /-- The screens being fetched. -/
  inFlight : List String := []
deriving Inhabited

namespace LiveCache

def hasCached (cache : LiveCache) (screen : String) : Bool := cache.contexts.contains screen

/-- The cached data of a screen, as a context. -/
def context? (cache : LiveCache) (screen : String) : Option Context :=
  (cache.contexts.get? screen).map fun data => { own := data }

def items (cache : LiveCache) (screen : String) : List Value :=
  (cache.pools.get? screen).getD []

def allItems (cache : LiveCache) : List Value := cache.pools.values.flatten

def invalidate (cache : LiveCache) (screen : String) : LiveCache :=
  { cache with contexts := cache.contexts.erase screen, pools := cache.pools.erase screen }

def invalidateAll (cache : LiveCache) : LiveCache := { cache with contexts := [], pools := [] }

/-! ## Fetching -/

/-- The context in which an `onLoad` action starts. -/
def freshContext : Context := { own := [("env", .object [])] }

/-- The items of the arrays in the data of a screen, in the order of their keys. -/
def pool (data : Fields) : List Value := (data.values.filterMap Value.array?).flatten

/-- What the beginning of a fetch leads to. -/
inductive Begun where
  | answered (outcome : FetchOutcome)
  /-- The action is to be dispatched; the screen is marked. -/
  | started (onLoad : Action)

/-- The `onLoad` action of a screen. -/
def onLoad (source : Source) (screen : String) : Except FetchError Action :=
  match source.loadScreen screen with
  | .error e => .error (.unloadable screen e)
  | .ok n =>
    match n.actionProp? "onLoad" with
    | some a => .ok a
    | none => .error (.noOnLoad screen)

/-- Begins a fetch. With `force` the cache is not asked. -/
def begin? (cache : LiveCache) (source : Source) (screen : String) (force : Bool) :
    LiveCache × Begun :=
  match if force then none else cache.contexts.get? screen with
  | some data => (cache, .answered (.cached data))
  | none =>
    if screen ∈ cache.inFlight then (cache, .answered (.error (.alreadyFetching screen)))
    else match onLoad source screen with
      | .error e => (cache, .answered (.error e))
      | .ok a => ({ cache with inFlight := screen :: cache.inFlight }, .started a)

/-- Ends a fetch without a result. -/
def abandon (cache : LiveCache) (screen : String) : LiveCache :=
  { cache with inFlight := cache.inFlight.erase screen }

/-- Ends a fetch with the data that the action left. -/
def finish (cache : LiveCache) (screen : String) (data : Fields) : LiveCache :=
  { contexts := cache.contexts.insert screen data
    pools := cache.pools.insert screen (pool data)
    inFlight := cache.inFlight.erase screen }

end LiveCache

end ViewEngine
