import ViewEngine.Dispatch.Recording
import ViewEngine.Proofs.Dispatch.Moves

/-!
# What a recording hears

What a host is to hear of an action can be said leaf by leaf, without handlers: each leaf has at most one
effect, with its parameters resolved in the context that the leaves before it left (`effects`). A dispatcher
with a handler for every event of the action hears just that (`record_intents`): the events are collected
from the tree wherever they stand, so none that is performed can be missing.
-/

namespace ViewEngine

variable {σ : Type}

/-! ## The effects of leaves -/

namespace Action

/-- What there is to hear of a leaf in a context: a screen that it asks for, a dismissal, or its event. -/
def effect? (leaf : Action) (c : Context) : Except Fault (Option Intent) :=
  match leaf.type, leaf.screen, leaf.event with
  | "navigate", some screen, _ =>
    (c.resolveAll (leaf.params.getD [])).map fun params => some (.navigate screen params)
  | "present", some screen, _ =>
    (c.resolveAll (leaf.params.getD [])).map fun params => some (.present screen params)
  | "dismiss", _, _ => .ok (some .dismiss)
  | "custom", _, some event =>
    (c.resolveTexts (leaf.payload.getD [])).map fun payload => some (.event event payload)
  | _, _, _ => .ok none

end Action

/-- What there is to hear of leaves that are performed one after the other, each where the one before it
ended, by a dispatcher that itself takes notice of nothing. -/
def effects (timing : Timing) (endpoint : Endpoint σ) : List Action → Context → σ → Except Fault (List Intent)
  | [], _, _ => .ok []
  | leaf :: rest, c, s => do
    let effect ← leaf.effect? c
    let run := (Dispatcher.perform { timing } leaf c).run endpoint 0 s
    let c' ← run.result
    let later ← effects timing endpoint rest c' run.state
    pure (effect.toList ++ later)

/-! ## Hearing a leaf -/

/-- The intents in a log. -/
def intentsOf (log : List (Nat × LogEntry)) : List Intent := log.filterMap (·.2.intent?)

/-- The intents of a run that comes to an end. -/
def Run.heard {α : Type} (r : Run σ α) : Except Fault (List Intent) := r.result.map fun _ => intentsOf r.log

theorem Run.heard_andThen {α β : Type} (r : Run σ α) (next : α → Nat → σ → Run σ β) :
    (r.andThen next).heard = (do
      let a ← r.result
      let later ← (next a r.time r.state).heard
      pure (intentsOf r.log ++ later)) := by
  cases hr : r.result with
  | error f =>
    rw [andThen_error hr]
    rfl
  | ok a =>
    rw [andThen_ok hr]
    simp only [heard, bind, Except.bind]
    cases (next a r.time r.state).result with
    | error f => rfl
    | ok b => exact congrArg Except.ok List.filterMap_append

namespace Dispatcher

variable (d : Dispatcher) (endpoint : Endpoint σ)

/-- The dispatcher with the same pauses that takes notice of nothing. -/
def silent : Dispatcher := { timing := d.timing }

/-- The dispatcher takes notice of all that the leaf may report, and of its event under the name of the
event itself. -/
structure Hears (leaf : Action) : Prop where
  navigates : d.navigates = true
  presents : d.presents = true
  dismisses : d.dismisses = true
  handler (event : String) : leaf.type = "custom" → leaf.event = some event →
    d.handlers.get? event = some event

theorem silent_request (name : String) (params : Table String) (resultKey : Option String) (c : Context)
    (attempts : Nat) :
    d.silent.request name params resultKey c attempts = d.request name params resultKey c attempts := by
  induction attempts with
  | zero => rfl
  | succ left ih =>
    simp only [request, ih]
    rfl

/-- Who takes notice makes no difference to a leaf that has no screen to ask for, is no dismissal and names
no event. -/
theorem perform_eq_silent {leaf : Action} (c : Context) (hdismiss : leaf.type ≠ "dismiss")
    (hnavigate : ∀ screen, leaf.type = "navigate" → leaf.screen ≠ some screen)
    (hpresent : ∀ screen, leaf.type = "present" → leaf.screen ≠ some screen)
    (hcustom : ∀ event, leaf.type = "custom" → leaf.event ≠ some event) :
    d.perform leaf c = d.silent.perform leaf c := by
  unfold perform
  split
  case h_1 htype =>
    cases hscreen : leaf.screen with
    | none => rfl
    | some screen => exact absurd hscreen (hnavigate screen htype)
  case h_2 htype =>
    cases hscreen : leaf.screen with
    | none => rfl
    | some screen => exact absurd hscreen (hpresent screen htype)
  case h_3 htype => exact absurd htype hdismiss
  case h_4 htype =>
    cases leaf.endpoint with
    | none => rfl
    | some name =>
      simp only [silent_request]
      rfl
  case h_5 htype => rfl
  case h_6 htype =>
    cases hevent : leaf.event with
    | none => rfl
    | some event => exact absurd hevent (hcustom event htype)
  case h_7 => rfl

variable {d} in
/-- A leaf with an effect reports it and does nothing else; a leaf without one does what it does unheard. -/
theorem Hears.perform {leaf : Action} (h : d.Hears leaf) (c : Context) :
    match leaf.effect? c with
    | .error f => d.perform leaf c = .fault f
    | .ok none => d.perform leaf c = d.silent.perform leaf c
    | .ok (some intent) =>
      d.perform leaf c = .report intent (.done c) ∧ d.silent.perform leaf c = .done c := by
  generalize heffect : leaf.effect? c = effect
  unfold Action.effect? at heffect
  split at heffect <;> subst heffect
  case h_1 screen _ htype hscreen =>
    unfold Dispatcher.perform
    simp only [htype, hscreen, h.navigates]
    cases c.resolveAll (leaf.params.getD []) with
    | error f => rfl
    | ok params => exact ⟨rfl, rfl⟩
  case h_2 screen _ htype hscreen =>
    unfold Dispatcher.perform
    simp only [htype, hscreen, h.presents]
    cases c.resolveAll (leaf.params.getD []) with
    | error f => rfl
    | ok params => exact ⟨rfl, rfl⟩
  case h_3 htype =>
    unfold Dispatcher.perform
    simp only [htype, h.dismisses]
    exact ⟨rfl, rfl⟩
  case h_4 event htype hevent =>
    unfold Dispatcher.perform
    simp only [htype, hevent, Option.bind_some, h.handler event htype hevent]
    cases c.resolveTexts (leaf.payload.getD []) with
    | error f => rfl
    | ok payload => exact ⟨rfl, rfl⟩
  case h_5 hdismiss hnavigate hpresent hcustom =>
    exact d.perform_eq_silent c hdismiss hnavigate hpresent hcustom

theorem intentsOf_callEntries (name : String) (params : Table String) (time : Nat) (s : σ) (calls : Nat) :
    intentsOf (d.callEntries endpoint name params time s calls) = [] := by
  refine List.filterMap_eq_nil_iff.2 fun entry hentry => ?_
  obtain ⟨i, -, rfl⟩ := List.mem_map.1 hentry
  rfl

/-- A dispatcher that takes notice of nothing reports nothing. -/
theorem intentsOf_silent (leaf : Action) (c : Context) (time : Nat) (s : σ) :
    intentsOf ((d.silent.perform leaf c).run endpoint time s).log = [] := by
  unfold Dispatcher.perform
  split
  case h_1 | h_2 =>
    cases leaf.screen with
    | none => rfl
    | some screen => cases c.resolveAll (leaf.params.getD []) <;> rfl
  case h_3 => rfl
  case h_4 =>
    cases leaf.endpoint with
    | none => rfl
    | some name =>
      cases c.resolveTexts (leaf.params.getD []) with
      | error f => rfl
      | ok params =>
        obtain ⟨left, hleft⟩ := d.silent.exists_attempts_eq_succ
        show intentsOf ((d.silent.request name params leaf.resultKey c d.silent.attempts).run
          endpoint time s).log = []
        rw [hleft, run_request]
        exact d.silent.intentsOf_callEntries endpoint name params time s _
  case h_5 =>
    split
    next key authored _ _ => cases c.resolveValue authored <;> rfl
    next => rfl
  case h_6 =>
    -- Without handlers no event finds one.
    have hnone : leaf.event.bind d.silent.handlers.get? = none := by cases leaf.event <;> rfl
    rw [hnone]
    rfl
  case h_7 => rfl

/-- Moves are heard leaf by leaf. -/
theorem follow_heard {moves : List Move} (h : ∀ leaf ∈ moves.filterMap Move.leaf?, d.Hears leaf)
    (c : Context) (time : Nat) (s : σ) : ((d.follow moves c).run endpoint time s).heard =
      effects d.timing endpoint (moves.filterMap Move.leaf?) c s := by
  induction moves generalizing c time s with
  | nil => rfl
  | cons move rest ih =>
    cases move with
    | pause => exact ih h c _ s
    | perform leaf =>
      have hleaves : (Move.perform leaf :: rest).filterMap Move.leaf? = leaf :: rest.filterMap Move.leaf? := rfl
      rw [hleaves] at h ⊢
      obtain ⟨hleaf, hrest⟩ := List.forall_mem_cons.1 h
      have hperform := hleaf.perform c
      rw [follow, Program.run_bind, Run.heard_andThen, effects]
      have hsilent : Dispatcher.perform { timing := d.timing } leaf c = d.silent.perform leaf c := rfl
      rw [hsilent]
      cases heffect : leaf.effect? c with
      | error f =>
        rw [heffect] at hperform
        rw [hperform]
        rfl
      | ok effect =>
        rw [heffect] at hperform
        cases effect with
        | none =>
          obtain ⟨-, hstate, hresult⟩ :=
            Program.run_sameButTimes endpoint (d.silent.perform leaf c) time 0 s
          rw [hperform, d.intentsOf_silent endpoint, hresult, hstate]
          simp only [bind, Except.bind, ih hrest]
          cases ((d.silent.perform leaf c).run endpoint 0 s).result <;> rfl
        | some intent =>
          rw [hperform.1, hperform.2]
          simp only [Program.run, Run.cons, bind, Except.bind, ih hrest]
          rfl

end Dispatcher

/-! ## Hearing every event -/

namespace Action

variable {leaf : Action} {event : String}

mutual

/-- The events that are collected from a tree are more than those that are performed in it. -/
theorem mem_events (htype : leaf.type = "custom") (hevent : leaf.event = some event) :
    (a : Action) → leaf ∈ a.leaves → event ∈ a.events
  | ⟨type, screen, params, name, resultKey, key, value, ownEvent, payload, actions, binding⟩, h => by
    by_cases hsequence : type = "sequence"
    · simp only [leaves, if_pos hsequence] at h
      exact List.mem_append_right _ (mem_stepEvents htype hevent actions h)
    · simp only [leaves, if_neg hsequence, List.mem_singleton] at h
      subst h
      obtain rfl : type = "custom" := htype
      obtain rfl : ownEvent = some event := hevent
      exact List.mem_append_left _ List.mem_cons_self

theorem mem_stepEvents (htype : leaf.type = "custom") (hevent : leaf.event = some event) :
    (actions : Option (List Action)) → leaf ∈ stepLeaves actions → event ∈ stepEvents actions
  | none, h => nomatch h
  | some actions, h => mem_listEvents htype hevent actions h

theorem mem_listEvents (htype : leaf.type = "custom") (hevent : leaf.event = some event) :
    (actions : List Action) → leaf ∈ listLeaves actions → event ∈ listEvents actions
  | [], h => nomatch h
  | a :: rest, h => by
    rw [listLeaves, List.mem_append] at h
    rw [listEvents, List.mem_append]
    exact h.imp (mem_events htype hevent a) (mem_listEvents htype hevent rest)

end

end Action

namespace Dispatcher

/-- A recording has a handler for every event that its action names, called like the event. -/
theorem get?_handlers_recording (timing : Timing) {a : Action} {event : String} (h : event ∈ a.events) :
    (recording timing a).handlers.get? event = some event := by
  rw [recording, Table.get?_ofList]
  generalize hentries : (a.events.map fun event => (event, event)).reverse = entries
  have hsame : ∀ entry ∈ entries, entry.2 = entry.1 := by
    subst hentries
    simp
  have hmem : (event, event) ∈ entries := by
    subst hentries
    simpa using h
  clear hentries
  induction entries with
  | nil => cases hmem
  | cons entry entries ih =>
    obtain ⟨hfirst, hrest⟩ := List.forall_mem_cons.1 hsame
    by_cases heq : entry.1 = event
    · rw [Table.get?, if_pos heq, hfirst, heq]
    · rw [Table.get?, if_neg heq]
      refine ih hrest ((List.mem_cons.1 hmem).resolve_left fun hentry => heq ?_)
      rw [← hentry]

theorem recording_hears (timing : Timing) {a leaf : Action} (h : leaf ∈ a.leaves) :
    (recording timing a).Hears leaf where
  navigates := rfl
  presents := rfl
  dismisses := rfl
  handler _ htype hevent := get?_handlers_recording timing (Action.mem_events htype hevent a h)

end Dispatcher

/-- A recording has the effects of the leaves of its action. -/
theorem record_intents (timing : Timing) (a : Action) (endpoint : Endpoint σ) (state : σ) (data : Fields) :
    (record timing a endpoint state data).map (·.intents) =
      effects timing endpoint a.leaves { own := data } state := by
  have hleaves := a.filterMap_leaf?_moves
  have hheard := (Dispatcher.recording timing a).follow_heard endpoint
    (fun leaf hleaf => Dispatcher.recording_hears timing (hleaves ▸ hleaf)) { own := data } 0 state
  rw [hleaves, ← Dispatcher.dispatch_eq_follow, Run.heard] at hheard
  refine Eq.trans ?_ hheard
  rw [record]
  cases (((Dispatcher.recording timing a).dispatch a { own := data }).run endpoint 0 state).result <;> rfl

/-- A call that is given up leaves the key unbound for the event after it; an action that is listed below
another type does not run. -/
example :
    let lost : Action := { type := "api", endpoint := some "/none", resultKey := some "r" }
    let event : Action := { type := "custom", event := some "e", payload := some [("r", .string "$.r")],
                            actions := some [{ type := "dismiss" }] }
    (record {} { type := "sequence", actions := some [lost, event] } Fixtures.call {} []).map (·.intents) =
      .ok [.event "e" [("r", "")]] := by
  rfl

end ViewEngine
