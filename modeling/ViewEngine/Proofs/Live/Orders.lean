import ViewEngine.Proofs.Live.Marks

/-!
# Orders that are turns

A list of turns in which a host's fetches are called and take their steps is an interleaving of these
fetches; the number of a fetch tells its place among the calls (`LiveSystem.Numbered`). Among the
interleavings are the orders in which fetches are run otherwise: one after the other
(`exists_run_fetchEach`), and by the clock (`exists_run_fetchAll`).
-/

namespace ViewEngine

variable {σ : Type}

/-- The request of a turn that calls a fetch. -/
def Turn.request? : Turn σ → Option FetchRequest
  | .call _ r => some r
  | _ => none

/-- The turns of fetches side by side: a host calls each of them, in any order and at any moment, they
take their steps, and nothing else is done. -/
structure FetchHost.Interleaves (host : FetchHost σ) (requests : List FetchRequest) (turns : List (Turn σ)) :
    Prop where
  only : ∀ turn ∈ turns, (∃ r, turn = .call host r) ∨ ∃ number, turn = .goOn number
  calls : (turns.filterMap Turn.request?).Perm requests

/-- The same where the fetches are called in the order in which they are given. -/
structure FetchHost.Calls (host : FetchHost σ) (requests : List FetchRequest) (turns : List (Turn σ)) :
    Prop where
  only : ∀ turn ∈ turns, (∃ r, turn = .call host r) ∨ ∃ number, turn = .goOn number
  calls : turns.filterMap Turn.request? = requests

namespace FetchHost.Calls

variable {host : FetchHost σ} {requests more : List FetchRequest} {turns next : List (Turn σ)}

theorem interleaves (h : host.Calls requests turns) : host.Interleaves requests turns :=
  ⟨h.only, .of_eq h.calls⟩

theorem nil : host.Calls [] [] := ⟨List.forall_mem_nil _, rfl⟩

theorem call (r : FetchRequest) : host.Calls [r] [.call host r] :=
  ⟨List.forall_mem_singleton.2 (.inl ⟨r, rfl⟩), rfl⟩

theorem goOn (number : Nat) : host.Calls [] [.goOn number] :=
  ⟨List.forall_mem_singleton.2 (.inr ⟨number, rfl⟩), rfl⟩

theorem append (h : host.Calls requests turns) (hnext : host.Calls more next) :
    host.Calls (requests ++ more) (turns ++ next) where
  only := List.forall_mem_append.2 ⟨h.only, hnext.only⟩
  calls := by rw [List.filterMap_append, h.calls, hnext.calls]

end FetchHost.Calls

namespace LiveSystem

variable {w : LiveSystem σ} {host : FetchHost σ}

/-- A fetch goes on by the step that it takes. -/
theorem goOn_of_steps {f : FetchUnderway σ} {rest : Program Context} {e : LiveEvent} {state : σ}
    (h : f.Steps w.state e rest state) : w.goOn f = { w with state }.continueWith f rest e := by
  cases h with
  | report hrest | call hrest | sleep hrest => simp only [goOn, hrest]

/-! ## Numbers are places -/

/-- A fetch is numbered by its place among the calls, and it is of the screen that was called there. -/
structure Numbered (asked : List FetchRequest) (w : LiveSystem σ) : Prop where
  called : w.called = asked.length
  underway : ∀ f ∈ w.underway, (asked.map (·.screen))[f.number]? = some f.screen
  ended : ∀ number screen outcome, .ended number screen outcome ∈ w.past →
    (asked.map (·.screen))[number]? = some screen

namespace Numbered

variable {asked : List FetchRequest} {turn : Turn σ} {new : List LiveEvent} {w' : LiveSystem σ}

/-- A call takes the next place, and the others keep theirs. -/
theorem call (h : Numbered asked w) {r : FetchRequest} (hcalled : w'.called = w.called + 1)
    (hunderway : ∀ f ∈ w'.underway, f ∈ w.underway ∨ f.number = w.called ∧ f.screen = r.screen)
    (hpast : w'.past = w.past ++ new) (hnew : ∀ number screen outcome,
      .ended number screen outcome ∈ new → number = w.called ∧ screen = r.screen) :
    Numbered (asked ++ [r]) w' := by
  have hkeep {number : Nat} {screen : String} (hplace : (asked.map (·.screen))[number]? = some screen) :
      ((asked ++ [r]).map (·.screen))[number]? = some screen := by
    obtain ⟨hlt, -⟩ := List.getElem?_eq_some_iff.1 hplace
    rwa [List.map_append, List.getElem?_append_left hlt]
  have hlast : ((asked ++ [r]).map (·.screen))[w.called]? = some r.screen := by
    simp [h.called]
  refine ⟨by simp [hcalled, h.called], fun f hf => ?_, fun number screen outcome hmem => ?_⟩
  · rcases hunderway f hf with hf | ⟨hnumber, hscreen⟩
    · exact hkeep (h.underway f hf)
    · rwa [hnumber, hscreen]
  · rw [hpast] at hmem
    rcases List.mem_append.1 hmem with hmem | hmem
    · exact hkeep (h.ended number screen outcome hmem)
    · obtain ⟨rfl, rfl⟩ := hnew number screen outcome hmem
      exact hlast

/-- Where nothing is called, the fetches keep their places to their end. -/
theorem keep (h : Numbered asked w) (hrequest : turn.request? = none) (hcalled : w'.called = w.called)
    (hunderway : ∀ f ∈ w'.underway, ∃ g ∈ w.underway, f.number = g.number ∧ f.screen = g.screen)
    (hpast : w'.past = w.past ++ new) (hnew : ∀ number screen outcome,
      .ended number screen outcome ∈ new → ∃ f ∈ w.underway, number = f.number ∧ screen = f.screen) :
    Numbered (asked ++ turn.request?.toList) w' := by
  rw [hrequest, Option.toList_none, List.append_nil]
  refine ⟨hcalled.trans h.called, fun f hf => ?_, fun number screen outcome hmem => ?_⟩
  · obtain ⟨g, hg, hnumber, hscreen⟩ := hunderway f hf
    rw [hnumber, hscreen]
    exact h.underway g hg
  · rw [hpast] at hmem
    rcases List.mem_append.1 hmem with hmem | hmem
    · exact h.ended number screen outcome hmem
    · obtain ⟨f, hf, rfl, rfl⟩ := hnew number screen outcome hmem
      exact h.underway f hf

theorem happens (h : Numbered asked w) (hturn : w.Happens turn new w') :
    Numbered (asked ++ turn.request?.toList) w' := by
  have hsame : ∀ f ∈ w.underway, ∃ g ∈ w.underway, f.number = g.number ∧ f.screen = g.screen :=
    fun f hf => ⟨f, hf, rfl, rfl⟩
  have hpast := hturn.past
  cases hturn with
  | answered =>
    refine h.call rfl (fun f hf => .inl hf) hpast fun number screen outcome hmem => ?_
    cases List.mem_singleton.1 hmem
    exact ⟨rfl, rfl⟩
  | began =>
    refine h.call rfl (fun f hf => ?_) hpast fun number screen outcome hmem => ?_
    · rcases List.mem_cons.1 hf with rfl | hf
      · exact .inr ⟨rfl, rfl⟩
      · exact .inl hf
    · cases List.mem_singleton.1 hmem
  | missed hmissed =>
    have hrequest : turn.request? = none := by rcases hmissed with rfl | rfl <;> rfl
    exact h.keep hrequest rfl hsame hpast nofun
  | wentOn hf hstep =>
    refine h.keep rfl rfl (fun g hg => ?_) hpast fun number screen outcome hmem => ?_
    · obtain ⟨g', hg', rfl⟩ := List.mem_map.1 hg
      refine ⟨g', hg', ?_⟩
      split <;> exact ⟨rfl, rfl⟩
    · cases List.mem_singleton.1 hmem
      cases hstep
  | completed hf =>
    refine h.keep rfl rfl (fun g hg => hsame g (List.mem_of_mem_filter hg)) hpast
      fun number screen outcome hmem => ?_
    cases List.mem_singleton.1 hmem
    exact ⟨_, hf, rfl, rfl⟩
  | faulted | dropped =>
    refine h.keep rfl rfl (fun g hg => hsame g (List.mem_of_mem_filter hg)) hpast
      fun number screen outcome hmem => ?_
    cases List.mem_singleton.1 hmem
  | invalidated | invalidatedAll =>
    refine h.keep rfl rfl hsame hpast fun number screen outcome hmem => ?_
    cases List.mem_singleton.1 hmem

theorem run (h : Numbered asked w) (turns : List (Turn σ)) :
    Numbered (asked ++ turns.filterMap Turn.request?) (w.run turns) := by
  induction turns generalizing w asked with
  | nil => rwa [List.filterMap_nil, List.append_nil]
  | cons turn rest ih =>
    obtain ⟨new, hturn⟩ := happens_take w turn
    have hrest : Numbered _ (w.run (turn :: rest)) := ih (h.happens hturn)
    cases hrequest : turn.request? <;> simpa [hrequest] using hrest

theorem of_calls {requests : List FetchRequest} {turns : List (Turn σ)} (hturns : host.Calls requests turns)
    (cache : LiveCache) (state : σ) : Numbered requests (LiveSystem.run { cache, state } turns) := by
  have hstart : Numbered [] { cache, state : LiveSystem σ } :=
    ⟨rfl, List.forall_mem_nil _, fun _ _ _ hmem => nomatch hmem⟩
  have hrun := hstart.run turns
  rwa [hturns.calls] at hrun

end Numbered

/-! ## One after the other -/

section Alone

variable {f : FetchUnderway σ}

/-- The system after a fetch of a screen between whose steps nothing else was done, by the run of its
dispatch. -/
structure EndedAlone (cache : LiveCache) (screen : String) (r : Run σ Context) (w' : LiveSystem σ) :
    Prop where
  underway : w'.underway = []
  state : w'.state = r.state
  cache : w'.cache = match r.result with
    | .ok c => cache.finish screen c.own
    | .error _ => cache.abandon screen

theorem take_goOn_alone (hunderway : w.underway = [f]) : w.take (.goOn f.number) = w.goOn f := by
  simp [take, find?, hunderway]

theorem without_alone (hunderway : w.underway = [f]) : w.without f.number = [] := by
  simp [without, hunderway]

/-- What comes of a fetch after a step comes of it before the step. -/
theorem exists_endedAlone_of_step (host : FetchHost σ) (hunderway : w.underway = [f])
    {rest : Program Context} {e : LiveEvent} {state : σ} (hstep : f.Steps w.state e rest state)
    {r : Run σ Context} (h : ∀ w' : LiveSystem σ, w'.underway = [{ f with rest }] → w'.state = state → w'.cache = w.cache →
      ∃ turns, host.Calls [] turns ∧ EndedAlone w'.cache f.screen r (w'.run turns)) :
    ∃ turns, host.Calls [] turns ∧ EndedAlone w.cache f.screen r (w.run turns) := by
  obtain ⟨turns, hturns, hend⟩ := h ({ w with state }.continueWith f rest e)
    (by simp [continueWith, hunderway]) rfl rfl
  refine ⟨.goOn f.number :: turns, (FetchHost.Calls.goOn f.number).append hturns, ?_⟩
  rw [run, List.foldl_cons, take_goOn_alone hunderway, goOn_of_steps hstep]
  exact hend

/-- A fetch that is alone under way comes to the end of its dispatch by its turns. -/
theorem exists_endedAlone (host : FetchHost σ) (p : Program Context) (hrest : f.rest = p)
    (hunderway : w.underway = [f]) (time : Nat) : ∃ turns, host.Calls [] turns ∧
      EndedAlone w.cache f.screen (p.run f.endpoint time w.state) (w.run turns) := by
  induction p generalizing f w time with
  | done c =>
    have hlast : w.goOn f = w.complete f c.own := by simp only [goOn, hrest]
    refine ⟨[.goOn f.number], .goOn f.number, ?_⟩
    rw [run, List.foldl_cons, List.foldl_nil, take_goOn_alone hunderway, hlast]
    exact ⟨without_alone hunderway, rfl, rfl⟩
  | fault e =>
    have hlast : w.goOn f = w.breakOff f (some e) := by simp only [goOn, hrest]
    refine ⟨[.goOn f.number], .goOn f.number, ?_⟩
    rw [run, List.foldl_cons, List.foldl_nil, take_goOn_alone hunderway, hlast]
    exact ⟨without_alone hunderway, rfl, rfl⟩
  | report intent next ih =>
    refine exists_endedAlone_of_step host hunderway (.report hrest) fun w' hw' hstate _ => ?_
    obtain ⟨turns, hturns, hend⟩ := ih rfl hw' time
    rw [hstate] at hend
    exact ⟨turns, hturns, hend.underway, hend.state, hend.cache⟩
  | call name params next ih =>
    refine exists_endedAlone_of_step host hunderway (.call hrest) fun w' hw' hstate _ => ?_
    obtain ⟨turns, hturns, hend⟩ := ih _ rfl hw' time
    rw [hstate] at hend
    exact ⟨turns, hturns, hend.underway, hend.state, hend.cache⟩
  | sleep ms next ih =>
    refine exists_endedAlone_of_step host hunderway (.sleep hrest) fun w' hw' hstate _ => ?_
    obtain ⟨turns, hturns, hend⟩ := ih rfl hw' (time + ms)
    rw [hstate] at hend
    exact ⟨turns, hturns, hend.underway, hend.state, hend.cache⟩

end Alone

/-- A fetch that is called while none is under way is taken to its end by its turns, and leaves what it
leaves alone. -/
theorem exists_run_fetchAlone (host : FetchHost σ) (r : FetchRequest) (hunderway : w.underway = []) :
    ∃ turns, host.Calls [r] turns ∧ (w.run turns).underway = [] ∧
      ((w.run turns).cache, (w.run turns).state) = (host.fetchAlone r w.cache w.state).2 := by
  have hcall (turns) : w.run (.call host r :: turns) = (w.call host r).run turns := rfl
  suffices h : ∃ turns, host.Calls [] turns ∧ ((w.call host r).run turns).underway = [] ∧
      (((w.call host r).run turns).cache, ((w.call host r).run turns).state) =
        (host.fetchAlone r w.cache w.state).2 by
    obtain ⟨turns, hturns, hleft⟩ := h
    exact ⟨.call host r :: turns, (FetchHost.Calls.call r).append hturns, hleft⟩
  unfold call FetchHost.fetchAlone
  split
  next => exact ⟨[], .nil, hunderway, rfl⟩
  next cache a _ =>
    let f : FetchUnderway σ :=
      ⟨w.called, r.screen, host.endpoint, host.dispatcher.dispatch a LiveCache.freshContext⟩
    have hf : ({ w with cache }.begin r.screen host.endpoint f.rest).underway = [f] :=
      congrArg (f :: ·) hunderway
    obtain ⟨turns, hturns, h⟩ := exists_endedAlone host f.rest rfl hf 0
    refine ⟨turns, hturns, h.underway, ?_⟩
    rw [h.cache, h.state]
    dsimp only [f, LiveSystem.begin]
    cases ((host.dispatcher.dispatch a LiveCache.freshContext).run host.endpoint 0 w.state).result <;> rfl

/-- Fetches one after the other take turns side by side. -/
theorem exists_run_fetchEach (host : FetchHost σ) (requests : List FetchRequest)
    (hunderway : w.underway = []) : ∃ turns, host.Calls requests turns ∧ (w.run turns).underway = [] ∧
      ((w.run turns).cache, (w.run turns).state) = host.fetchEach requests w.cache w.state := by
  induction requests generalizing w with
  | nil => exact ⟨[], .nil, hunderway, rfl⟩
  | cons r rest ih =>
    obtain ⟨first, hfirst, hend, hleft⟩ := exists_run_fetchAlone host r hunderway
    obtain ⟨turns, hturns, hend', hleft'⟩ := ih hend
    refine ⟨first ++ turns, hfirst.append hturns, ?_⟩
    rw [run_append]
    refine ⟨hend', hleft'.trans ?_⟩
    exact congrArg (fun left : LiveCache × σ => host.fetchEach rest left.1 left.2) hleft

end LiveSystem

/-- `fetchAlone` tells the same as `fetch`, and also what is left after a fault. -/
theorem fetch_eq_fetchAlone (host : FetchHost σ) (r : FetchRequest) (cache : LiveCache) (state : σ) :
    (fetch host.endpoint host.source host.dispatcher r cache state).map
        (fun ended => (ended.1, ended.2.1, ended.2.2.state)) =
      (host.fetchAlone r cache state).1.map fun outcome => (outcome, (host.fetchAlone r cache state).2) := by
  unfold fetch FetchHost.fetchAlone
  cases cache.begin? host.source r.screen r.force with
  | mk cache' begun =>
    cases begun with
    | answered => rfl
    | started a =>
      dsimp only
      cases ((host.dispatcher.dispatch a LiveCache.freshContext).run host.endpoint 0 state).result <;> rfl

end ViewEngine
