import ViewEngine.Proofs.Live.Independence
import ViewEngine.Proofs.Live.Waking

/-!
# Fetches by the clock

`fetchAll` lets fetches go on when the clock wakes them. That is one of the orders in which fetches may
take turns (`exists_run_fetchAll`), so what holds of every order holds of it: fetches of different screens
have the outcomes that each has alone, and leave the same tables (`fetchAll_alone`).
-/

namespace ViewEngine

variable {σ : Type}

namespace LiveEvent

/-- What a fetch has logged with the event. -/
def entry? : LiveEvent → Option LogEntry
  | .seen _ entry => some entry
  | _ => none

/-- The outcome with which the fetch of a number ends in the event. -/
def outcomeOf? (number : Nat) : LiveEvent → Option FetchOutcome
  | .ended other _ outcome => if other = number then some outcome else none
  | _ => none

end LiveEvent

namespace LiveSystem

variable {w : LiveSystem σ} {host : FetchHost σ} {endpoint : Endpoint σ}

/-- The outcome of the fetch of a number, if it has ended. -/
def outcome? (w : LiveSystem σ) (number : Nat) : Option FetchOutcome :=
  w.past.findSome? (LiveEvent.outcomeOf? number)

theorem exists_of_outcome?_eq_some {number : Nat} {outcome : FetchOutcome}
    (h : w.outcome? number = some outcome) : ∃ screen, .ended number screen outcome ∈ w.past := by
  obtain ⟨e, hmem, he⟩ := List.exists_of_findSome?_eq_some h
  unfold LiveEvent.outcomeOf? at he
  split at he
  next other screen outcome' =>
    obtain ⟨rfl, rfl⟩ : other = number ∧ outcome' = outcome := by simpa using he
    exact ⟨screen, hmem⟩
  next => cases he

theorem outcome?_of_past {w' : LiveSystem σ} {e : LiveEvent} (hpast : w'.past = w.past ++ [e])
    (number : Nat) : w'.outcome? number = (w.outcome? number).or (e.outcomeOf? number) := by
  simp [outcome?, hpast]

/-- The fetches of a list that are asleep, numbered from a number on, as they are under way. -/
def asleepFrom (endpoint : Endpoint σ) : Nat → List Fetch → List (FetchUnderway σ)
  | _, [] => []
  | number, .ended _ :: rest => asleepFrom endpoint (number + 1) rest
  | number, .asleep screen _ p :: rest =>
    ⟨number, screen, endpoint, p⟩ :: asleepFrom endpoint (number + 1) rest

theorem asleepFrom_append (number : Nat) (xs ys : List Fetch) : asleepFrom endpoint number (xs ++ ys) =
    asleepFrom endpoint number xs ++ asleepFrom endpoint (number + xs.length) ys := by
  induction xs generalizing number with
  | nil => rfl
  | cons fetch xs ih =>
    have hnumber : number + (fetch :: xs).length = number + 1 + xs.length := by
      rw [List.length_cons]
      omega
    cases fetch with
    | ended => simp only [List.cons_append, asleepFrom, ih, hnumber]
    | asleep => simp only [List.cons_append, asleepFrom, ih, hnumber]

/-- Where all fetches have ended, none is asleep. -/
theorem asleepFrom_eq_nil {fetches : List Fetch} (h : Fetch.nextWake? fetches = none) (number : Nat) :
    asleepFrom endpoint number fetches = [] := by
  induction fetches generalizing number with
  | nil => rfl
  | cons fetch rest ih =>
    cases fetch with
    | ended => exact ih h (number + 1)
    | asleep => exact absurd h Fetch.nextWake?_asleep_ne_none

/-- The system beside fetches that go by the clock: the fetches are numbered in order, and those that
sleep are under way. -/
structure Tracks (endpoint : Endpoint σ) (fetches : List Fetch) (world : FetchWorld σ) (w : LiveSystem σ) :
    Prop where
  marked : w.Marked
  cache : w.cache = world.cache
  state : w.state = world.state
  log : w.past.filterMap LiveEvent.entry? = world.log.map (·.2)
  called : w.called = fetches.length
  underway : w.underway = (asleepFrom endpoint 0 fetches).reverse
  outcomes : ∀ number, w.outcome? number = fetches[number]?.bind Fetch.outcome?

namespace Tracks

variable {before after : List Fetch} {screen : String} {wake : Nat} {p : Program Context}
  {world : FetchWorld σ}

theorem idle {cache : LiveCache} (hidle : cache.inFlight = []) (state : σ) :
    Tracks endpoint [] { cache, state } { cache, state } :=
  ⟨.idle hidle rfl, rfl, rfl, rfl, rfl, rfl, fun _ => rfl⟩

/-- Where a fetch that sleeps is under way. -/
theorem at_asleep (h : Tracks endpoint (before ++ .asleep screen wake p :: after) world w) :
    w.underway = (asleepFrom endpoint (before.length + 1) after).reverse ++
      ⟨before.length, screen, endpoint, p⟩ :: (asleepFrom endpoint 0 before).reverse := by
  rw [h.underway, asleepFrom_append]
  simp [asleepFrom]

/-- Where one fetch of a list is exchanged, the others end as before. -/
theorem outcome?_exchange (x y : Fetch) (number : Nat) :
    (before ++ y :: after)[number]?.bind Fetch.outcome? =
      if number = before.length then y.outcome?
      else (before ++ x :: after)[number]?.bind Fetch.outcome? := by
  have hset : before ++ y :: after = (before ++ x :: after).set before.length y := by simp
  rw [hset, List.getElem?_set]
  split
  next h => simp [h]
  next h => rw [if_neg (Ne.symm h)]

/-- The turn of a fetch that sleeps. -/
theorem take_goOn (h : Tracks endpoint (before ++ .asleep screen wake p :: after) world w) :
    w.take (.goOn before.length) = w.goOn ⟨before.length, screen, endpoint, p⟩ := by
  obtain ⟨hfind, -⟩ := h.marked.around h.at_asleep
  simp only [take, hfind]

theorem outcome?_asleep (h : Tracks endpoint (before ++ .asleep screen wake p :: after) world w) :
    w.outcome? before.length = none := by
  rw [h.outcomes]
  simp [Fetch.outcome?]

/-- The fetches after a step of one that sleeps. -/
theorem step (h : Tracks endpoint (before ++ .asleep screen wake p :: after) world w) {e : LiveEvent}
    {q : Program Context} {state : σ}
    (hstep : FetchUnderway.Steps ⟨before.length, screen, endpoint, p⟩ w.state e q state) (time wake' : Nat) :
    Tracks endpoint (before ++ .asleep screen wake' q :: after)
      { world with state, log := world.log ++ e.entry?.toList.map (time, ·) }
      (w.take (.goOn before.length)) := by
  obtain ⟨-, -, hcontinue⟩ := h.marked.around h.at_asleep
  have hf : ⟨before.length, screen, endpoint, p⟩ ∈ w.underway := by simp [h.at_asleep]
  rw [h.take_goOn, goOn_of_steps hstep]
  refine ⟨h.marked.happens (.wentOn hf hstep), h.cache, rfl, ?_, ?_, ?_, fun number => ?_⟩
  · simp only [continueWith, List.filterMap_append, h.log, List.map_append]
    cases hstep <;> rfl
  · simpa [continueWith] using h.called
  · rw [hcontinue, asleepFrom_append]
    simp [asleepFrom]
  · have hnone : e.outcomeOf? number = none := by cases hstep <;> rfl
    rw [outcome?_exchange (.asleep screen wake p), ← h.outcomes, outcome?_of_past rfl, hnone, Option.or_none]
    split
    next hnumber => exact hnumber ▸ h.outcome?_asleep
    next => rfl

/-- The fetches after the end of one that sleeps. -/
theorem complete (h : Tracks endpoint (before ++ .asleep screen wake (.done c) :: after) world w) :
    Tracks endpoint (before ++ .ended (.fetched c.own) :: after)
      { world with cache := world.cache.finish screen c.own } (w.take (.goOn before.length)) := by
  obtain ⟨-, hwithout, -⟩ := h.marked.around h.at_asleep
  have hf : ⟨before.length, screen, endpoint, .done c⟩ ∈ w.underway := by simp [h.at_asleep]
  rw [h.take_goOn, goOn]
  refine ⟨h.marked.happens (.completed hf rfl), ?_, h.state, ?_, ?_, ?_, fun number => ?_⟩
  · simp [LiveSystem.complete, h.cache]
  · simp only [LiveSystem.complete, List.filterMap_append, h.log]
    simp [LiveEvent.entry?]
  · simpa [LiveSystem.complete] using h.called
  · simp only [LiveSystem.complete]
    rw [hwithout, asleepFrom_append]
    simp [asleepFrom]
  · rw [outcome?_exchange (.asleep screen wake (.done c)), ← h.outcomes, outcome?_of_past rfl]
    split
    next hnumber =>
      rw [hnumber, h.outcome?_asleep]
      simp [LiveEvent.outcomeOf?, Fetch.outcome?]
    next hnumber => simp [LiveEvent.outcomeOf?, Ne.symm hnumber]

/-- What is logged, and what the endpoint's state is, before the rest of a dispatch. -/
theorem resume_report (intent : Intent) (next : Program Context) (time : Nat) (world : FetchWorld σ) :
    Fetch.resume endpoint time screen (.report intent next) world =
      Fetch.resume endpoint time screen next { world with log := world.log ++ [(time, .intent intent)] } := by
  simp [Fetch.resume, Program.advance]

theorem resume_call (name : String) (params : Table String)
    (next : Except EndpointError Json → Program Context) (time : Nat) (world : FetchWorld σ) :
    Fetch.resume endpoint time screen (.call name params next) world =
      Fetch.resume endpoint time screen (next (endpoint world.state name params).1) { world with
        state := (endpoint world.state name params).2
        log := world.log ++ [(time, .ofCall name params (endpoint world.state name params).1)] } := by
  simp [Fetch.resume, Program.advance]

/-- A fetch that the clock wakes goes on by its turns until it sleeps again or ends. -/
theorem resume (host : FetchHost σ)
    (h : Tracks endpoint (before ++ .asleep screen wake p :: after) world w) {time : Nat}
    {world' : FetchWorld σ} {fetch : Fetch}
    (hresume : Fetch.resume endpoint time screen p world = .ok (world', fetch)) :
    ∃ turns, host.Calls [] turns ∧ Tracks endpoint (before ++ fetch :: after) world' (w.run turns) := by
  induction p generalizing w world wake with
  | done c =>
    have hend : (world', fetch) =
        ({ world with cache := world.cache.finish screen c.own }, .ended (.fetched c.own)) := by
      simpa [Fetch.resume, Program.advance] using hresume.symm
    cases hend
    exact ⟨[.goOn before.length], .goOn _, h.complete⟩
  | fault e => simp [Fetch.resume, Program.advance] at hresume
  | report intent next ih =>
    have hstep := h.step (.report rfl) time wake
    rw [h.state] at hstep
    rw [resume_report] at hresume
    obtain ⟨turns, hturns, h'⟩ := ih hstep hresume
    exact ⟨.goOn before.length :: turns, (FetchHost.Calls.goOn _).append hturns, h'⟩
  | call name params next ih =>
    rw [resume_call, ← h.state] at hresume
    obtain ⟨turns, hturns, h'⟩ := ih _ (h.step (.call rfl) time wake) hresume
    exact ⟨.goOn before.length :: turns, (FetchHost.Calls.goOn _).append hturns, h'⟩
  | sleep ms next =>
    have hend : (world', fetch) = (world, .asleep screen (time + ms) next) := by
      simpa [Fetch.resume, Program.advance] using hresume.symm
    cases hend
    have hstep := h.step (.sleep rfl) time (time + ms)
    simp only [h.state, LiveEvent.entry?, Option.toList_none, List.map_nil, List.append_nil] at hstep
    exact ⟨[.goOn before.length], .goOn _, hstep⟩

theorem outcome?_snoc (fetches : List Fetch) (fetch : Fetch) (number : Nat) :
    (fetches ++ [fetch])[number]?.bind Fetch.outcome? =
      if number = fetches.length then fetch.outcome? else fetches[number]?.bind Fetch.outcome? := by
  rcases Nat.lt_trichotomy number fetches.length with hlt | rfl | hgt
  · rw [List.getElem?_append_left hlt, if_neg (Nat.ne_of_lt hlt)]
  · simp
  · rw [if_neg (Nat.ne_of_gt hgt), List.getElem?_eq_none (Nat.le_of_lt hgt),
      List.getElem?_eq_none (by simpa using hgt)]

/-- The fetches with another one, which is called. -/
theorem snoc {fetches : List Fetch} (h : Tracks endpoint fetches world w) {w' : LiveSystem σ} {e : LiveEvent}
    {fetch : Fetch} (hmarked : w'.Marked) (hpast : w'.past = w.past ++ [e]) (hstate : w'.state = w.state)
    (hcalled : w'.called = w.called + 1) (hentry : e.entry? = none)
    (houtcome : ∀ number, e.outcomeOf? number = if number = fetches.length then fetch.outcome? else none)
    (hunderway : w'.underway = (asleepFrom endpoint fetches.length [fetch]).reverse ++ w.underway) :
    Tracks endpoint (fetches ++ [fetch]) { world with cache := w'.cache } w' := by
  refine ⟨hmarked, rfl, hstate.trans h.state, ?_, ?_, ?_, fun number => ?_⟩
  · rw [hpast, List.filterMap_append, h.log]
    simp [hentry]
  · rw [hcalled, h.called, List.length_append, List.length_singleton]
  · rw [hunderway, h.underway, asleepFrom_append, Nat.zero_add, List.reverse_append]
  · rw [outcome?_of_past hpast, h.outcomes, houtcome, outcome?_snoc]
    split
    next hnumber => simp [hnumber]
    next => exact Option.or_none

/-- A fetch that the clock begins is called. -/
theorem start {fetches : List Fetch} (h : Tracks host.endpoint fetches world w) {r : FetchRequest}
    {world' : FetchWorld σ} {fetch : Fetch}
    (hstart : Fetch.start host.endpoint host.source host.dispatcher r world = .ok (world', fetch)) :
    ∃ turns, host.Calls [r] turns ∧ Tracks host.endpoint (fetches ++ [fetch]) world' (w.run turns) := by
  obtain ⟨new, hturn⟩ := happens_take w (.call host r)
  have hmarked := h.marked.happens hturn
  have hpast := hturn.past
  unfold Fetch.start at hstart
  rw [← h.cache] at hstart
  split at hstart
  next cache outcome hbegin =>
    have hcall : w.take (.call host r) = { w with cache }.answer r.screen outcome := by
      simp only [take, call, hbegin]
    have hend : (world', fetch) = ({ world with cache }, .ended outcome) := by simpa using hstart.symm
    cases hend
    refine ⟨[.call host r], .call r, ?_⟩
    rw [run, List.foldl_cons, List.foldl_nil]
    rw [hcall] at hmarked ⊢
    refine h.snoc hmarked rfl rfl rfl rfl (fun number => ?_) rfl
    simp only [LiveEvent.outcomeOf?, h.called, eq_comm (a := number)]
    rfl
  next cache a hbegin =>
    have hcall : w.take (.call host r) = { w with cache }.begin r.screen host.endpoint
        (host.dispatcher.dispatch a LiveCache.freshContext) := by
      simp only [take, call, hbegin]
    rw [hcall] at hmarked
    have hbegun : Tracks host.endpoint
        (fetches ++ .asleep r.screen 0 (host.dispatcher.dispatch a LiveCache.freshContext) :: [])
        { world with cache } (w.take (.call host r)) := by
      rw [hcall]
      refine h.snoc hmarked rfl rfl rfl rfl (fun number => (ite_self _).symm) ?_
      simp [LiveSystem.begin, asleepFrom, h.called]
    obtain ⟨turns, hturns, h'⟩ := hbegun.resume host hstart
    exact ⟨.call host r :: turns, (FetchHost.Calls.call r).append hturns, h'⟩

theorem startAll {fetches : List Fetch} (h : Tracks host.endpoint fetches world w)
    {requests : List FetchRequest} {world' : FetchWorld σ} {more : List Fetch}
    (hstart : Fetch.startAll host.endpoint host.source host.dispatcher requests world = .ok (world', more)) :
    more.length = requests.length ∧ ∃ turns, host.Calls requests turns ∧
      Tracks host.endpoint (fetches ++ more) world' (w.run turns) := by
  induction requests generalizing fetches world w more with
  | nil =>
    cases hstart
    exact ⟨rfl, [], .nil, by rwa [List.append_nil]⟩
  | cons r rest ih =>
    obtain ⟨⟨world₁, fetch⟩, hfirst, hstart⟩ := exists_of_bind_eq_ok hstart
    obtain ⟨⟨world₂, others⟩, hothers, hstart⟩ := exists_of_bind_eq_ok hstart
    cases hstart
    obtain ⟨first, hcalls, h₁⟩ := h.start hfirst
    obtain ⟨hlength, turns, hturns, h₂⟩ := ih h₁ hothers
    refine ⟨congrArg Nat.succ hlength, first ++ turns, hcalls.append hturns, ?_⟩
    rwa [run_append, List.append_cons]

/-- The fetches that the clock wakes at a time go on. -/
theorem wakeAll (host : FetchHost σ) (done : List Fetch) {fetches : List Fetch}
    (h : Tracks endpoint (done ++ fetches) world w) {time : Nat} {world' : FetchWorld σ} {woken : List Fetch}
    (hwake : Fetch.wakeAll endpoint time fetches world = .ok (world', woken)) :
    woken.length = fetches.length ∧ ∃ turns, host.Calls [] turns ∧
      Tracks endpoint (done ++ woken) world' (w.run turns) := by
  induction fetches generalizing done world w woken with
  | nil =>
    cases hwake
    exact ⟨rfl, [], .nil, h⟩
  | cons fetch rest ih =>
    obtain ⟨world₁, fetch', others, hfirst, hothers, rfl⟩ := Fetch.exists_of_wakeAll_cons hwake
    have hnext : ∃ turns, host.Calls [] turns ∧
        Tracks endpoint (done ++ fetch' :: rest) world₁ (w.run turns) := by
      rcases hfirst with ⟨rfl, rfl, -⟩ | ⟨screen, p, rfl, hresume⟩
      · exact ⟨[], .nil, h⟩
      · exact h.resume host hresume
    obtain ⟨first, hfirst, h₁⟩ := hnext
    rw [List.append_cons] at h₁
    obtain ⟨hlength, turns, hturns, h₂⟩ := ih _ h₁ hothers
    refine ⟨congrArg Nat.succ hlength, first ++ turns, hfirst.append hturns, ?_⟩
    rwa [run_append, List.append_cons]

theorem runAll (host : FetchHost σ) {fetches : List Fetch} (h : Tracks endpoint fetches world w)
    {fuel time time' : Nat} {world' : FetchWorld σ} {fetches' : List Fetch}
    (hrun : Fetch.runAll endpoint fuel time fetches world = .ok (world', fetches', time')) :
    fetches'.length = fetches.length ∧ ∃ turns, host.Calls [] turns ∧
      Tracks endpoint fetches' world' (w.run turns) := by
  induction fuel generalizing time fetches world w with
  | zero =>
    cases hrun
    exact ⟨rfl, [], .nil, h⟩
  | succ fuel ih =>
    rw [Fetch.runAll] at hrun
    split at hrun
    · cases hrun
      exact ⟨rfl, [], .nil, h⟩
    · obtain ⟨⟨world₁, woken⟩, hwake, hrun⟩ := exists_of_bind_eq_ok hrun
      obtain ⟨hlength, first, hfirst, h₁⟩ := wakeAll host [] h hwake
      obtain ⟨hlength', turns, hturns, h₂⟩ := ih h₁ hrun
      refine ⟨hlength'.trans hlength, first ++ turns, hfirst.append hturns, ?_⟩
      rwa [run_append]

end Tracks

theorem map_outcome? (fetches : List Fetch) : fetches.map Fetch.outcome? =
    (List.range fetches.length).map fun number => fetches[number]?.bind Fetch.outcome? := by
  induction fetches with
  | nil => rfl
  | cons fetch rest ih =>
    rw [List.length_cons, List.range_succ_eq_map, List.map_cons, List.map_cons, List.map_map, ih]
    rfl

/-- Fetches by the clock take turns side by side until all have ended. They have the outcomes, and leave
the log, the cache and the endpoints, that the clock leaves. -/
theorem exists_run_fetchAll (host : FetchHost σ) (requests : List FetchRequest) {cache : LiveCache}
    (hidle : cache.inFlight = []) {state : σ} {world : FetchWorld σ} {outcomes : List FetchOutcome}
    {time : Nat} (h : fetchAll host.endpoint host.source host.dispatcher requests cache state =
      .ok (world, outcomes, time)) :
    ∃ turns, host.Calls requests turns ∧
      let w := LiveSystem.run { cache, state } turns
      w.underway = [] ∧ w.cache = world.cache ∧ w.state = world.state ∧
        w.past.filterMap LiveEvent.entry? = world.log.map (·.2) ∧
        outcomes.map some = (List.range requests.length).map w.outcome? := by
  obtain ⟨world₁, fetches, fetches', hstart, hrun, rfl, hend⟩ := exists_of_fetchAll h
  obtain ⟨hlength, first, hfirst, h₁⟩ := (Tracks.idle hidle state).startAll hstart
  obtain ⟨hlength', turns, hturns, h₂⟩ := h₁.runAll host hrun
  rw [← run_append] at h₂
  refine ⟨first ++ turns, by simpa using hfirst.append hturns, ?_, h₂.cache, h₂.state, h₂.log, ?_⟩
  · rw [h₂.underway, asleepFrom_eq_nil hend]
    rfl
  · rw [← Fetch.map_outcome?_of_nextWake? hend, map_outcome?, hlength', List.nil_append, hlength]
    exact List.map_congr_left fun number _ => (h₂.outcomes number).symm

/-- Where all fetches have ended, each that has an outcome has the one that it has alone. -/
theorem Beside.verdictBy_of_outcome? {answer : String → Table String → Except EndpointError Json}
    {cache : LiveCache} {asked requests : List FetchRequest} (h : Beside host answer cache asked w)
    (hend : w.underway = []) (hasked : asked.Perm requests) (hnumbered : Numbered requests w) {number : Nat} {r : FetchRequest}
    (hr : requests[number]? = some r) {outcome : FetchOutcome}
    (houtcome : w.outcome? number = some outcome) : host.verdictBy answer cache r = .ok outcome := by
  obtain ⟨screen, hended⟩ := exists_of_outcome?_eq_some houtcome
  obtain rfl : r.screen = screen := by simpa [hr] using hnumbered.ended number screen outcome hended
  have hverdict : (r.screen, .ok outcome) ∈ w.verdicts := List.mem_filterMap.2 ⟨_, hended, rfl⟩
  obtain ⟨q, hq, heq⟩ := List.mem_map.1 ((h.perm_verdicts hend).mem_iff.1 hverdict)
  obtain ⟨hscreen, hsame⟩ := Prod.mk.inj heq
  have hmem : r ∈ asked := hasked.mem_iff.2 (List.mem_of_getElem? hr)
  rwa [← List.inj_on_of_nodup_map h.screens hq hmem hscreen]

end LiveSystem

/-- **By the clock as alone.** Fetches of different screens by the clock have the outcomes that each has
alone, and leave the tables that they leave one after the other, in any order. -/
theorem fetchAll_alone (host : FetchHost σ) {answer : String → Table String → Except EndpointError Json}
    {state : σ} (hanswers : host.endpoint.AnswersBy state answer) {cache : LiveCache}
    (hidle : cache.inFlight = []) {requests : List FetchRequest} (hscreens : (requests.map (·.screen)).Nodup)
    {world : FetchWorld σ} {outcomes : List FetchOutcome} {time : Nat} (h : fetchAll host.endpoint host.source host.dispatcher
      requests cache state = .ok (world, outcomes, time)) :
    outcomes.map .ok = requests.map (fun r =>
      (fetch host.endpoint host.source host.dispatcher r cache state).map (·.1)) ∧
    ∀ order : List FetchRequest, order.Perm requests → ∀ screen,
      world.cache.entry screen = (host.fetchEach order cache state).1.entry screen := by
  obtain ⟨turns, hturns, hend, hcache, -, -, houtcomes⟩ :=
    LiveSystem.exists_run_fetchAll host requests hidle h
  obtain ⟨asked, hasked, hbeside⟩ := LiveSystem.Beside.exists_of_interleaves hanswers hidle hscreens
    hturns.interleaves
  constructor
  · have hnumbered := LiveSystem.Numbered.of_calls hturns cache state
    refine List.ext_getElem ?_ fun number h₁ h₂ => ?_
    · simpa using congrArg List.length houtcomes
    · have h₁' : number < outcomes.length := by simpa using h₁
      have h₂' : number < requests.length := by simpa using h₂
      have houtcome : (LiveSystem.run { cache, state } turns).outcome? number = some outcomes[number] := by
        have hat := congrArg (·[number]?) houtcomes
        simpa [h₁', h₂'] using hat.symm
      have hverdict := hbeside.verdictBy_of_outcome? hend hasked hnumbered (List.getElem?_eq_getElem h₂')
        houtcome
      rw [LiveSystem.verdictBy_eq_fetch hanswers] at hverdict
      rw [List.getElem_map, List.getElem_map]
      generalize Except.map _ (fetch _ _ _ requests[number] cache state) = alone at hverdict ⊢
      cases alone with
      | error => cases hverdict
      | ok outcome => exact congrArg Except.ok (Except.ok.inj hverdict).symm
  · intro order horder screen
    rw [← hcache]
    exact (hbeside.entry_eq_fetchEach hend hanswers hidle (horder.trans hasked.symm)).2 screen

end ViewEngine
