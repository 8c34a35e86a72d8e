import ViewEngine.Proofs.Dispatch.Answers
import ViewEngine.Proofs.Live.Orders

/-!
# Fetches of different screens

Fetches of different screens that take turns on one cache do not notice each other, as long as the
endpoint's answers do not tell what was called before. The verdicts of the fetches that have ended, with
those to which the fetches under way will come, are at any moment those of the fetches alone
(`LiveSystem.Beside`); and the tables hold just what the verdicts say.
-/

namespace ViewEngine

variable {σ : Type}

/-- How a fetch of a screen has ended: with its outcome, or by a fault, unless it was dropped. -/
def LiveEvent.verdict? : LiveEvent → Option (String × Except (Option Fault) FetchOutcome)
  | .ended _ screen outcome => some (screen, .ok outcome)
  | .brokeOff _ screen fault => some (screen, .error fault)
  | _ => none

/-- What a cache has for a screen. -/
def LiveCache.entry (cache : LiveCache) (screen : String) : Option Fields × Option (List Value) :=
  (cache.contexts.get? screen, cache.pools.get? screen)

namespace LiveCache

/-- What a fetch that has ended so leaves for its screen, where the cache had something before. -/
def entryAfter : Except (Option Fault) FetchOutcome → Option Fields × Option (List Value) →
    Option Fields × Option (List Value)
  | .ok (.fetched data), _ => (some data, some (pool data))
  | _, before => before

theorem entry_finish (cache : LiveCache) (screen other : String) (data : Fields) :
    (cache.finish screen data).entry other = if screen = other then
      entryAfter (.ok (.fetched data)) (cache.entry other) else cache.entry other := by
  simp only [entry, finish, Table.get?_insert]
  split <;> rfl

/-- How a fetch begins hangs on the data and on the mark of its screen only. -/
theorem begin?_snd_congr {cache cache' : LiveCache} {screen : String}
    (hdata : cache.contexts.get? screen = cache'.contexts.get? screen)
    (hmark : screen ∈ cache.inFlight ↔ screen ∈ cache'.inFlight) (source : Source) (force : Bool) :
    (cache.begin? source screen force).2 = (cache'.begin? source screen force).2 := by
  simp only [begin?, hdata, hmark]
  split
  · rfl
  · split
    · rfl
    · split <;> rfl

end LiveCache

variable (answer : String → Table String → Except EndpointError Json)

/-- The verdict to which a dispatch comes. -/
def Program.verdictBy (p : Program Context) : Except (Option Fault) FetchOutcome :=
  match p.resultBy answer with
  | .ok c => .ok (.fetched c.own)
  | .error e => .error (some e)

/-- The verdict to which a fetch comes alone. -/
def FetchHost.verdictBy (host : FetchHost σ) (cache : LiveCache) (r : FetchRequest) :
    Except (Option Fault) FetchOutcome :=
  match (cache.begin? host.source r.screen r.force).2 with
  | .answered outcome => .ok outcome
  | .started a => (host.dispatcher.dispatch a LiveCache.freshContext).verdictBy answer

/-- How many turns a fetch takes alone. -/
def FetchHost.turnsBy (host : FetchHost σ) (cache : LiveCache) (r : FetchRequest) : Nat :=
  match (cache.begin? host.source r.screen r.force).2 with
  | .answered _ => 1
  | .started a => (host.dispatcher.dispatch a LiveCache.freshContext).turnsBy answer + 1

variable {answer}

/-- A step of a fetch brings it one turn nearer to the same verdict. -/
theorem FetchUnderway.Steps.by {f : FetchUnderway σ} {s s' : σ} {e : LiveEvent} {rest : Program Context}
    (h : f.Steps s e rest s') (hanswers : f.endpoint.AnswersBy s answer) :
    f.endpoint.AnswersBy s' answer ∧ e.verdict? = none ∧
      rest.verdictBy answer = f.rest.verdictBy answer ∧
      f.rest.turnsBy answer = rest.turnsBy answer + 1 := by
  cases h with
  | report hrest | sleep hrest =>
    rw [hrest]
    exact ⟨hanswers, rfl, rfl, rfl⟩
  | @call name params next hrest =>
    rw [hrest, Program.verdictBy, Program.verdictBy, Program.resultBy, Program.turnsBy, hanswers.now]
    exact ⟨hanswers.next name params, rfl, rfl, rfl⟩

namespace LiveSystem

variable {w w' : LiveSystem σ} {turn : Turn σ} {new : List LiveEvent}

/-- The verdicts of the fetches that have ended. -/
def verdicts (w : LiveSystem σ) : List (String × Except (Option Fault) FetchOutcome) :=
  w.past.filterMap LiveEvent.verdict?

theorem verdicts_answer (w : LiveSystem σ) (screen : String) (outcome : FetchOutcome) :
    (w.answer screen outcome).verdicts = w.verdicts ++ [(screen, .ok outcome)] := by
  simp [verdicts, answer, LiveEvent.verdict?]

theorem verdicts_begin (w : LiveSystem σ) (screen : String) (endpoint : Endpoint σ)
    (rest : Program Context) : (w.begin screen endpoint rest).verdicts = w.verdicts := by
  simp [verdicts, begin, LiveEvent.verdict?]

/-- The system while fetches run side by side that were called on a cache. The verdicts that there are,
and those to which the fetches under way will come, are the verdicts of the fetches alone; so are the
turns that were taken and will be taken; and the tables hold what the verdicts say, and else what the
cache held. -/
structure Beside (host : FetchHost σ) (answer : String → Table String → Except EndpointError Json)
    (cache : LiveCache) (asked : List FetchRequest) (w : LiveSystem σ) : Prop where
  marked : w.Marked
  answers : host.endpoint.AnswersBy w.state answer
  endpoints : ∀ f ∈ w.underway, f.endpoint = host.endpoint
  screens : (asked.map (·.screen)).Nodup
  alone : (w.verdicts ++ w.underway.map fun f => (f.screen, f.rest.verdictBy answer)).Perm
    (asked.map fun r => (r.screen, host.verdictBy answer cache r))
  turns : w.past.length + (w.underway.map fun f => f.rest.turnsBy answer).sum =
    (asked.map (host.turnsBy answer cache)).sum
  kept : ∀ screen, (∀ data, (screen, .ok (.fetched data)) ∉ w.verdicts) →
    w.cache.entry screen = cache.entry screen
  stored : ∀ screen data, (screen, .ok (.fetched data)) ∈ w.verdicts →
    w.cache.entry screen = (some data, some (LiveCache.pool data))

namespace Beside

variable {host : FetchHost σ} {answer : String → Table String → Except EndpointError Json}
  {cache : LiveCache} {asked : List FetchRequest}

theorem start {state : σ} (hanswers : host.endpoint.AnswersBy state answer) (hidle : cache.inFlight = []) :
    Beside host answer cache [] { cache, state } where
  marked := .idle hidle rfl
  answers := hanswers
  endpoints := List.forall_mem_nil _
  screens := List.nodup_nil
  alone := .nil
  turns := rfl
  kept _ _ := rfl
  stored _ _ h := nomatch h

/-- The screens of the fetches, with those that have ended first. -/
theorem perm_screens (h : Beside host answer cache asked w) :
    (w.verdicts.map Prod.fst ++ w.underway.map (·.screen)).Perm (asked.map (·.screen)) := by
  simpa [Function.comp_def] using h.alone.map Prod.fst

/-- The fetches under way have no verdicts yet. -/
theorem not_mem_verdicts (h : Beside host answer cache asked w) {f : FetchUnderway σ} (hf : f ∈ w.underway)
    (v : Except (Option Fault) FetchOutcome) : (f.screen, v) ∉ w.verdicts := by
  have hnodup := h.perm_screens.nodup_iff.2 h.screens
  intro hv
  exact (List.nodup_append.1 hnodup).2.2 f.screen (List.mem_map.2 ⟨_, hv, rfl⟩) f.screen
    (List.mem_map.2 ⟨f, hf, rfl⟩) rfl

/-- The system after a step of a fetch. -/
theorem step (h : Beside host answer cache asked w) {f : FetchUnderway σ} {rest : Program Context}
    {e : LiveEvent} {state : σ} (hf : f ∈ w.underway) (hstep : f.Steps w.state e rest state) :
    Beside host answer cache asked ({ w with state }.continueWith f rest e) := by
  have hendpoint := h.endpoints f hf
  obtain ⟨hanswers, hverdict, hsame, hturns⟩ := hstep.by (hendpoint ▸ h.answers)
  obtain ⟨before, after, hunderway⟩ := List.append_of_mem hf
  obtain ⟨-, -, hcontinue⟩ := h.marked.around hunderway
  have hverdicts : ({ w with state }.continueWith f rest e).verdicts = w.verdicts := by
    simp [verdicts, continueWith, hverdict]
  have halone := h.alone
  have hsum := h.turns
  rw [hunderway] at halone hsum
  refine ⟨h.marked.happens (.wentOn hf hstep), hendpoint ▸ hanswers, fun g hg => ?_, h.screens, ?_, ?_,
    ?_, ?_⟩
  · rcases (h.marked.mem_continueWith hf).1 hg with rfl | ⟨hg, -⟩
    · exact hendpoint
    · exact h.endpoints g hg
  · rw [hverdicts, hcontinue]
    simpa [hsame] using halone
  · rw [hcontinue, continueWith, List.length_append, ← hsum]
    simp only [List.map_append, List.map_cons, List.sum_append, List.sum_cons, List.length_singleton, hturns]
    omega
  · rw [hverdicts]
    exact h.kept
  · rw [hverdicts]
    exact h.stored

/-- The tables after the verdict of a fetch that had none yet. -/
theorem tables (h : Beside host answer cache asked w) {screen : String}
    {v : Except (Option Fault) FetchOutcome} (hnew : ∀ v, (screen, v) ∉ w.verdicts)
    (hverdicts : w'.verdicts = w.verdicts ++ [(screen, v)])
    (hentry : ∀ other, w'.cache.entry other =
      if screen = other then LiveCache.entryAfter v (w.cache.entry other) else w.cache.entry other) :
    (∀ other, (∀ data, (other, .ok (.fetched data)) ∉ w'.verdicts) →
      w'.cache.entry other = cache.entry other) ∧
    ∀ other data, (other, .ok (.fetched data)) ∈ w'.verdicts →
      w'.cache.entry other = (some data, some (LiveCache.pool data)) := by
  simp only [hverdicts, List.mem_append, List.mem_singleton, Prod.mk.injEq, not_or, hentry]
  constructor
  · intro other hother
    have hkept := h.kept other fun data => (hother data).1
    split
    next hsame =>
      unfold LiveCache.entryAfter
      split
      next _ data => exact absurd ⟨hsame.symm, rfl⟩ (hother data).2
      next => exact hkept
    next => exact hkept
  · rintro other data (hmem | ⟨rfl, rfl⟩)
    · rw [if_neg fun hsame => hnew _ (hsame ▸ hmem)]
      exact h.stored other data hmem
    · exact if_pos rfl

/-- The system after the end of a fetch. -/
theorem end_fetch (h : Beside host answer cache asked w) {f : FetchUnderway σ} {e : LiveEvent}
    (hf : f ∈ w.underway) (hturn : w.Happens turn [e] w')
    (hverdict : e.verdict? = some (f.screen, f.rest.verdictBy answer))
    (hlast : f.rest.turnsBy answer = 1) (hunderway' : w'.underway = w.without f.number)
    (hstate : w'.state = w.state)
    (hentry : ∀ other, w'.cache.entry other = if f.screen = other then
      LiveCache.entryAfter (f.rest.verdictBy answer) (w.cache.entry other) else w.cache.entry other) :
    Beside host answer cache asked w' := by
  obtain ⟨before, after, hunderway⟩ := List.append_of_mem hf
  obtain ⟨-, hwithout, -⟩ := h.marked.around hunderway
  have hpast := hturn.past
  have hverdicts : w'.verdicts = w.verdicts ++ [(f.screen, f.rest.verdictBy answer)] := by
    simp [verdicts, hpast, hverdict]
  have halone := h.alone
  have hsum := h.turns
  rw [hunderway] at halone hsum
  obtain ⟨hkept, hstored⟩ := h.tables (h.not_mem_verdicts hf) hverdicts hentry
  refine ⟨h.marked.happens hturn, hstate ▸ h.answers, fun g hg => ?_, h.screens, ?_, ?_, hkept, hstored⟩
  · exact h.endpoints g (List.mem_of_mem_filter (hunderway' ▸ hg))
  · rw [hverdicts, hunderway', hwithout]
    refine List.Perm.trans ?_ halone
    simpa using (List.perm_middle.symm.append_left w.verdicts)
  · rw [hunderway', hwithout, hpast, List.length_append, ← hsum]
    simp only [List.map_append, List.map_cons, List.sum_append, List.sum_cons, List.length_singleton, hlast]
    omega

theorem take_goOn (h : Beside host answer cache asked w) (number : Nat) :
    Beside host answer cache asked (w.take (.goOn number)) := by
  obtain ⟨new, hturn⟩ := happens_take w (.goOn number)
  generalize w.take (.goOn number) = w' at hturn
  cases hturn with
  | missed => exact h
  | wentOn hf hstep => exact h.step hf hstep
  | completed hf hrest =>
    refine h.end_fetch hf (.completed hf hrest) ?_ ?_ rfl rfl ?_
    · rw [hrest]
      rfl
    · rw [hrest]
      rfl
    · rw [hrest]
      exact fun other => LiveCache.entry_finish _ _ _ _
  | faulted hf hrest =>
    refine h.end_fetch hf (.faulted hf hrest) ?_ ?_ rfl rfl ?_
    · rw [hrest]
      rfl
    · rw [hrest]
      rfl
    · rw [hrest]
      exact fun other => (ite_self _).symm

/-- A fetch of another screen than those before begins as it would begin alone. -/
theorem begin?_eq (h : Beside host answer cache asked w) (hidle : cache.inFlight = []) {r : FetchRequest}
    (hnew : r.screen ∉ asked.map (·.screen)) :
    (∀ v, (r.screen, v) ∉ w.verdicts) ∧
      (cache.begin? host.source r.screen r.force).2 = (w.cache.begin? host.source r.screen r.force).2 := by
  have hscreens : r.screen ∉ w.verdicts.map Prod.fst ++ w.underway.map (·.screen) := by
    rwa [h.perm_screens.mem_iff]
  obtain ⟨hverdict, hunderway⟩ := not_or.1 (mt List.mem_append.2 hscreens)
  have hverdict' (v) : (r.screen, v) ∉ w.verdicts := fun hv => hverdict (List.mem_map.2 ⟨_, hv, rfl⟩)
  refine ⟨hverdict', LiveCache.begin?_snd_congr ?_ ?_ host.source r.force⟩
  · exact (congrArg Prod.fst (h.kept r.screen fun data => hverdict' _)).symm
  · simp [h.marked.marks, hidle, hunderway]

theorem take_call (h : Beside host answer cache asked w) (hidle : cache.inFlight = []) {r : FetchRequest}
    (hnew : r.screen ∉ asked.map (·.screen)) :
    Beside host answer cache (r :: asked) (w.take (.call host r)) := by
  obtain ⟨hverdict, hbegin⟩ := h.begin?_eq hidle hnew
  have hscreens : ((r :: asked).map (·.screen)).Nodup := List.nodup_cons.2 ⟨hnew, h.screens⟩
  obtain ⟨new, hturn⟩ := happens_take w (.call host r)
  have hmarked := h.marked.happens hturn
  generalize w.take (.call host r) = w' at hturn hmarked
  cases hturn with
  | missed h => simp at h
  | @answered _ _ outcome hbegins =>
    rw [LiveCache.begins_iff.1 hbegins] at hbegin
    have halone : host.verdictBy answer cache r = .ok outcome := by rw [FetchHost.verdictBy, hbegin]
    have hturns : host.turnsBy answer cache r = 1 := by rw [FetchHost.turnsBy, hbegin]
    obtain ⟨hkept, hstored⟩ := h.tables hverdict (verdicts_answer w r.screen outcome) fun other => by
      cases outcome with
      | fetched data => exact absurd rfl (hbegins.ne_fetched data)
      | cached | error => exact (ite_self _).symm
    refine ⟨hmarked, h.answers, h.endpoints, hscreens, ?_, ?_, hkept, hstored⟩
    · rw [verdicts_answer, List.append_assoc, List.map_cons, halone]
      exact List.perm_middle.trans (h.alone.cons _)
    · rw [List.map_cons, List.sum_cons, hturns, ← h.turns, LiveSystem.answer, List.length_append]
      exact Nat.add_right_comm _ _ _ |>.trans (Nat.add_comm _ _)
  | @began _ _ a hask hfree hload =>
    rw [LiveCache.begins_iff.1 (.started hask hfree hload)] at hbegin
    have halone : host.verdictBy answer cache r =
        (host.dispatcher.dispatch a LiveCache.freshContext).verdictBy answer := by
      rw [FetchHost.verdictBy, hbegin]
    have hturns : host.turnsBy answer cache r =
        (host.dispatcher.dispatch a LiveCache.freshContext).turnsBy answer + 1 := by
      rw [FetchHost.turnsBy, hbegin]
    refine ⟨hmarked, h.answers, List.forall_mem_cons.2 ⟨rfl, h.endpoints⟩, hscreens, ?_, ?_, ?_, ?_⟩
    · rw [verdicts_begin, List.map_cons, halone]
      exact List.perm_middle.trans (h.alone.cons _)
    · rw [List.map_cons, List.sum_cons, hturns, ← h.turns]
      simp only [LiveSystem.begin, List.length_append, List.length_singleton, List.map_cons, List.sum_cons]
      omega
    · rw [verdicts_begin]
      exact h.kept
    · rw [verdicts_begin]
      exact h.stored

/-- The system after turns of fetches side by side. -/
theorem run (h : Beside host answer cache asked w) (hidle : cache.inFlight = []) {turns : List (Turn σ)}
    (honly : ∀ turn ∈ turns, (∃ r, turn = .call host r) ∨ ∃ number, turn = .goOn number)
    (hscreens : ((turns.filterMap Turn.request? ++ asked).map (·.screen)).Nodup) :
    ∃ asked', asked'.Perm (turns.filterMap Turn.request? ++ asked) ∧
      Beside host answer cache asked' (w.run turns) := by
  induction turns generalizing w asked with
  | nil => exact ⟨asked, .refl _, h⟩
  | cons turn rest ih =>
    obtain ⟨hturn, hrest⟩ := List.forall_mem_cons.1 honly
    rcases hturn with ⟨r, rfl⟩ | ⟨number, rfl⟩
    · have hmiddle : (r :: (rest.filterMap Turn.request? ++ asked)).Perm
          (rest.filterMap Turn.request? ++ r :: asked) := List.perm_middle.symm
      have hnew : r.screen ∉ asked.map (·.screen) := by
        intro hmem
        obtain ⟨q, hq, hscreen⟩ := List.mem_map.1 hmem
        exact (List.nodup_cons.1 hscreens).1 (List.mem_map.2 ⟨q, List.mem_append_right _ hq, hscreen⟩)
      obtain ⟨asked', hperm, h'⟩ := ih (h.take_call hidle hnew) hrest ((hmiddle.map _).nodup_iff.1 hscreens)
      exact ⟨asked', hperm.trans hmiddle.symm, h'⟩
    · exact ih (h.take_goOn number) hrest hscreens

/-- Where all fetches have ended, the verdicts are those of the fetches alone. -/
theorem perm_verdicts (h : Beside host answer cache asked w) (hend : w.underway = []) :
    w.verdicts.Perm (asked.map fun r => (r.screen, host.verdictBy answer cache r)) := by
  simpa [hend] using h.alone

/-- Where all of the same fetches have ended, the tables are the same. -/
theorem entry_eq (h : Beside host answer cache asked w) (hend : w.underway = []) {asked' : List FetchRequest}
    (h' : Beside host answer cache asked' w') (hend' : w'.underway = []) (hasked : asked.Perm asked')
    (screen : String) : w.cache.entry screen = w'.cache.entry screen := by
  have hverdicts : w.verdicts.Perm w'.verdicts :=
    (h.perm_verdicts hend).trans ((hasked.map _).trans (h'.perm_verdicts hend').symm)
  by_cases hdata : ∃ data, (screen, .ok (.fetched data)) ∈ w.verdicts
  · obtain ⟨data, hdata⟩ := hdata
    rw [h.stored screen data hdata, h'.stored screen data (hverdicts.mem_iff.1 hdata)]
  · have hnone := not_exists.1 hdata
    rw [h.kept screen hnone, h'.kept screen fun data => mt hverdicts.mem_iff.2 (hnone data)]

/-- Fetches of different screens that are called on a cache on which none is under way run side by side. -/
theorem exists_of_interleaves {state : σ} (hanswers : host.endpoint.AnswersBy state answer)
    (hidle : cache.inFlight = []) {requests : List FetchRequest} (hscreens : (requests.map (·.screen)).Nodup)
    {turns : List (Turn σ)} (hturns : host.Interleaves requests turns) :
    ∃ asked, asked.Perm requests ∧
      Beside host answer cache asked (LiveSystem.run { cache, state } turns) := by
  obtain ⟨asked, hasked, h⟩ := (start hanswers hidle).run hidle hturns.only
    (by simpa using (hturns.calls.map _).nodup_iff.2 hscreens)
  exact ⟨asked, hasked.trans (by simpa using hturns.calls), h⟩

/-- Where all fetches have ended, the tables are those that the fetches leave one after the other. -/
theorem entry_eq_fetchEach (h : Beside host answer cache asked w) (hend : w.underway = []) {state : σ}
    (hanswers : host.endpoint.AnswersBy state answer) (hidle : cache.inFlight = [])
    {order : List FetchRequest} (horder : order.Perm asked) :
    (host.fetchEach order cache state).1.inFlight = [] ∧
      ∀ screen, w.cache.entry screen = (host.fetchEach order cache state).1.entry screen := by
  obtain ⟨turns, hturns, hend', hleft⟩ := exists_run_fetchEach (w := { cache, state }) host order rfl
  have hscreens := (horder.map (·.screen)).nodup_iff.2 h.screens
  obtain ⟨asked', hasked, h'⟩ := exists_of_interleaves hanswers hidle hscreens hturns.interleaves
  have hcache : (LiveSystem.run { cache, state } turns).cache = (host.fetchEach order cache state).1 :=
    congrArg Prod.fst hleft
  rw [← hcache]
  refine ⟨?_, h.entry_eq hend h' hend' (hasked.trans horder).symm⟩
  rw [h'.marked.marks, hend']
  rfl

end Beside

/-! ## All fetches -/

/-- A fetch alone ends with the verdict that the answers lead to. -/
theorem verdictBy_eq_fetch {host : FetchHost σ} {state : σ} (hanswers : host.endpoint.AnswersBy state answer)
    (cache : LiveCache) (r : FetchRequest) : host.verdictBy answer cache r =
      ((fetch host.endpoint host.source host.dispatcher r cache state).map (·.1)).mapError some := by
  unfold FetchHost.verdictBy fetch
  cases cache.begin? host.source r.screen r.force with
  | mk cache' begun =>
    cases begun with
    | answered outcome => rfl
    | started a =>
      have hresult := ((host.dispatcher.dispatch a LiveCache.freshContext).run_by hanswers 0).1
      dsimp only
      rw [Program.verdictBy, ← hresult]
      cases ((host.dispatcher.dispatch a LiveCache.freshContext).run host.endpoint 0 state).result <;> rfl

/-- A fetch under way has turns left. -/
theorem length_past_take_goOn {f : FetchUnderway σ} (hf : f ∈ w.underway) :
    (w.take (.goOn f.number)).past.length = w.past.length + 1 := by
  obtain ⟨new, hturn⟩ := happens_take w (.goOn f.number)
  rw [hturn.past, List.length_append]
  generalize hgoOn : Turn.goOn f.number = turn at hturn
  generalize w.take _ = w' at hturn
  cases hturn with
  | missed hnumber hnone =>
    subst hgoOn
    simp at hnumber
    exact absurd hnumber (hnone f hf)
  | answered | began | wentOn | completed | faulted | dropped | invalidated | invalidatedAll => rfl

/-- **Fetches of different screens do not interfere.** Fetches of different screens are called on one
cache, where none is under way, by one host whose endpoint answers by the name and the parameters of a
call. In whatever order they take their turns, they take no more of them than together they take alone,
and a fetch under way can always take another one; all have ended exactly when all these turns are taken.
Then each has ended as `fetch` ends alone, with the same data, nothing is marked, and the tables are those
that the fetches leave one after the other, in any order. -/
theorem fetches_do_not_interfere (host : FetchHost σ)
    (answer : String → Table String → Except EndpointError Json) (cache : LiveCache) (state : σ)
    (requests : List FetchRequest) (hanswers : host.endpoint.AnswersBy state answer)
    (hscreens : (requests.map (·.screen)).Nodup) (hidle : cache.inFlight = []) :
    ∃ total, ∀ turns, host.Interleaves requests turns →
      let w := LiveSystem.run { cache, state } turns
      (w.past.length ≤ total ∧ (w.past.length = total ↔ w.underway = []) ∧
        ∀ f ∈ w.underway, (w.take (.goOn f.number)).past.length = w.past.length + 1) ∧
      (w.underway = [] →
        w.verdicts.Perm (requests.map fun r => (r.screen,
          ((fetch host.endpoint host.source host.dispatcher r cache state).map (·.1)).mapError some)) ∧
        w.cache.inFlight = [] ∧
        ∀ order : List FetchRequest, order.Perm requests →
          (host.fetchEach order cache state).1.inFlight = [] ∧
          ∀ screen,
            w.cache.contexts.get? screen = (host.fetchEach order cache state).1.contexts.get? screen ∧
            w.cache.pools.get? screen = (host.fetchEach order cache state).1.pools.get? screen) := by
  refine ⟨(requests.map (host.turnsBy answer cache)).sum, fun turns hturns => ?_⟩
  intro w
  obtain ⟨asked, hasked, h⟩ := Beside.exists_of_interleaves hanswers hidle hscreens hturns
  constructor
  · have hsum : w.past.length + (w.underway.map fun f => f.rest.turnsBy answer).sum = _ :=
      h.turns.trans (hasked.map _).sum_nat
    refine ⟨Nat.le.intro hsum, ⟨fun hall => ?_, fun hend => ?_⟩, fun f => length_past_take_goOn⟩
    · cases hunderway : w.underway with
      | nil => rfl
      | cons f rest =>
        have hpos : 0 < f.rest.turnsBy answer := f.rest.turnsBy_pos
        rw [hunderway, List.map_cons, List.sum_cons] at hsum
        omega
    · rw [← hsum, hend]
      rfl
  · intro hend
    refine ⟨?_, ?_, fun order horder => ?_⟩
    · have hverdicts := (h.perm_verdicts hend).trans (hasked.map _)
      simpa only [verdictBy_eq_fetch hanswers] using hverdicts
    · rw [h.marked.marks, hend]
      rfl
    · obtain ⟨hmarks, htables⟩ := h.entry_eq_fetchEach hend hanswers hidle (horder.trans hasked.symm)
      exact ⟨hmarks, fun screen => Prod.mk.inj (htables screen)⟩

/-- Two fetches, each of which takes turns while the other is under way. -/
theorem fetches_do_not_interfere_two :
    let host : FetchHost Fixtures :=
      { source := .ofOnLoad (.apiAction "/e" "r"), dispatcher := {}, endpoint := Fixtures.call }
    let fixtures : Fixtures := { responses := [("/e", .int 1)] }
    let w := LiveSystem.run { state := fixtures }
      [.call host ⟨"s", false⟩, .call host ⟨"t", false⟩, .goOn 1, .goOn 0, .goOn 0, .goOn 1]
    host.endpoint.AnswersBy fixtures fixtures.registered ∧ w.underway = [] ∧
      w.verdicts.Perm [("s", .ok (.fetched [("env", .object []), ("r", .int 1)])),
        ("t", .ok (.fetched [("env", .object []), ("r", .int 1)]))] ∧
      ∀ screen, w.cache.contexts.get? screen =
        (host.fetchEach [⟨"t", false⟩, ⟨"s", false⟩] {} fixtures).1.contexts.get? screen := by
  intro host fixtures w
  have hanswers : host.endpoint.AnswersBy fixtures fixtures.registered := Fixtures.answersBy_registered rfl
  have hend : w.underway = [] := by
    simp only [w, host, LiveSystem.run, List.foldl, take, call, LiveCache.begin?, LiveCache.onLoad_apiAction]
    rfl
  obtain ⟨total, h⟩ := fetches_do_not_interfere host fixtures.registered {} fixtures
    [⟨"s", false⟩, ⟨"t", false⟩] hanswers (by decide) rfl
  obtain ⟨hverdicts, -, htables⟩ := (h _ ⟨by simp, .refl _⟩).2 hend
  refine ⟨hanswers, hend, hverdicts.trans (.of_eq ?_), fun screen => ((htables _ (.swap _ _ _)).2 screen).1⟩
  simp only [List.map_cons, List.map_nil, fetch, LiveCache.begin?, host, LiveCache.onLoad_apiAction]
  rfl

end LiveSystem

end ViewEngine
