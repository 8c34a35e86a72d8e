import Mathlib.Data.List.Nodup
import ViewEngine.Proofs.Dispatch.Results
import ViewEngine.Proofs.Live.Loading
import ViewEngine.Proofs.Live.Turns
import ViewEngine.Proofs.Table.Order

/-!
# Marks and tables

Whatever turns fetches take, the marks of a cache are those of the fetches under way, one for each
(`LiveSystem.Marked`), and its two tables go together: for each screen with data there is the pool of just
that data (`LiveSystem.Pooled`). Every turn keeps both.
-/

namespace ViewEngine

/-- The number of the fetch that ends with the event. -/
def LiveEvent.finished? : LiveEvent → Option Nat
  | .ended number _ _ | .brokeOff number _ _ => some number
  | _ => none

/-- The screen of a fetch that ends with the event and was neither served from the cache nor refused. -/
def LiveEvent.released? : LiveEvent → Option String
  | .ended _ _ (.cached _) | .ended _ _ (.error (.alreadyFetching _)) => none
  | .ended _ screen _ | .brokeOff _ screen _ => some screen
  | _ => none

namespace LiveSystem

variable {σ : Type} {w w' : LiveSystem σ} {turn : Turn σ} {new : List LiveEvent}

/-- The marks are those of the fetches under way, and no screen has two. Numbers tell fetches apart, also
from those that are still to be called. -/
structure Marked (w : LiveSystem σ) : Prop where
  marks : w.cache.inFlight = w.underway.map (·.screen)
  screens : (w.underway.map (·.screen)).Nodup
  numbers : (w.underway.map (·.number)).Nodup
  called : ∀ f ∈ w.underway, f.number < w.called

namespace Marked

/-- A cache on which no fetch is under way. -/
theorem idle (hmarks : w.cache.inFlight = []) (hunderway : w.underway = []) : w.Marked := by
  constructor <;> simp [hmarks, hunderway]

theorem mem_inFlight (h : w.Marked) (screen : String) :
    screen ∈ w.cache.inFlight ↔ ∃ f ∈ w.underway, f.screen = screen := by
  rw [h.marks, List.mem_map]

/-- Of the fetches under way, one is told apart by its number as well as by its screen. -/
theorem number_ne_iff (h : w.Marked) {f g : FetchUnderway σ} (hf : f ∈ w.underway) (hg : g ∈ w.underway) :
    g.number ≠ f.number ↔ g.screen ≠ f.screen := by
  constructor
  · exact mt fun hs => congrArg _ (List.inj_on_of_nodup_map h.screens hg hf hs)
  · exact mt fun hn => congrArg _ (List.inj_on_of_nodup_map h.numbers hg hf hn)

/-- A fetch under way is found by its number. It stands between others, which neither its steps nor its end
change. -/
theorem around (h : w.Marked) {before after : List (FetchUnderway σ)} {f : FetchUnderway σ}
    (hunderway : w.underway = before ++ f :: after) :
    w.find? f.number = some f ∧ w.without f.number = before ++ after ∧
      ∀ rest e state, ({ w with state }.continueWith f rest e).underway =
        before ++ { f with rest } :: after := by
  have hother : ∀ g ∈ before ++ after, g.number ≠ f.number := by
    have hnumbers := h.numbers
    rw [hunderway, List.map_append, List.map_cons, List.nodup_middle, List.nodup_cons,
      ← List.map_append] at hnumbers
    exact fun g hg hnumber => hnumbers.1 (List.mem_map.2 ⟨g, hg, hnumber⟩)
  obtain ⟨hbefore, hafter⟩ := List.forall_mem_append.1 hother
  refine ⟨?_, ?_, fun rest e state => ?_⟩
  · rw [find?, hunderway, List.find?_append, List.find?_eq_none.2 (by simpa using hbefore)]
    simp
  · rw [without, hunderway, List.filter_append, List.filter_cons_of_neg (by simp),
      List.filter_eq_self.2 (by simpa using hbefore), List.filter_eq_self.2 (by simpa using hafter)]
  · have hkeep {l : List (FetchUnderway σ)} (hl : ∀ g ∈ l, g.number ≠ f.number) :
        l.map (fun g => if g.number = f.number then { g with rest } else g) = l :=
      (List.map_congr_left fun g hg => if_neg (hl g hg)).trans (List.map_id l)
    simp only [continueWith, hunderway, List.map_append, List.map_cons, if_true, hkeep hbefore, hkeep hafter]

theorem map_screen_without (h : w.Marked) {f : FetchUnderway σ} (hf : f ∈ w.underway) :
    (w.without f.number).map (·.screen) = w.cache.inFlight.erase f.screen := by
  rw [h.marks, h.screens.erase_eq_filter, List.filter_map, without]
  refine congrArg _ (List.filter_congr fun g hg => ?_)
  rw [Bool.eq_iff_iff, decide_eq_true_eq, Function.comp_apply, bne_iff_ne]
  exact h.number_ne_iff hf hg

/-- After a step of a fetch the others are under way as they were. -/
theorem mem_continueWith (h : w.Marked) {f g : FetchUnderway σ} (hf : f ∈ w.underway) {rest : Program Context}
    {e : LiveEvent} {state : σ} : g ∈ ({ w with state }.continueWith f rest e).underway ↔
      g = { f with rest } ∨ g ∈ w.underway ∧ g.number ≠ f.number := by
  simp only [continueWith, List.mem_map]
  constructor
  · rintro ⟨g', hg', rfl⟩
    by_cases hnumber : g'.number = f.number
    · have hsame : g' = f := List.inj_on_of_nodup_map h.numbers hg' hf hnumber
      rw [if_pos hnumber, hsame]
      exact .inl rfl
    · rw [if_neg hnumber]
      exact .inr ⟨hg', hnumber⟩
  · rintro (rfl | ⟨hg, hnumber⟩)
    · exact ⟨f, hf, if_pos rfl⟩
    · exact ⟨g, hg, if_neg hnumber⟩

/-- The system after the end of a fetch that was under way. -/
theorem end_fetch (h : w.Marked) {f : FetchUnderway σ} (hf : f ∈ w.underway)
    (hmarks : w'.cache.inFlight = w.cache.inFlight.erase f.screen)
    (hunderway : w'.underway = w.without f.number) (hcalled : w'.called = w.called) : w'.Marked := by
  have hsub : (w.without f.number).Sublist w.underway := List.filter_sublist
  refine ⟨?_, ?_, ?_, ?_⟩
  · rw [hmarks, hunderway, h.map_screen_without hf]
  · rw [hunderway]
    exact h.screens.sublist (hsub.map _)
  · rw [hunderway]
    exact h.numbers.sublist (hsub.map _)
  · rw [hunderway, hcalled]
    exact fun g hg => h.called g (hsub.subset hg)

theorem happens (h : w.Marked) (hturn : w.Happens turn new w') : w'.Marked := by
  cases hturn with
  | answered => exact ⟨h.marks, h.screens, h.numbers, fun f hf => Nat.lt_succ_of_lt (h.called f hf)⟩
  | @began host r a _ hfree _ =>
    refine ⟨?_, ?_, ?_, ?_⟩
    · exact congrArg (r.screen :: ·) h.marks
    · rw [h.marks] at hfree
      exact List.nodup_cons.2 ⟨hfree, h.screens⟩
    · refine List.nodup_cons.2 ⟨fun hmem => ?_, h.numbers⟩
      obtain ⟨f, hf, hnumber⟩ := List.mem_map.1 hmem
      exact Nat.lt_irrefl _ (hnumber ▸ h.called f hf)
    · refine List.forall_mem_cons.2 ⟨Nat.lt_succ_self _, fun f hf => ?_⟩
      exact Nat.lt_succ_of_lt (h.called f hf)
  | missed => exact h
  | @wentOn f rest e state hf hstep =>
    have hsame {β : Type} (field : FetchUnderway σ → β)
        (hfield : ∀ g : FetchUnderway σ, field { g with rest } = field g) :
        ({ w with state }.continueWith f rest e).underway.map field = w.underway.map field := by
      simp only [continueWith, List.map_map]
      refine List.map_congr_left fun g _ => ?_
      simp only [Function.comp_apply]
      split
      · exact hfield g
      · rfl
    refine ⟨?_, ?_, ?_, ?_⟩
    · rw [hsame _ fun _ => rfl]
      exact h.marks
    · rw [hsame _ fun _ => rfl]
      exact h.screens
    · rw [hsame _ fun _ => rfl]
      exact h.numbers
    · intro g hg
      rcases (h.mem_continueWith hf).1 hg with rfl | ⟨hg, -⟩
      · exact h.called f hf
      · exact h.called g hg
  | completed hf | faulted hf | dropped hf => exact h.end_fetch hf rfl rfl rfl
  | invalidated | invalidatedAll => exact ⟨h.marks, h.screens, h.numbers, h.called⟩

end Marked

/-- For each screen with data there is the pool of these data, and all data, also those that a fetch under
way will leave, are in the order of their keys. -/
structure Pooled (w : LiveSystem σ) : Prop where
  pools : ∀ screen, w.cache.pools.get? screen = (w.cache.contexts.get? screen).map LiveCache.pool
  sorted : ∀ screen data, w.cache.contexts.get? screen = some data → Table.Sorted data
  rests : ∀ f ∈ w.underway, f.rest.Returns fun c => Table.Sorted c.own

theorem returns_dispatch_freshContext (d : Dispatcher) (a : Action) :
    (d.dispatch a LiveCache.freshContext).Returns fun c => Table.Sorted c.own := by
  have hfresh : Table.Sorted LiveCache.freshContext.own := List.pairwise_singleton _ _
  exact d.dispatch_returns (fun c key v h => Table.sorted_insert h key v) hfresh a

/-- A step leads to no results that the dispatch could not come to before. -/
theorem returns_of_steps {f : FetchUnderway σ} {s s' : σ} {e : LiveEvent} {rest : Program Context}
    {P : Context → Prop} (h : f.rest.Returns P) (hstep : f.Steps s e rest s') : rest.Returns P := by
  cases hstep with
  | report hrest =>
    rw [hrest] at h
    exact h
  | call hrest =>
    rw [hrest] at h
    exact h _
  | sleep hrest =>
    rw [hrest] at h
    exact h

namespace Pooled

/-- The fetches under way after the end of one were under way before. -/
theorem without (h : w.Pooled) (number : Nat) :
    ∀ g ∈ w.without number, g.rest.Returns fun c => Table.Sorted c.own :=
  fun g hg => h.rests g (List.mem_of_mem_filter hg)

theorem happens (h : w.Pooled) (hmarked : w.Marked) (hturn : w.Happens turn new w') : w'.Pooled := by
  cases hturn with
  | answered => exact ⟨h.pools, h.sorted, h.rests⟩
  | began =>
    exact ⟨h.pools, h.sorted, List.forall_mem_cons.2 ⟨returns_dispatch_freshContext _ _, h.rests⟩⟩
  | missed => exact h
  | wentOn hf hstep =>
    refine ⟨h.pools, h.sorted, fun g hg => ?_⟩
    rcases (hmarked.mem_continueWith hf).1 hg with rfl | ⟨hg, -⟩
    · exact returns_of_steps (h.rests _ hf) hstep
    · exact h.rests g hg
  | @completed f c hf hrest =>
    refine ⟨fun screen => ?_, fun screen data hdata => ?_, h.without _⟩
    · simp only [complete, LiveCache.finish, Table.get?_insert, h.pools]
      split <;> rfl
    · simp only [complete, LiveCache.finish, Table.get?_insert] at hdata
      split at hdata
      · cases hdata
        have hreturns := h.rests f hf
        rw [hrest] at hreturns
        exact hreturns
      · exact h.sorted screen data hdata
  | faulted hf | dropped hf => exact ⟨h.pools, h.sorted, h.without _⟩
  | invalidated screen =>
    refine ⟨fun other => ?_, fun other data hdata => ?_, h.rests⟩
    · simp only [LiveCache.invalidate, Table.get?_erase, h.pools]
      split <;> rfl
    · simp only [LiveCache.invalidate, Table.get?_erase] at hdata
      split at hdata
      · cases hdata
      · exact h.sorted other data hdata
  | invalidatedAll => exact ⟨fun _ => rfl, fun _ _ hdata => (nomatch hdata), h.rests⟩

end Pooled

/-- A fetch that has ended is not under way, and its number is not given again. -/
def Finished (w : LiveSystem σ) : Prop :=
  ∀ e ∈ w.past, ∀ number, e.finished? = some number →
    number < w.called ∧ ∀ f ∈ w.underway, f.number ≠ number

theorem number_ne_of_mem_without {f g : FetchUnderway σ} (hg : g ∈ w.without f.number) :
    g ∈ w.underway ∧ g.number ≠ f.number := by
  simpa [without] using hg

namespace Finished

/-- The system after the end of a fetch that was under way. -/
theorem end_fetch (h : w.Finished) (hmarked : w.Marked) {f : FetchUnderway σ} (hf : f ∈ w.underway)
    {e : LiveEvent} (he : e.finished? = some f.number) (hpast : w'.past = w.past ++ [e])
    (hunderway : w'.underway = w.without f.number) (hcalled : w'.called = w.called) : w'.Finished := by
  intro e' he' number hnumber
  rw [hpast, List.mem_append, List.mem_singleton] at he'
  rw [hunderway, hcalled]
  rcases he' with he' | rfl
  · obtain ⟨hlt, hne⟩ := h e' he' number hnumber
    exact ⟨hlt, fun g hg => hne g (number_ne_of_mem_without hg).1⟩
  · rw [he, Option.some.injEq] at hnumber
    subst hnumber
    exact ⟨hmarked.called f hf, fun g hg => (number_ne_of_mem_without hg).2⟩

/-- The system after an event that ends no fetch. -/
theorem keep (h : w.Finished) {e : LiveEvent} (he : e.finished? = none) (hpast : w'.past = w.past ++ [e])
    (hcalled : w.called ≤ w'.called)
    (hunderway : ∀ g ∈ w'.underway, (∃ f ∈ w.underway, g.number = f.number) ∨ w.called ≤ g.number) :
    w'.Finished := by
  intro e' he' number hnumber
  rw [hpast, List.mem_append, List.mem_singleton] at he'
  rcases he' with he' | rfl
  · obtain ⟨hlt, hne⟩ := h e' he' number hnumber
    refine ⟨Nat.lt_of_lt_of_le hlt hcalled, fun g hg => ?_⟩
    rcases hunderway g hg with ⟨f, hf, hsame⟩ | hlate
    · exact hsame ▸ hne f hf
    · exact Nat.ne_of_gt (Nat.lt_of_lt_of_le hlt hlate)
  · rw [he] at hnumber
    cases hnumber

theorem happens (h : w.Finished) (hmarked : w.Marked) (hturn : w.Happens turn new w') : w'.Finished := by
  cases hturn with
  | answered =>
    intro e he number hnumber
    rw [answer, List.mem_append, List.mem_singleton] at he
    rcases he with he | rfl
    · obtain ⟨hlt, hne⟩ := h e he number hnumber
      exact ⟨Nat.lt_succ_of_lt hlt, hne⟩
    · cases hnumber
      exact ⟨Nat.lt_succ_self _, fun f hf => Nat.ne_of_lt (hmarked.called f hf)⟩
  | began =>
    refine h.keep rfl rfl (Nat.le_succ _) (List.forall_mem_cons.2 ⟨.inr (Nat.le_refl _), fun f hf => ?_⟩)
    exact .inl ⟨f, hf, rfl⟩
  | missed => exact h
  | @wentOn f rest e state hf hstep =>
    have he : e.finished? = none := by cases hstep <;> rfl
    refine h.keep he rfl (Nat.le_refl _) fun g hg => .inl ?_
    rcases (hmarked.mem_continueWith hf).1 hg with rfl | ⟨hg, -⟩
    · exact ⟨f, hf, rfl⟩
    · exact ⟨g, hg, rfl⟩
  | completed hf | faulted hf | dropped hf => exact h.end_fetch hmarked hf rfl rfl rfl rfl
  | invalidated | invalidatedAll =>
    exact h.keep rfl rfl (Nat.le_refl _) fun f hf => .inl ⟨f, hf, rfl⟩

end Finished

/-- How the system is after any turns. -/
structure Sound (w : LiveSystem σ) : Prop where
  marked : w.Marked
  pooled : w.Pooled
  finished : w.Finished

namespace Sound

theorem start (state : σ) : Sound { state } where
  marked := .idle rfl rfl
  pooled := ⟨fun _ => rfl, nofun, List.forall_mem_nil _⟩
  finished := List.forall_mem_nil _

theorem happens (h : w.Sound) (hturn : w.Happens turn new w') : w'.Sound :=
  ⟨h.marked.happens hturn, h.pooled.happens h.marked hturn, h.finished.happens h.marked hturn⟩

theorem run (state : σ) (turns : List (Turn σ)) : (LiveSystem.run { state } turns).Sound :=
  run_induction (fun _ _ _ _ h => h.happens) (start state) turns

end Sound

/-- A fetch that was neither served from the cache nor refused leaves no mark, in whatever way it ends. -/
theorem Marked.not_mem_of_released (h : w.Marked) (hturn : w.Happens turn new w') {e : LiveEvent}
    (he : e ∈ new) {screen : String} (hreleased : e.released? = some screen) :
    screen ∉ w'.cache.inFlight := by
  have hnodup : w.cache.inFlight.Nodup := h.marks ▸ h.screens
  cases hturn with
  | @answered _ r outcome hbegins =>
    rw [List.mem_singleton.1 he] at hreleased
    generalize hbegun : (w.cache, LiveCache.Begun.answered outcome) = begun at hbegins
    cases hbegins with
    | failed _ hfree hload =>
      cases hbegun
      have hscreen : r.screen = screen := by
        unfold LiveEvent.released? at hreleased
        split at hreleased <;> simp_all
      exact hscreen ▸ hfree
    | cached | refused =>
      cases hbegun
      cases hreleased
    | started => simp at hbegun
  | began | invalidated | invalidatedAll =>
    rw [List.mem_singleton.1 he] at hreleased
    cases hreleased
  | wentOn _ hstep =>
    rw [List.mem_singleton.1 he] at hreleased
    cases hstep <;> cases hreleased
  | missed => simp at he
  | completed | faulted | dropped =>
    rw [List.mem_singleton.1 he] at hreleased
    cases hreleased
    exact hnodup.not_mem_erase

/-- The items of the arrays of a screen, field by field. -/
theorem pool_eq_flatMap (data : Fields) :
    LiveCache.pool data = data.flatMap fun e => e.2.array?.getD [] := by
  unfold LiveCache.pool Table.values
  induction data with
  | nil => rfl
  | cons e rest ih =>
    rw [List.map_cons, List.filterMap_cons, List.flatMap_cons, ← ih]
    cases e.2.array? <;> rfl

/-- **Marks and tables.** After any turns the marks are those of the fetches under way, one for each
screen; a fetch of a marked screen that the cache does not serve is refused, which changes neither mark
nor table; a fetch that has ended is under way no more, and has left no mark if it had one; and the same
screens have data and a pool, which holds the items of the arrays among just these data, in the order of
their keys. -/
theorem marks_and_tables (state : σ) (turns : List (Turn σ)) :
    let w := LiveSystem.run { state } turns
    ((∀ screen, screen ∈ w.cache.inFlight ↔ ∃ f ∈ w.underway, f.screen = screen) ∧
      w.cache.inFlight.Nodup ∧ (w.underway.map (·.screen)).Nodup) ∧
    (∀ host r, w.take (.call host r) = w.answer r.screen (.error (.alreadyFetching r.screen)) ↔
      (r.force = true ∨ w.cache.contexts.get? r.screen = none) ∧ r.screen ∈ w.cache.inFlight) ∧
    (∀ e ∈ w.past, ∀ number, e.finished? = some number → ∀ f ∈ w.underway, f.number ≠ number) ∧
    (∀ turn, ∃ new, (w.take turn).past = w.past ++ new ∧
      ∀ e ∈ new, ∀ screen, e.released? = some screen → screen ∉ (w.take turn).cache.inFlight) ∧
    (∀ screen, w.cache.contexts.contains screen = w.cache.pools.contains screen) ∧
    ∀ screen data, w.cache.contexts.get? screen = some data → Table.Sorted data ∧
      w.cache.pools.get? screen = some (data.flatMap fun e => e.2.array?.getD []) := by
  intro w
  have h : w.Sound := Sound.run state turns
  refine ⟨⟨h.marked.mem_inFlight, h.marked.marks ▸ h.marked.screens, h.marked.screens⟩, ?_, ?_, ?_, ?_, ?_⟩
  · exact fun host r => take_call_eq_answer_iff.trans LiveCache.begins_refused_iff
  · exact fun e he number hnumber => (h.finished e he number hnumber).2
  · intro turn
    obtain ⟨new, hturn⟩ := happens_take w turn
    exact ⟨new, hturn.past, fun e he screen => h.marked.not_mem_of_released hturn he⟩
  · intro screen
    rw [Table.contains, Table.contains, h.pooled.pools, Option.isSome_map]
  · intro screen data hdata
    refine ⟨h.pooled.sorted screen data hdata, ?_⟩
    rw [h.pooled.pools, hdata, Option.map_some, pool_eq_flatMap]

/-- A screen with data is fetched again, and refused to a third fetch meanwhile. -/
theorem marks_and_tables_fetched_again :
    let host : FetchHost Fixtures :=
      { source := .ofOnLoad (.apiAction "/e" "r"), dispatcher := {}, endpoint := Fixtures.call }
    let w := LiveSystem.run { state := { responses := [("/e", .array [.int 1])] } }
      [.call host ⟨"s", false⟩, .goOn 0, .goOn 0, .call host ⟨"s", true⟩, .goOn 1]
    (∃ f ∈ w.underway, f.screen = "s") ∧
      w.take (.call host ⟨"s", true⟩) = w.answer "s" (.error (.alreadyFetching "s")) ∧
      w.cache.pools.get? "s" = some [.int 1] := by
  intro host w
  have hw : w.cache =
      ⟨[("s", [("env", .object []), ("r", .array [.int 1])])], [("s", [.int 1])], ["s"]⟩ := by
    simp only [w, host, LiveSystem.run, List.foldl, take, call, LiveCache.begin?, LiveCache.onLoad_apiAction]
    rfl
  obtain ⟨⟨hmarks, -, -⟩, hrefused, -, -, -, htables⟩ :=
    marks_and_tables (σ := Fixtures) { responses := [("/e", .array [.int 1])] }
      [.call host ⟨"s", false⟩, .goOn 0, .goOn 0, .call host ⟨"s", true⟩, .goOn 1]
  have hmark : "s" ∈ w.cache.inFlight := by
    rw [hw]
    exact List.mem_singleton_self _
  refine ⟨(hmarks "s").1 hmark, (hrefused host ⟨"s", true⟩).2 ⟨.inl rfl, hmark⟩, ?_⟩
  exact (htables "s" [("env", .object []), ("r", .array [.int 1])] (by rw [hw]; rfl)).2

end LiveSystem

end ViewEngine
