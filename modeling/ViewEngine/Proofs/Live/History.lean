import ViewEngine.Proofs.Live.Marks

/-!
# What the cache serves

The data that a cache has for a screen are told by its past: those of the last fetch of the screen that
ended with data, unless the screen was invalidated after it (`serves_last_fetched`). An invalidation takes
the data away, but not the fetches that are under way: what such a fetch leaves later is served again
(`served_after_invalidation`).
-/

namespace ViewEngine

namespace LiveEvent

/-- What the cache has for a screen after the event, where the event changes it. -/
def held? (screen : String) : LiveEvent → Option (Option Fields)
  | .ended _ other (.fetched data) => if other = screen then some (some data) else none
  | .invalidated other => if other = screen then some none else none
  | .invalidatedAll => some none
  | _ => none

/-- What the last of the events that change it leaves for a screen. -/
def lastHeld? (screen : String) (past : List LiveEvent) : Option (Option Fields) :=
  past.reverse.findSome? (held? screen)

variable {screen : String}

theorem lastHeld?_append (past new : List LiveEvent) :
    lastHeld? screen (past ++ new) = (lastHeld? screen new).or (lastHeld? screen past) := by
  rw [lastHeld?, List.reverse_append, List.findSome?_append]
  rfl

theorem lastHeld?_eq_some_iff {past : List LiveEvent} {held : Option Fields} :
    lastHeld? screen past = some held ↔ ∃ before e after, past = before ++ e :: after ∧
      e.held? screen = some held ∧ ∀ later ∈ after, later.held? screen = none := by
  rw [lastHeld?, List.findSome?_eq_some_iff]
  constructor
  · rintro ⟨after, e, before, hpast, hheld, hafter⟩
    refine ⟨before.reverse, e, after.reverse, ?_, hheld, by simpa using hafter⟩
    rw [List.reverse_eq_iff] at hpast
    simpa using hpast
  · rintro ⟨before, e, after, rfl, hheld, hafter⟩
    exact ⟨after.reverse, e, before.reverse, by simp, hheld, by simpa using hafter⟩

/-- Only a fetch leaves data. -/
theorem held?_eq_some_some_iff {e : LiveEvent} {data : Fields} :
    e.held? screen = some (some data) ↔ ∃ number, e = .ended number screen (.fetched data) := by
  constructor
  · intro h
    unfold held? at h
    split at h <;> simp_all
  · rintro ⟨number, rfl⟩
    exact if_pos rfl

end LiveEvent

namespace LiveSystem

open LiveEvent (held? lastHeld? lastHeld?_append lastHeld?_eq_some_iff held?_eq_some_some_iff)

variable {σ : Type} {w w' : LiveSystem σ} {turn : Turn σ} {new : List LiveEvent}

namespace Happens

/-- The data of a screen after a turn, by what has happened in it. -/
theorem contexts (h : w.Happens turn new w') (screen : String) :
    w'.cache.contexts.get? screen = (lastHeld? screen new).getD (w.cache.contexts.get? screen) := by
  cases h with
  | @answered _ _ outcome hbegins =>
    cases outcome with
    | fetched data => exact absurd rfl (hbegins.ne_fetched data)
    | cached | error => rfl
  | missed => rfl
  | began | faulted | dropped => rfl
  | wentOn _ hstep => cases hstep <;> rfl
  | @completed f =>
    simp only [complete, LiveCache.finish, Table.get?_insert, lastHeld?, List.reverse_singleton,
      List.findSome?_singleton, held?]
    split <;> rfl
  | invalidated =>
    simp only [LiveCache.invalidate, Table.get?_erase, lastHeld?, List.reverse_singleton,
      List.findSome?_singleton, held?]
    split <;> rfl
  | invalidatedAll => rfl

/-- A fetch is served from the cache only when it is called, and the turn does nothing else. -/
theorem of_cached (h : w.Happens turn new w') {number : Nat} {screen : String} {data : Fields}
    (he : .ended number screen (.cached data) ∈ new) :
    ∃ host r, turn = .call host r ∧ r.screen = screen ∧ r.force = false ∧
      w.cache.contexts.get? screen = some data ∧ w' = w.answer screen (.cached data) := by
  cases h with
  | @answered host r outcome hbegins =>
    cases List.mem_singleton.1 he
    obtain ⟨hforce, hdata⟩ := LiveCache.begins_cached_iff.1 hbegins
    exact ⟨host, r, rfl, rfl, hforce, hdata, rfl⟩
  | began | completed | faulted | dropped | invalidated | invalidatedAll =>
    cases List.mem_singleton.1 he
  | missed => cases he
  | wentOn _ hstep => cases hstep <;> cases List.mem_singleton.1 he

/-- A fetch that ends with an error has changed nothing in the cache. -/
theorem of_error (h : w.Happens turn new w') {number : Nat} {screen : String} {reason : FetchError}
    (he : .ended number screen (.error reason) ∈ new) : w'.cache = w.cache := by
  cases h with
  | answered => rfl
  | began | completed | faulted | dropped | invalidated | invalidatedAll =>
    cases List.mem_singleton.1 he
  | missed => cases he
  | wentOn _ hstep => cases hstep <;> cases List.mem_singleton.1 he

/-- A fetch that ends with data was under way, and stores them for its screen. -/
theorem of_fetched (h : w.Happens turn new w') {number : Nat} {screen : String} {data : Fields}
    (he : .ended number screen (.fetched data) ∈ new) :
    w'.cache = w.cache.finish screen data ∧ ∃ f ∈ w.underway, f.number = number ∧ f.screen = screen := by
  cases h with
  | answered _ hbegins =>
    cases List.mem_singleton.1 he
    exact absurd rfl (hbegins.ne_fetched data)
  | completed hf =>
    cases List.mem_singleton.1 he
    exact ⟨rfl, _, hf, rfl, rfl⟩
  | began | faulted | dropped | invalidated | invalidatedAll => cases List.mem_singleton.1 he
  | missed => cases he
  | wentOn _ hstep => cases hstep <;> cases List.mem_singleton.1 he

/-- A fetch that is under way after a turn was so before it, or it has begun in the turn. -/
theorem underway (h : w.Happens turn new w') {g : FetchUnderway σ} (hg : g ∈ w'.underway) :
    (∃ f ∈ w.underway, f.number = g.number ∧ f.screen = g.screen) ∨ .began g.number g.screen ∈ new := by
  cases h with
  | began =>
    rcases List.mem_cons.1 hg with rfl | hg
    · exact .inr (List.mem_singleton_self _)
    · exact .inl ⟨g, hg, rfl, rfl⟩
  | answered | missed | invalidated | invalidatedAll => exact .inl ⟨g, hg, rfl, rfl⟩
  | wentOn =>
    obtain ⟨f, hf, rfl⟩ := List.mem_map.1 hg
    refine .inl ⟨f, hf, ?_⟩
    split <;> exact ⟨rfl, rfl⟩
  | completed | faulted | dropped => exact .inl ⟨g, (List.mem_filter.1 hg).1, rfl, rfl⟩

end Happens

/-- The fetch was under way at the start, or it has begun since. -/
def Begun (start : LiveSystem σ) (new : List LiveEvent) (number : Nat) (screen : String) : Prop :=
  (∃ f ∈ start.underway, f.number = number ∧ f.screen = screen) ∨ .began number screen ∈ new

theorem Begun.append {start : LiveSystem σ} {number : Nat} {screen : String}
    (h : start.Begun new number screen) (more : List LiveEvent) : start.Begun (new ++ more) number screen :=
  h.imp_right (List.mem_append_left more)

/-- What the events since a start tell: which data there are now, and whence the fetches come that are
under way or have ended with data. -/
structure Since (start : LiveSystem σ) (new : List LiveEvent) (w : LiveSystem σ) : Prop where
  past : w.past = start.past ++ new
  contexts : ∀ screen, w.cache.contexts.get? screen =
    (lastHeld? screen new).getD (start.cache.contexts.get? screen)
  underway : ∀ f ∈ w.underway, start.Begun new f.number f.screen
  fetched : ∀ number screen data, .ended number screen (.fetched data) ∈ new → start.Begun new number screen

namespace Since

variable {start : LiveSystem σ}

theorem refl (start : LiveSystem σ) : start.Since [] start where
  past := (List.append_nil _).symm
  contexts _ := rfl
  underway f hf := .inl ⟨f, hf, rfl, rfl⟩
  fetched _ _ _ he := nomatch he

theorem happens (h : start.Since new w) {more : List LiveEvent} (hturn : w.Happens turn more w') :
    start.Since (new ++ more) w' where
  past := by rw [hturn.past, h.past, List.append_assoc]
  contexts screen := by
    rw [hturn.contexts, h.contexts, lastHeld?_append]
    cases lastHeld? screen more <;> rfl
  underway g hg := by
    rcases hturn.underway hg with ⟨f, hf, hnumber, hscreen⟩ | hbegan
    · exact hnumber ▸ hscreen ▸ (h.underway f hf).append more
    · exact .inr (List.mem_append_right new hbegan)
  fetched number screen data he := by
    rcases List.mem_append.1 he with he | he
    · exact (h.fetched number screen data he).append more
    · obtain ⟨-, f, hf, rfl, rfl⟩ := hturn.of_fetched he
      exact (h.underway f hf).append more

theorem run (w : LiveSystem σ) (turns : List (Turn σ)) : ∃ new, w.Since new (w.run turns) := by
  refine run_induction (P := fun w' => ∃ new, w.Since new w') ?_ ⟨[], refl w⟩ turns
  rintro w₁ turn more w₂ ⟨new, h⟩ hturn
  exact ⟨new ++ more, h.happens hturn⟩

/-- Where there were no data at the start, data come from the last event that changes them. -/
theorem get?_eq_some_iff (h : start.Since new w) {screen : String}
    (hstart : start.cache.contexts.get? screen = none) (data : Fields) :
    w.cache.contexts.get? screen = some data ↔ ∃ before number after,
      new = before ++ .ended number screen (.fetched data) :: after ∧
        ∀ e ∈ after, e.held? screen = none := by
  have hlast : w.cache.contexts.get? screen = some data ↔ lastHeld? screen new = some (some data) := by
    rw [h.contexts, hstart]
    cases lastHeld? screen new with
    | none => simp
    | some held => simp
  rw [hlast, lastHeld?_eq_some_iff]
  constructor
  · rintro ⟨before, e, after, hnew, hheld, hafter⟩
    obtain ⟨number, rfl⟩ := held?_eq_some_some_iff.1 hheld
    exact ⟨before, number, after, hnew, hafter⟩
  · rintro ⟨before, number, after, hnew, hafter⟩
    exact ⟨before, _, after, hnew, held?_eq_some_some_iff.2 ⟨number, rfl⟩, hafter⟩

end Since

/-- **What is served.** After any turns a screen has data exactly if a fetch of it ended with them and
nothing has changed them since, neither a later fetch of the screen nor an invalidation. A fetch is
answered with them exactly if it is called without force: at once, so that no endpoint is called, nothing
sleeps and the cache stays as it is, also while another fetch of the screen is under way. A fetch that
ends with an error changes nothing in the cache, and one that ends with new data changes the data and the
pool of its own screen only. -/
theorem serves_last_fetched (state : σ) (turns : List (Turn σ)) :
    let w := LiveSystem.run { state } turns
    (∀ screen data, w.cache.contexts.get? screen = some data ↔ ∃ before number after,
      w.past = before ++ .ended number screen (.fetched data) :: after ∧
        ∀ e ∈ after, e.held? screen = none) ∧
    (∀ host r data, w.take (.call host r) = w.answer r.screen (.cached data) ↔
      r.force = false ∧ w.cache.contexts.get? r.screen = some data) ∧
    ∀ turn, ∃ new, (w.take turn).past = w.past ++ new ∧
      (∀ number screen data, .ended number screen (.cached data) ∈ new → ∃ host r,
        turn = .call host r ∧ r.screen = screen ∧ w.take turn = w.answer screen (.cached data)) ∧
      (∀ number screen reason, .ended number screen (.error reason) ∈ new →
        (w.take turn).cache = w.cache) ∧
      ∀ number screen data, .ended number screen (.fetched data) ∈ new →
        (w.take turn).cache.contexts.get? screen = some data ∧
        (w.take turn).cache.pools.get? screen = some (LiveCache.pool data) ∧
        ∀ other, other ≠ screen →
          (w.take turn).cache.contexts.get? other = w.cache.contexts.get? other ∧
          (w.take turn).cache.pools.get? other = w.cache.pools.get? other := by
  intro w
  obtain ⟨past, h⟩ := Since.run { state } turns
  obtain rfl : w.past = past := h.past
  refine ⟨fun screen => h.get?_eq_some_iff rfl, ?_, fun turn => ?_⟩
  · exact fun host r data => take_call_eq_answer_iff.trans LiveCache.begins_cached_iff
  · obtain ⟨new, hturn⟩ := happens_take w turn
    refine ⟨new, hturn.past, fun number screen data he => ?_, fun number screen reason he => ?_,
      fun number screen data he => ?_⟩
    · obtain ⟨host, r, hcall, hscreen, -, -, hanswer⟩ := hturn.of_cached he
      exact ⟨host, r, hcall, hscreen, hanswer⟩
    · exact hturn.of_error he
    · rw [(hturn.of_fetched he).1]
      refine ⟨Table.get?_insert_self _ _ _, Table.get?_insert_self _ _ _, fun other hother => ?_⟩
      exact ⟨Table.get?_insert_of_ne _ _ hother.symm, Table.get?_insert_of_ne _ _ hother.symm⟩

/-- While a screen with data is fetched again, another fetch of it is served. -/
theorem serves_last_fetched_meanwhile :
    let host : FetchHost Fixtures :=
      { source := .ofOnLoad (.apiAction "/e" "r"), dispatcher := {}, endpoint := Fixtures.call }
    let w := LiveSystem.run { state := { responses := [("/e", .int 1)] } }
      [.call host ⟨"s", false⟩, .goOn 0, .goOn 0, .call host ⟨"s", true⟩, .goOn 1]
    w.cache.inFlight = ["s"] ∧
      w.take (.call host ⟨"s", false⟩) =
        w.answer "s" (.cached [("env", .object []), ("r", .int 1)]) := by
  intro host w
  obtain ⟨hdata, hserved, -⟩ := serves_last_fetched (σ := Fixtures) { responses := [("/e", .int 1)] }
    [.call host ⟨"s", false⟩, .goOn 0, .goOn 0, .call host ⟨"s", true⟩, .goOn 1]
  have hcache : w.cache.inFlight = ["s"] := by
    simp only [w, host, LiveSystem.run, List.foldl, take, call, LiveCache.begin?, LiveCache.onLoad_apiAction]
    rfl
  have hpast : w.past = [.began 0 "s", .seen 0 (.call "/e" [] none)] ++
      .ended 0 "s" (.fetched [("env", .object []), ("r", .int 1)]) ::
        [.began 1 "s", .seen 1 (.call "/e" [] none)] := by
    simp only [w, host, LiveSystem.run, List.foldl, take, call, LiveCache.begin?, LiveCache.onLoad_apiAction]
    rfl
  refine ⟨hcache, (hserved host ⟨"s", false⟩ _).2 ⟨rfl, (hdata "s" _).2 ⟨_, _, _, hpast, ?_⟩⟩⟩
  simp [held?]

/-! ## After an invalidation -/

/-- The data were left, among the events, by a fetch that was under way at the start or has begun since. -/
def LeftSince (start : LiveSystem σ) (new : List LiveEvent) (screen : String) (data : Fields) : Prop :=
  ∃ number, .ended number screen (.fetched data) ∈ new ∧ start.Begun new number screen

theorem Since.leftSince {start : LiveSystem σ} (h : start.Since new w) {screen : String}
    (hstart : start.cache.contexts.get? screen = none) {data : Fields}
    (hdata : w.cache.contexts.get? screen = some data) : start.LeftSince new screen data := by
  obtain ⟨before, number, after, hnew, -⟩ := (h.get?_eq_some_iff hstart data).1 hdata
  have he : .ended number screen (.fetched data) ∈ new := by simp [hnew]
  exact ⟨number, he, h.fetched number screen data he⟩

/-- An invalidation takes the data of the screen away. -/
theorem get?_take_invalidate (w : LiveSystem σ) {turn : Turn σ} {screen : String}
    (hturn : turn = .invalidate screen ∨ turn = .invalidateAll) :
    (w.take turn).cache.contexts.get? screen = none := by
  rcases hturn with rfl | rfl
  · simp only [take, LiveCache.invalidate, Table.get?_erase, if_true]
  · rfl

/-- **After an invalidation.** Whatever the cache serves of a screen later, as a fetch, as the cached data
or as items, was left by a fetch of the screen that has ended since then; and this has begun since then,
too, if no fetch of the screen was under way at the invalidation. -/
theorem served_after_invalidation (state : σ) (turns more : List (Turn σ)) (turn : Turn σ) (screen : String)
    (hturn : turn = .invalidate screen ∨ turn = .invalidateAll) :
    let w := (LiveSystem.run { state } turns).take turn
    let w' := w.run more
    ∃ new, w'.past = w.past ++ new ∧
      (∀ host r data, r.screen = screen → w'.take (.call host r) = w'.answer screen (.cached data) →
        w.LeftSince new screen data) ∧
      (∀ c, w'.cache.context? screen = some c → w.LeftSince new screen c.own) ∧
      (w'.cache.items screen ≠ [] → ∃ data, w'.cache.items screen = LiveCache.pool data ∧
        w.LeftSince new screen data) ∧
      (screen ∉ w.cache.inFlight → ∀ data, w.LeftSince new screen data →
        ∃ number, .began number screen ∈ new ∧ .ended number screen (.fetched data) ∈ new) := by
  intro w w'
  have hw : w.Sound := (Sound.run state turns).happens (happens_take _ turn).choose_spec
  have hw' : w'.Sound := run_induction (fun _ _ _ _ h => h.happens) hw more
  have hnone : w.cache.contexts.get? screen = none := get?_take_invalidate _ hturn
  obtain ⟨new, h⟩ := Since.run w more
  refine ⟨new, h.past, ?_, ?_, ?_, ?_⟩
  · rintro host r data rfl hserved
    exact h.leftSince hnone (LiveCache.begins_cached_iff.1 (take_call_eq_answer_iff.1 hserved)).2
  · intro c hc
    obtain ⟨data, hdata, rfl⟩ := Option.map_eq_some_iff.1 hc
    exact h.leftSince hnone hdata
  · intro hitems
    rw [LiveCache.items, hw'.pooled.pools] at hitems ⊢
    cases hdata : w'.cache.contexts.get? screen with
    | none => simp [hdata] at hitems
    | some data => exact ⟨data, rfl, h.leftSince hnone hdata⟩
  · rintro hfree data ⟨number, hended, ⟨f, hf, -, hscreen⟩ | hbegan⟩
    · exact absurd ((hw.marked.mem_inFlight screen).2 ⟨f, hf, hscreen⟩) hfree
    · exact ⟨number, hbegan, hended⟩

/-- A screen is fetched again after its invalidation, and served. -/
theorem served_after_invalidation_again :
    let host : FetchHost Fixtures :=
      { source := .ofOnLoad (.apiAction "/e" "r"), dispatcher := {}, endpoint := Fixtures.call }
    let w := (LiveSystem.run { state := { responses := [("/e", .int 1)] } }
      [.call host ⟨"s", false⟩, .goOn 0, .goOn 0]).take (.invalidate "s")
    let w' := w.run [.call host ⟨"s", false⟩, .goOn 1, .goOn 1]
    w'.cache.context? "s" = some { own := [("env", .object []), ("r", .int 1)] } ∧
      ∃ new, w'.past = w.past ++ new ∧
        ∃ number, .began number "s" ∈ new ∧
          .ended number "s" (.fetched [("env", .object []), ("r", .int 1)]) ∈ new := by
  intro host w w'
  have hfree : "s" ∉ w.cache.inFlight := by
    have hmarks : w.cache.inFlight = [] := by
      simp only [w, host, LiveSystem.run, List.foldl, take, call, LiveCache.begin?,
        LiveCache.onLoad_apiAction]
      rfl
    simp [hmarks]
  have hcontext : w'.cache.context? "s" = some { own := [("env", .object []), ("r", .int 1)] } := by
    simp only [w', w, host, LiveSystem.run, List.foldl, take, call, LiveCache.begin?,
      LiveCache.onLoad_apiAction]
    rfl
  obtain ⟨new, hpast, -, hleft, -, hbegan⟩ := served_after_invalidation (σ := Fixtures)
    { responses := [("/e", .int 1)] } [.call host ⟨"s", false⟩, .goOn 0, .goOn 0]
    [.call host ⟨"s", false⟩, .goOn 1, .goOn 1] (.invalidate "s") "s" (.inl rfl)
  exact ⟨hcontext, new, hpast, hbegan hfree _ (hleft _ hcontext)⟩

/-- A fetch whose endpoint has answered is invalidated in the pause of its sequence. It leaves what was
answered before, and just that is served from then on. -/
theorem served_after_invalidation_stale :
    let onLoad : Value := .object [("actionType", .string "sequence"),
      ("actions", .array [.apiAction "/e" "r", .object [("actionType", .string "dismiss")]])]
    let host : FetchHost Fixtures :=
      { source := .ofOnLoad onLoad, dispatcher := {}, endpoint := Fixtures.call }
    let w := LiveSystem.run { state := { responses := [("/e", .int 1)] } }
      [.call host ⟨"s", false⟩, .goOn 0]
    let w' := (w.take (.invalidate "s")).run [.goOn 0, .goOn 0]
    w.past = [.began 0 "s", .seen 0 (.call "/e" [] none)] ∧
      w'.past = w.past ++ [.invalidated "s", .slept 0 2000,
        .ended 0 "s" (.fetched [("env", .object []), ("r", .int 1)])] ∧
      w'.take (.call host ⟨"s", false⟩) =
        w'.answer "s" (.cached [("env", .object []), ("r", .int 1)]) := by
  intro onLoad host w w'
  have htabled : onLoad.IsTabled := by
    have hkeys : ["actionType", "actions"].Pairwise (· < ·) := by decide
    refine Value.isTabled_object.2 ⟨List.pairwise_map.1 hkeys, ?_⟩
    simp [Value.isTabled_array, Value.isTabled_string, Value.isTabled_apiAction, Value.isTabled_object,
      Table.sorted_cons, Table.sorted_nil]
  have haction : Action.ofValue? onLoad = some
      { type := "sequence"
        actions := some
          [{ type := "api", endpoint := some "/e", resultKey := some "r" }, { type := "dismiss" }] } := by
    simp [onLoad, Action.ofValue?, Value.apiAction, Value.toJson, Value.toJsonMembers, Value.toJsonItems,
      Action.ofJson?, Action.ofMembers?, Action.put?, Action.ofList?, Json.fill?, Json.optional?, Json.text?,
      Action.Draft.action?]
  have hback : onLoad.ReadsBack := by
    simp [onLoad, Value.ReadsBack, Value.apiAction, Value.parts, Value.fieldParts, Value.itemParts]
  have hload (screen : String) : LiveCache.onLoad host.source screen = _ :=
    LiveCache.onLoad_ofOnLoad (Value.firstNonFinite?_eq_none onLoad |>.1 rfl) htabled (by decide) hback haction
      screen
  refine ⟨?_, ?_, ?_⟩
  · simp only [w, LiveSystem.run, List.foldl, take, call, LiveCache.begin?, hload]
    rfl
  · simp only [w', w, LiveSystem.run, List.foldl, take, call, LiveCache.begin?, hload]
    rfl
  · simp only [w', w, LiveSystem.run, List.foldl, take, call, LiveCache.begin?, hload]
    rfl

end LiveSystem

end ViewEngine
