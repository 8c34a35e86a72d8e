import ViewEngine.Live.Interleaving

/-!
# What a turn does

A fetch begins in one of four ways (`LiveCache.Begins`), and a turn comes to one of nine things
(`LiveSystem.Happens`), each with the events that are told of it. What is shown of every turn is shown by
these cases, and of every run by induction on its turns; the definitions of the turns are not opened
again.
-/

namespace ViewEngine

namespace LiveCache

/-- The ways in which a fetch may begin. Only the last marks the screen; the others leave the cache as it
is. -/
inductive Begins (cache : LiveCache) (source : Source) (screen : String) (force : Bool) :
    LiveCache × Begun → Prop
  | cached {data : Fields} : force = false → cache.contexts.get? screen = some data →
      Begins cache source screen force (cache, .answered (.cached data))
  | refused : force = true ∨ cache.contexts.get? screen = none → screen ∈ cache.inFlight →
      Begins cache source screen force (cache, .answered (.error (.alreadyFetching screen)))
  | failed {e : FetchError} : force = true ∨ cache.contexts.get? screen = none → screen ∉ cache.inFlight →
      onLoad source screen = .error e → Begins cache source screen force (cache, .answered (.error e))
  | started {a : Action} : force = true ∨ cache.contexts.get? screen = none → screen ∉ cache.inFlight →
      onLoad source screen = .ok a →
      Begins cache source screen force ({ cache with inFlight := screen :: cache.inFlight }, .started a)

theorem begins_begin? (cache : LiveCache) (source : Source) (screen : String) (force : Bool) :
    Begins cache source screen force (cache.begin? source screen force) := by
  have hunserved (hask : force = true ∨ cache.contexts.get? screen = none)
      (hnone : (if force then none else cache.contexts.get? screen) = none) :
      Begins cache source screen force (cache.begin? source screen force) := by
    simp only [begin?, hnone]
    split
    next hmark => exact .refused hask hmark
    next hmark =>
      split
      next hload => exact .failed hask hmark hload
      next hload => exact .started hask hmark hload
  cases force with
  | true => exact hunserved (.inl rfl) rfl
  | false =>
    cases hdata : cache.contexts.get? screen with
    | some data =>
      simp only [begin?, hdata, Bool.false_eq_true, if_false]
      exact .cached rfl hdata
    | none => exact hunserved (.inr hdata) hdata

/-- The ways tell all of a beginning. -/
theorem begins_iff {cache : LiveCache} {source : Source} {screen : String} {force : Bool}
    {begun : LiveCache × Begun} :
    Begins cache source screen force begun ↔ cache.begin? source screen force = begun := by
  constructor
  · intro h
    have hunserved (hask : force = true ∨ cache.contexts.get? screen = none) :
        (if force then none else cache.contexts.get? screen) = none := by
      split
      next => rfl
      next hforce => exact hask.resolve_left hforce
    cases h with
    | cached hforce hdata => simp only [begin?, hforce, hdata, Bool.false_eq_true, if_false]
    | refused hask hmark => simp only [begin?, hunserved hask, if_pos hmark]
    | failed hask hmark hload => simp only [begin?, hunserved hask, if_neg hmark, hload]
    | started hask hmark hload => simp only [begin?, hunserved hask, if_neg hmark, hload]
  · rintro rfl
    exact begins_begin? cache source screen force

/-- A screen that cannot be fetched is not said to be fetched already. -/
theorem onLoad_ne_alreadyFetching {source : Source} {screen other : String} :
    onLoad source screen ≠ .error (.alreadyFetching other) := by
  unfold onLoad
  split
  · simp
  · split <;> simp

/-- No fetch is answered at once with new data. -/
theorem Begins.ne_fetched {cache cache' : LiveCache} {source : Source} {screen : String} {force : Bool}
    {outcome : FetchOutcome} (h : Begins cache source screen force (cache', .answered outcome))
    (data : Fields) : outcome ≠ .fetched data := by
  cases h with
  | cached | refused | failed => exact nofun

theorem begins_cached_iff {cache : LiveCache} {source : Source} {screen : String} {force : Bool}
    {data : Fields} : Begins cache source screen force (cache, .answered (.cached data)) ↔
      force = false ∧ cache.contexts.get? screen = some data := by
  constructor
  · intro h
    generalize hbegun : (cache, Begun.answered (.cached data)) = begun at h
    cases h with
    | cached hforce hdata =>
      cases hbegun
      exact ⟨hforce, hdata⟩
    | refused | failed | started => simp at hbegun
  · exact fun h => .cached h.1 h.2

theorem begins_refused_iff {cache : LiveCache} {source : Source} {screen : String} {force : Bool} :
    Begins cache source screen force (cache, .answered (.error (.alreadyFetching screen))) ↔
      (force = true ∨ cache.contexts.get? screen = none) ∧ screen ∈ cache.inFlight := by
  constructor
  · intro h
    generalize hbegun : (cache, Begun.answered (.error (.alreadyFetching screen))) = begun at h
    cases h with
    | refused hask hmark => exact ⟨hask, hmark⟩
    | failed _ _ hload =>
      cases hbegun
      exact absurd hload onLoad_ne_alreadyFetching
    | cached | started => simp at hbegun
  · exact fun h => .refused h.1 h.2

end LiveCache

/-- A step that a dispatch takes between its beginning and its end: what is told of it, the rest of the
dispatch, and the state in which it leaves the endpoints. -/
inductive FetchUnderway.Steps {σ : Type} (f : FetchUnderway σ) (s : σ) :
    LiveEvent → Program Context → σ → Prop
  | report {intent : Intent} {next : Program Context} : f.rest = .report intent next →
      f.Steps s (.seen f.number (.intent intent)) next s
  | call {name : String} {params : Table String} {next : Except EndpointError Json → Program Context} :
      f.rest = .call name params next →
      f.Steps s (.seen f.number (.ofCall name params (f.endpoint s name params).1))
        (next (f.endpoint s name params).1) (f.endpoint s name params).2
  | sleep {ms : Nat} {next : Program Context} : f.rest = .sleep ms next →
      f.Steps s (.slept f.number ms) next s

namespace LiveSystem

variable {σ : Type}

/-- What a turn may come to: the events that are told of it, and the system after it. -/
inductive Happens (w : LiveSystem σ) : Turn σ → List LiveEvent → LiveSystem σ → Prop
  /-- A call is answered at once, and the cache stays as it is. -/
  | answered (host : FetchHost σ) {r : FetchRequest} {outcome : FetchOutcome} :
      LiveCache.Begins w.cache host.source r.screen r.force (w.cache, .answered outcome) →
      Happens w (.call host r) [.ended w.called r.screen outcome] (w.answer r.screen outcome)
  | began (host : FetchHost σ) {r : FetchRequest} {a : Action} :
      r.force = true ∨ w.cache.contexts.get? r.screen = none → r.screen ∉ w.cache.inFlight →
      LiveCache.onLoad host.source r.screen = .ok a →
      Happens w (.call host r) [.began w.called r.screen]
        ({ w with cache := { w.cache with inFlight := r.screen :: w.cache.inFlight } }.begin r.screen
          host.endpoint (host.dispatcher.dispatch a LiveCache.freshContext))
  /-- There is no fetch of this number under way. -/
  | missed {turn : Turn σ} {number : Nat} : turn = .goOn number ∨ turn = .drop number →
      (∀ f ∈ w.underway, f.number ≠ number) → Happens w turn [] w
  | wentOn {f : FetchUnderway σ} {rest : Program Context} {e : LiveEvent} {state : σ} : f ∈ w.underway →
      f.Steps w.state e rest state →
      Happens w (.goOn f.number) [e] ({ w with state }.continueWith f rest e)
  | completed {f : FetchUnderway σ} {c : Context} : f ∈ w.underway → f.rest = .done c →
      Happens w (.goOn f.number) [.ended f.number f.screen (.fetched c.own)] (w.complete f c.own)
  | faulted {f : FetchUnderway σ} {e : Fault} : f ∈ w.underway → f.rest = .fault e →
      Happens w (.goOn f.number) [.brokeOff f.number f.screen (some e)] (w.breakOff f (some e))
  | dropped {f : FetchUnderway σ} : f ∈ w.underway →
      Happens w (.drop f.number) [.brokeOff f.number f.screen none] (w.breakOff f none)
  | invalidated (screen : String) :
      Happens w (.invalidate screen) [.invalidated screen] { w with
        cache := w.cache.invalidate screen
        past := w.past ++ [.invalidated screen] }
  | invalidatedAll :
      Happens w .invalidateAll [.invalidatedAll] { w with
        cache := w.cache.invalidateAll
        past := w.past ++ [.invalidatedAll] }

theorem mem_of_find? {w : LiveSystem σ} {number : Nat} {f : FetchUnderway σ} (h : w.find? number = some f) :
    f ∈ w.underway ∧ f.number = number := by
  unfold find? at h
  exact ⟨List.mem_of_find?_eq_some h, by simpa using List.find?_some h⟩

theorem ne_of_find?_eq_none {w : LiveSystem σ} {number : Nat} (h : w.find? number = none) :
    ∀ f ∈ w.underway, f.number ≠ number := by
  simpa [find?] using h

theorem happens_call (w : LiveSystem σ) (host : FetchHost σ) (r : FetchRequest) :
    ∃ new, w.Happens (.call host r) new (w.call host r) := by
  have h := LiveCache.begins_begin? w.cache host.source r.screen r.force
  unfold call
  generalize w.cache.begin? host.source r.screen r.force = begun at h
  cases h with
  | cached hforce hdata => exact ⟨_, .answered host (.cached hforce hdata)⟩
  | refused hask hmark => exact ⟨_, .answered host (.refused hask hmark)⟩
  | failed hask hmark hload => exact ⟨_, .answered host (.failed hask hmark hload)⟩
  | started hask hmark hload => exact ⟨_, .began host hask hmark hload⟩

theorem happens_goOn {w : LiveSystem σ} {f : FetchUnderway σ} (hf : f ∈ w.underway) :
    ∃ new, w.Happens (.goOn f.number) new (w.goOn f) := by
  unfold goOn
  split
  next hrest => exact ⟨_, .completed hf hrest⟩
  next hrest => exact ⟨_, .faulted hf hrest⟩
  next hrest => exact ⟨_, .wentOn hf (.report hrest)⟩
  next hrest => exact ⟨_, .wentOn hf (.call hrest)⟩
  next hrest => exact ⟨_, .wentOn hf (.sleep hrest)⟩

theorem happens_take (w : LiveSystem σ) (turn : Turn σ) : ∃ new, w.Happens turn new (w.take turn) := by
  cases turn with
  | call host r => exact happens_call w host r
  | goOn number =>
    simp only [take]
    split
    next f hfind =>
      obtain ⟨hf, rfl⟩ := mem_of_find? hfind
      exact happens_goOn hf
    next hfind => exact ⟨_, .missed (.inl rfl) (ne_of_find?_eq_none hfind)⟩
  | drop number =>
    simp only [take]
    split
    next f hfind =>
      obtain ⟨hf, rfl⟩ := mem_of_find? hfind
      exact ⟨_, .dropped hf⟩
    next hfind => exact ⟨_, .missed (.inr rfl) (ne_of_find?_eq_none hfind)⟩
  | invalidate screen => exact ⟨_, .invalidated screen⟩
  | invalidateAll => exact ⟨_, .invalidatedAll⟩

/-- A turn adds its events to the past. -/
theorem Happens.past {w w' : LiveSystem σ} {turn : Turn σ} {new : List LiveEvent}
    (h : w.Happens turn new w') : w'.past = w.past ++ new := by
  cases h with
  | missed => exact (List.append_nil _).symm
  | answered | began | wentOn | completed | faulted | dropped | invalidated | invalidatedAll => rfl

theorem answer_inj {w : LiveSystem σ} {screen : String} {outcome outcome' : FetchOutcome} :
    w.answer screen outcome = w.answer screen outcome' ↔ outcome = outcome' := by
  simp [answer]

/-- A call is answered at once just as the cache answers it. -/
theorem take_call_eq_answer_iff {w : LiveSystem σ} {host : FetchHost σ} {r : FetchRequest}
    {outcome : FetchOutcome} : w.take (.call host r) = w.answer r.screen outcome ↔
      LiveCache.Begins w.cache host.source r.screen r.force (w.cache, .answered outcome) := by
  constructor
  · intro h
    obtain ⟨new, hnew⟩ := happens_call w host r
    rw [take] at h
    rw [h] at hnew
    generalize hw : w.answer r.screen outcome = w' at hnew
    cases hnew with
    | answered _ hbegins => rwa [answer_inj.1 hw]
    | began => simp [answer, begin] at hw
    | missed hturn => simp at hturn
  · intro h
    rw [LiveCache.begins_iff] at h
    simp only [take, call, h]

theorem run_append (w : LiveSystem σ) (turns more : List (Turn σ)) :
    w.run (turns ++ more) = (w.run turns).run more := List.foldl_append

/-- What every turn keeps, every run keeps. -/
theorem run_induction {P : LiveSystem σ → Prop}
    (hstep : ∀ w turn new w', P w → w.Happens turn new w' → P w') {w : LiveSystem σ} (h : P w)
    (turns : List (Turn σ)) : P (w.run turns) := by
  induction turns generalizing w with
  | nil => exact h
  | cons turn turns ih =>
    obtain ⟨new, hnew⟩ := happens_take w turn
    exact ih (hstep w turn new _ h hnew)

end LiveSystem

end ViewEngine
