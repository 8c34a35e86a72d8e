import ViewEngine.Proofs.Context.Faults
import ViewEngine.Proofs.Dispatch.Sleeps
import ViewEngine.Proofs.Live.Turns

/-!
# The clock goes on until all fetches have ended

Each time the clock goes on, some fetch wakes, and then has one sleep less before it. So the bound that
`fetchAll` puts on the wakes is never what ends it (`exists_of_fetchAll`): every fetch has an outcome in
the end.
-/

namespace ViewEngine

namespace Fetch

variable {σ : Type} {endpoint : Endpoint σ} {source : Source} {d : Dispatcher} {time bound : Nat}
  {world world' : FetchWorld σ} {fetch : Fetch} {fetches rest woken : List Fetch}

/-! ## One turn of the clock -/

/-- The first of some fetches wakes, or stays as it is, before the others. -/
theorem exists_of_wakeAll_cons (h : wakeAll endpoint time (fetch :: rest) world = .ok (world', woken)) :
    ∃ world₁ fetch' others,
      (world₁ = world ∧ fetch' = fetch ∧ (∀ screen p, fetch ≠ .asleep screen time p) ∨
        ∃ screen p, fetch = .asleep screen time p ∧
          resume endpoint time screen p world = .ok (world₁, fetch')) ∧
      wakeAll endpoint time rest world₁ = .ok (world', others) ∧ woken = fetch' :: others := by
  have hothers {world₁ : FetchWorld σ} {fetch' : Fetch}
      (h : (wakeAll endpoint time rest world₁ >>= fun others => pure (others.1, fetch' :: others.2)) =
        Except.ok (world', woken)) :
      ∃ others, wakeAll endpoint time rest world₁ = .ok (world', others) ∧ woken = fetch' :: others := by
    obtain ⟨⟨world₂, others⟩, hothers, h⟩ := exists_of_bind_eq_ok h
    cases h
    exact ⟨others, hothers, rfl⟩
  cases fetch with
  | ended outcome =>
    rw [wakeAll] at h
    obtain ⟨others, hrest⟩ := hothers h
    exact ⟨world, _, others, .inl ⟨rfl, rfl, fun _ _ hasleep => by cases hasleep⟩, hrest⟩
  | asleep screen wake p =>
    rw [wakeAll] at h
    split at h
    next hwake =>
      subst hwake
      obtain ⟨⟨world₁, fetch'⟩, hresume, h⟩ := exists_of_bind_eq_ok h
      obtain ⟨others, hrest⟩ := hothers h
      exact ⟨world₁, fetch', others, .inr ⟨screen, p, rfl, hresume⟩, hrest⟩
    next hwake =>
      obtain ⟨others, hrest⟩ := hothers h
      refine ⟨world, _, others, .inl ⟨rfl, rfl, fun _ _ hasleep => hwake ?_⟩, hrest⟩
      injection hasleep

/-- The clock goes on as long as a fetch is asleep. -/
theorem nextWake?_asleep_ne_none {screen : String} {wake : Nat} {p : Program Context} :
    nextWake? (.asleep screen wake p :: rest) ≠ none := by
  rw [nextWake?]
  split <;> exact Option.some_ne_none _

/-- Some fetch wakes when the clock goes on. -/
theorem mem_of_nextWake?_eq_some {wake : Nat} (h : nextWake? fetches = some wake) :
    ∃ screen p, .asleep screen wake p ∈ fetches := by
  induction fetches generalizing wake with
  | nil => cases h
  | cons fetch rest ih =>
    cases fetch with
    | ended outcome =>
      obtain ⟨screen, p, hmem⟩ := ih h
      exact ⟨screen, p, .tail _ hmem⟩
    | asleep screen wake' p =>
      rw [nextWake?] at h
      split at h
      next other hrest =>
        cases h
        rcases Nat.le_total wake' other with hle | hle
        · rw [Nat.min_eq_left hle]
          exact ⟨screen, p, .head _⟩
        · rw [Nat.min_eq_right hle]
          obtain ⟨screen', p', hmem⟩ := ih hrest
          exact ⟨screen', p', .tail _ hmem⟩
      next =>
        cases h
        exact ⟨screen, p, .head _⟩

/-! ## Wakes that are left -/

/-- The clock wakes the fetch at most so often. -/
def WakesAtMost : Fetch → Nat → Prop
  | ended _, _ => True
  | asleep _ _ _, 0 => False
  | asleep _ _ rest, bound + 1 => rest.SleepsAtMost bound

/-- The clock wakes the fetches at most so often in all. -/
inductive AllWakeAtMost : List Fetch → Nat → Prop
  | nil : AllWakeAtMost [] 0
  | cons {fetch : Fetch} {rest : List Fetch} {bound more : Nat} :
      fetch.WakesAtMost bound → AllWakeAtMost rest more → AllWakeAtMost (fetch :: rest) (bound + more)

theorem wakesAtMost_of_resume {screen : String} {p : Program Context}
    (h : resume endpoint time screen p world = .ok (world', fetch)) (hp : p.SleepsAtMost bound) :
    fetch.WakesAtMost bound := by
  unfold resume at h
  dsimp only at h
  split at h
  next => cases h
  next =>
    cases h
    trivial
  next ms rest hpause =>
    cases h
    obtain ⟨left, rfl, hrest⟩ := hp.advance hpause
    exact hrest

/-- What wakes has one wake less before it. -/
theorem allWakeAtMost_of_wakeAll (h : wakeAll endpoint time fetches world = .ok (world', woken))
    (hbound : AllWakeAtMost fetches bound) : ∃ left, AllWakeAtMost woken left ∧ left ≤ bound ∧
      ((∃ screen p, .asleep screen time p ∈ fetches) → left < bound) := by
  induction hbound generalizing world woken with
  | nil =>
    cases h
    exact ⟨0, .nil, Nat.le_refl 0, nofun⟩
  | @cons fetch rest bound more hfetch hrest ih =>
    obtain ⟨world₁, fetch', others, hfirst, hothers, rfl⟩ := exists_of_wakeAll_cons h
    obtain ⟨left, hleft, hle, hless⟩ := ih hothers
    rcases hfirst with ⟨rfl, rfl, hstays⟩ | ⟨screen, p, rfl, hresume⟩
    · refine ⟨bound + left, .cons hfetch hleft, Nat.add_le_add_left hle bound, ?_⟩
      rintro ⟨screen, p, hmem⟩
      rcases List.mem_cons.1 hmem with hhead | htail
      · exact absurd hhead.symm (hstays screen p)
      · exact Nat.add_lt_add_left (hless ⟨screen, p, htail⟩) bound
    · cases bound with
      | zero => exact hfetch.elim
      | succ bound =>
        have hlt : bound + left < bound + 1 + more := by omega
        exact ⟨bound + left, .cons (wakesAtMost_of_resume hresume hfetch) hleft, hlt.le, fun _ => hlt⟩

/-- Where no wake is left, all fetches have ended. -/
theorem AllWakeAtMost.nextWake?_eq_none (h : AllWakeAtMost fetches 0) : nextWake? fetches = none := by
  generalize hzero : 0 = bound at h
  induction h with
  | nil => rfl
  | @cons fetch rest bound more hfetch hrest ih =>
    obtain ⟨rfl, rfl⟩ : bound = 0 ∧ more = 0 := by omega
    cases fetch with
    | ended outcome => exact ih rfl
    | asleep screen wake p => exact hfetch.elim

/-- As many wakes as the fetches may need are enough. -/
theorem nextWake?_of_runAll {fuel time' : Nat} {fetches' : List Fetch}
    (h : runAll endpoint fuel time fetches world = .ok (world', fetches', time'))
    (hbound : AllWakeAtMost fetches bound) (hfuel : bound ≤ fuel) : nextWake? fetches' = none := by
  induction fuel generalizing time fetches world bound with
  | zero =>
    cases h
    obtain rfl : bound = 0 := Nat.le_zero.1 hfuel
    exact hbound.nextWake?_eq_none
  | succ fuel ih =>
    rw [runAll] at h
    split at h
    next hnone =>
      cases h
      exact hnone
    next wake hwake =>
      obtain ⟨⟨world₁, woken⟩, hwoken, h⟩ := exists_of_bind_eq_ok h
      obtain ⟨left, hleft, -, hless⟩ := allWakeAtMost_of_wakeAll hwoken hbound
      exact ih h hleft (Nat.le_of_lt_succ ((hless (mem_of_nextWake?_eq_some hwake)).trans_le hfuel))

/-- Fetches that have ended have an outcome each. -/
theorem map_outcome?_of_nextWake? (h : nextWake? fetches = none) :
    fetches.map outcome? = (fetches.filterMap outcome?).map some := by
  induction fetches with
  | nil => rfl
  | cons fetch rest ih =>
    cases fetch with
    | ended outcome => exact congrArg (some outcome :: ·) (ih h)
    | asleep screen wake p => exact absurd h nextWake?_asleep_ne_none

/-! ## From the beginning -/

/-- How often at most the fetch of a screen sleeps. -/
def maxSleeps (source : Source) (d : Dispatcher) (r : FetchRequest) : Nat :=
  match LiveCache.onLoad source r.screen with
  | .ok a => a.maxSleeps d.attempts
  | .error _ => 0

theorem maxFetchSleeps_eq_sum (source : Source) (d : Dispatcher) (requests : List FetchRequest) :
    maxFetchSleeps source d requests = (requests.map (maxSleeps source d)).sum := by
  have hfold (count : Nat) : requests.foldl (fun count r =>
      match LiveCache.onLoad source r.screen with
      | .ok a => count + a.maxSleeps d.attempts
      | .error _ => count) count = count + (requests.map (maxSleeps source d)).sum := by
    induction requests generalizing count with
    | nil => rfl
    | cons r rest ih =>
      rw [List.foldl_cons, ih, List.map_cons, List.sum_cons, ← Nat.add_assoc]
      refine congrArg (· + _) ?_
      unfold maxSleeps
      split <;> rfl
  exact (hfold 0).trans (Nat.zero_add _)

theorem wakesAtMost_of_start {r : FetchRequest} (h : start endpoint source d r world = .ok (world', fetch)) :
    fetch.WakesAtMost (maxSleeps source d r) := by
  unfold start at h
  split at h
  next =>
    cases h
    trivial
  next cache a hbegin =>
    cases LiveCache.begins_iff.2 hbegin with
    | started _ _ hload =>
      rw [maxSleeps, hload]
      exact wakesAtMost_of_resume h (d.dispatch_sleepsAtMost a _)

theorem allWakeAtMost_of_startAll {requests : List FetchRequest}
    (h : startAll endpoint source d requests world = .ok (world', fetches)) :
    AllWakeAtMost fetches (requests.map (maxSleeps source d)).sum := by
  induction requests generalizing world fetches with
  | nil =>
    cases h
    exact .nil
  | cons r rest ih =>
    obtain ⟨⟨world₁, fetch⟩, hfirst, h⟩ := exists_of_bind_eq_ok h
    obtain ⟨⟨world₂, others⟩, hothers, h⟩ := exists_of_bind_eq_ok h
    cases h
    exact .cons (wakesAtMost_of_start hfirst) (ih hothers)

end Fetch

/-- **The clock runs until all fetches have ended**, if none of them is at fault. -/
theorem exists_of_fetchAll {σ : Type} {endpoint : Endpoint σ} {source : Source} {d : Dispatcher}
    {requests : List FetchRequest} {cache : LiveCache} {state : σ} {world : FetchWorld σ}
    {outcomes : List FetchOutcome} {time : Nat}
    (h : fetchAll endpoint source d requests cache state = .ok (world, outcomes, time)) :
    ∃ world₁ fetches fetches',
      Fetch.startAll endpoint source d requests { cache, state } = .ok (world₁, fetches) ∧
      Fetch.runAll endpoint (maxFetchSleeps source d requests) 0 fetches world₁ =
        .ok (world, fetches', time) ∧
      outcomes = fetches'.filterMap Fetch.outcome? ∧ Fetch.nextWake? fetches' = none := by
  obtain ⟨⟨world₁, fetches⟩, hstart, h⟩ := exists_of_bind_eq_ok h
  obtain ⟨⟨world₂, fetches', time'⟩, hrun, h⟩ := exists_of_bind_eq_ok h
  cases h
  have hbound := Fetch.allWakeAtMost_of_startAll hstart
  rw [← Fetch.maxFetchSleeps_eq_sum] at hbound
  exact ⟨world₁, fetches, fetches', hstart, hrun, rfl,
    Fetch.nextWake?_of_runAll hrun hbound (Nat.le_refl _)⟩

end ViewEngine
