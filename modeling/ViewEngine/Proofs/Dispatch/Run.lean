import ViewEngine.Dispatch.Program

/-!
# Runs put together

The run of a program that goes on with a result is the run of its first part followed by the run of the
rest, from the time and the state of the endpoint at which the first part ended (`run_bind`). Times
only shift the entries of a log: a run from another time differs in nothing else
(`run_sameButTimes`).
-/

namespace ViewEngine

variable {α β σ : Type}

namespace Run

/-- A run followed by another one, which starts where it ended. A fault ends the whole. -/
def andThen (r : Run σ α) (next : α → Nat → σ → Run σ β) : Run σ β :=
  match r.result with
  | .ok a =>
    let q := next a r.time r.state
    { q with log := r.log ++ q.log }
  | .error f => ⟨r.log, r.time, r.state, .error f⟩

theorem andThen_cons (time : Nat) (entry : LogEntry) (r : Run σ α)
    (next : α → Nat → σ → Run σ β) :
    (r.cons time entry).andThen next = (r.andThen next).cons time entry := by
  obtain ⟨log, t, s, result⟩ := r
  cases result <;> rfl

theorem andThen_ok {r : Run σ α} {a : α} (h : r.result = .ok a) (next : α → Nat → σ → Run σ β) :
    r.andThen next = ⟨r.log ++ (next a r.time r.state).log, (next a r.time r.state).time,
      (next a r.time r.state).state, (next a r.time r.state).result⟩ := by
  simp [andThen, h]

theorem andThen_error {r : Run σ α} {f : Fault} (h : r.result = .error f)
    (next : α → Nat → σ → Run σ β) : r.andThen next = ⟨r.log, r.time, r.state, .error f⟩ := by
  simp [andThen, h]

theorem andThen_assoc {γ : Type} (r : Run σ α) (next : α → Nat → σ → Run σ β)
    (last : β → Nat → σ → Run σ γ) :
    (r.andThen next).andThen last = r.andThen fun a time s => (next a time s).andThen last := by
  obtain ⟨log, time, s, result⟩ := r
  cases result with
  | error f => rfl
  | ok a =>
    simp only [andThen]
    cases (next a time s).result <;> simp

/-- What was seen, without the times. -/
def entries (r : Run σ α) : List LogEntry := r.log.map (·.2)

/-- Two runs that differ at most in their times. -/
structure SameButTimes (r q : Run σ α) : Prop where
  entries : r.entries = q.entries
  state : r.state = q.state
  result : r.result = q.result

namespace SameButTimes

theorem cons {r q : Run σ α} (h : r.SameButTimes q) (t u : Nat) (entry : LogEntry) :
    (r.cons t entry).SameButTimes (q.cons u entry) :=
  ⟨congrArg (entry :: ·) h.entries, h.state, h.result⟩

theorem andThen {r q : Run σ α} {next last : α → Nat → σ → Run σ β} (h : r.SameButTimes q)
    (hnext : ∀ a t u s, (next a t s).SameButTimes (last a u s)) :
    (r.andThen next).SameButTimes (q.andThen last) := by
  obtain ⟨he, hs, hr⟩ := h
  cases hres : r.result with
  | error f =>
    rw [andThen_error hres, andThen_error (hr ▸ hres)]
    exact ⟨he, hs, rfl⟩
  | ok a =>
    have hn := hnext a r.time q.time r.state
    rw [andThen_ok hres, andThen_ok (hr ▸ hres), ← hs]
    refine ⟨?_, hn.state, hn.result⟩
    simp only [Run.entries, List.map_append] at he ⊢
    rw [he]
    exact congrArg (q.log.map (·.2) ++ ·) hn.entries

end SameButTimes

end Run

namespace Program

theorem bind_assoc {γ : Type} (p : Program α) (f : α → Program β) (g : β → Program γ) :
    (p.bind f).bind g = p.bind fun a => (f a).bind g := by
  induction p with
  | done a => rfl
  | fault e => rfl
  | report i next ih => simp only [bind, ih]
  | call name params next ih => simp only [bind, ih]
  | sleep ms next ih => simp only [bind, ih]

theorem bind_done (p : Program α) : p.bind done = p := by
  induction p with
  | done a => rfl
  | fault e => rfl
  | report i next ih => simp only [bind, ih]
  | call name params next ih => simp only [bind, ih]
  | sleep ms next ih => simp only [bind, ih]

variable (endpoint : Endpoint σ)

theorem run_bind (p : Program α) (f : α → Program β) (time : Nat) (s : σ) :
    (p.bind f).run endpoint time s =
      (p.run endpoint time s).andThen fun a => (f a).run endpoint := by
  induction p generalizing time s with
  | done a => rfl
  | fault e => rfl
  | report i next ih => simp only [bind, run, ih, Run.andThen_cons]
  | call name params next ih => simp only [bind, run, ih, Run.andThen_cons]
  | sleep ms next ih => simp only [bind, run, ih]

/-- Starting at another time changes nothing but the times. -/
theorem run_sameButTimes (p : Program α) (t u : Nat) (s : σ) :
    (p.run endpoint t s).SameButTimes (p.run endpoint u s) := by
  induction p generalizing t u s with
  | done a => exact ⟨rfl, rfl, rfl⟩
  | fault e => exact ⟨rfl, rfl, rfl⟩
  | report i next ih => exact (ih t u s).cons t u _
  | call name params next ih => exact (ih _ t u _).cons t u _
  | sleep ms next ih => exact ih (t + ms) (u + ms) s

end Program

end ViewEngine
