import ViewEngine.Proofs.Dispatch.Moves

/-!
# How often a dispatch sleeps

Whatever the endpoint answers, a dispatch sleeps no more often than its action allows
(`dispatch_sleepsAtMost`): once before each step of a sequence, and once between two attempts of a call.
So it is known beforehand after how many wakes a dispatch has ended.
-/

namespace ViewEngine

variable {α β σ : Type}

namespace Program

/-- For any answers, the program sleeps at most so often. -/
def SleepsAtMost : Program α → Nat → Prop
  | done _, _ => True
  | fault _, _ => True
  | report _ next, bound => next.SleepsAtMost bound
  | call _ _ next, bound => ∀ answer, (next answer).SleepsAtMost bound
  | sleep _ _, 0 => False
  | sleep _ next, bound + 1 => next.SleepsAtMost bound

variable {p : Program α} {bound more : Nat}

theorem SleepsAtMost.mono (h : p.SleepsAtMost bound) (hle : bound ≤ more) : p.SleepsAtMost more := by
  induction p generalizing bound more with
  | done a => trivial
  | fault e => trivial
  | report intent next ih => exact ih h hle
  | call name params next ih => exact fun answer => ih answer (h answer) hle
  | sleep ms next ih =>
    cases bound with
    | zero => exact h.elim
    | succ bound =>
      cases more with
      | zero => exact absurd hle (Nat.not_succ_le_zero bound)
      | succ more => exact ih h (Nat.le_of_succ_le_succ hle)

theorem SleepsAtMost.bind {f : α → Program β} (h : p.SleepsAtMost bound)
    (hnext : ∀ a, (f a).SleepsAtMost more) : (p.bind f).SleepsAtMost (bound + more) := by
  induction p generalizing bound with
  | done a => exact (hnext a).mono (Nat.le_add_left more bound)
  | fault e => trivial
  | report intent next ih => exact ih h
  | call name params next ih => exact fun answer => ih answer (h answer)
  | sleep ms next ih =>
    cases bound with
    | zero => exact h.elim
    | succ bound =>
      rw [Nat.succ_add]
      exact ih h

/-- Where a program has come to a sleep, it has one sleep less before it. -/
theorem SleepsAtMost.advance (h : p.SleepsAtMost bound) {endpoint : Endpoint σ} {s : σ} {ms : Nat}
    {rest : Program α} (hpause : (p.advance endpoint s).2.2 = .asleep ms rest) :
    ∃ left, bound = left + 1 ∧ rest.SleepsAtMost left := by
  induction p generalizing s with
  | done a => cases hpause
  | fault e => cases hpause
  | report intent next ih => exact ih h hpause
  | call name params next ih => exact ih _ (h _) hpause
  | sleep ms next ih =>
    cases hpause
    cases bound with
    | zero => exact h.elim
    | succ left => exact ⟨left, rfl, h⟩

end Program

namespace Dispatcher

variable (d : Dispatcher)

/-- A call sleeps between two attempts only. -/
theorem request_sleepsAtMost (name : String) (params : Table String) (resultKey : Option String) (c : Context)
    (attempts : Nat) : (d.request name params resultKey c attempts).SleepsAtMost attempts := by
  induction attempts with
  | zero => trivial
  | succ left ih =>
    intro answer
    cases answer with
    | ok j => trivial
    | error e =>
      by_cases hleft : left = 0
      · simp only [if_pos hleft]
        trivial
      · simp only [if_neg hleft]
        exact ih

theorem perform_sleepsAtMost (leaf : Action) (c : Context) :
    (d.perform leaf c).SleepsAtMost d.attempts := by
  have hleaf := d.performs_perform leaf c
  generalize d.perform leaf c = p at hleaf
  cases hleaf with
  | fault | idle | report | write => trivial
  | request => exact d.request_sleepsAtMost _ _ _ _ _

mutual

/-- However its sequences are nested, an action sleeps no more often than it may. -/
theorem dispatch_sleepsAtMost : (a : Action) → (c : Context) →
    (d.dispatch a c).SleepsAtMost (a.maxSleeps d.attempts)
  | ⟨type, screen, params, name, resultKey, key, value, event, payload, actions, binding⟩, c => by
    simp only [dispatch, Action.maxSleeps]
    split
    · exact (dispatchSteps_sleepsAtMost actions c).mono (Nat.le_add_left _ _)
    · exact (d.perform_sleepsAtMost _ c).mono (Nat.le_add_right _ _)

theorem dispatchSteps_sleepsAtMost : (actions : Option (List Action)) → (c : Context) →
    (d.dispatchSteps actions c).SleepsAtMost (Action.maxStepSleeps d.attempts actions)
  | none, _ => trivial
  | some actions, c => dispatchAll_sleepsAtMost true actions c

theorem dispatchAll_sleepsAtMost (isFirst : Bool) : (actions : List Action) → (c : Context) →
    (d.dispatchAll isFirst actions c).SleepsAtMost (Action.maxListSleeps d.attempts actions)
  | [], _ => trivial
  | a :: rest, c => by
    have hstep := (dispatch_sleepsAtMost a c).bind (dispatchAll_sleepsAtMost false rest)
    rw [Action.maxListSleeps, Nat.add_assoc, Nat.add_comm]
    cases isFirst with
    | true => exact hstep.mono (Nat.le_succ _)
    | false => exact hstep

end

end Dispatcher

end ViewEngine
