import ViewEngine.Proofs.Dispatch.Moves

/-!
# Results of a dispatch

A dispatch only ever writes to its context, whatever the endpoint answers. So what every write keeps holds
of the context that a dispatch returns (`dispatch_returns`), also when other runs take turns with it and
the endpoint answers each call from another state.
-/

namespace ViewEngine

variable {α β : Type}

namespace Program

/-- Every result that the program can come to, for any answers, is in `P`. -/
def Returns (P : α → Prop) : Program α → Prop
  | done a => P a
  | fault _ => True
  | report _ next => next.Returns P
  | call _ _ next => ∀ answer, (next answer).Returns P
  | sleep _ next => next.Returns P

variable {P : α → Prop} {Q : β → Prop}

theorem Returns.bind {p : Program α} {f : α → Program β} (h : p.Returns P)
    (hnext : ∀ a, P a → (f a).Returns Q) : (p.bind f).Returns Q := by
  induction p with
  | done a => exact hnext a h
  | fault e => trivial
  | report intent next ih => exact ih h
  | call name params next ih => exact fun answer => ih answer (h answer)
  | sleep ms next ih => exact ih h

end Program

namespace Dispatcher

variable (d : Dispatcher) {P : Context → Prop} {c : Context}

theorem request_returns (hset : ∀ c key v, P c → P (c.set key v)) (hc : P c) (name : String)
    (params : Table String) (resultKey : Option String) (attempts : Nat) :
    (d.request name params resultKey c attempts).Returns P := by
  induction attempts with
  | zero => exact hc
  | succ left ih =>
    intro answer
    cases answer with
    | ok j =>
      cases resultKey with
      | none => exact hc
      | some key => exact hset c key _ hc
    | error e =>
      by_cases hleft : left = 0
      · simp only [if_pos hleft]
        exact hc
      · simp only [if_neg hleft]
        exact ih

theorem perform_returns (hset : ∀ c key v, P c → P (c.set key v)) (hc : P c) (leaf : Action) :
    (d.perform leaf c).Returns P := by
  have hleaf := d.performs_perform leaf c
  generalize d.perform leaf c = p at hleaf
  cases hleaf with
  | fault => trivial
  | idle | report => exact hc
  | request => exact d.request_returns hset hc _ _ _ _
  | write => exact hset c _ _ hc

/-- What every write keeps, every dispatch keeps. -/
theorem dispatch_returns (hset : ∀ c key v, P c → P (c.set key v)) (hc : P c) (a : Action) :
    (d.dispatch a c).Returns P := by
  rw [dispatch_eq_follow]
  induction a.moves generalizing c with
  | nil => exact hc
  | cons move rest ih =>
    cases move with
    | pause => exact ih hc
    | perform leaf => exact (d.perform_returns hset hc leaf).bind fun _ h => ih h

end Dispatcher

end ViewEngine
