import ViewEngine.Proofs.Dispatch.Timing

/-!
# Calls of fixtures

Fixtures count the calls of each endpoint by itself, and whether a call fails hangs on that count alone.
What that says of a log is one relation between the fixtures before and after it (`Fixtures.Served`), which
holds of a call, of logs put together, and so of the run of any program (`run_served`).
-/

namespace ViewEngine

/-! ## Sums over a table -/

namespace Table

/-- What is stored under a key in place of `old` adds the difference to the sum. -/
theorem sum_values_insert {t : Table Nat} (h : Sorted t) (key : String) (n : Nat) :
    (t.insert key n).values.sum + (t.get? key).getD 0 = t.values.sum + n := by
  suffices hparts : (values (t.filter (·.1 < key))).sum + (t.get? key).getD 0 +
      (values (t.filter (key < ·.1))).sum = t.values.sum by
    simp only [values, insert, List.map_append, List.map_cons, List.sum_append, List.sum_cons] at hparts ⊢
    omega
  induction t with
  | nil => rfl
  | cons e t ih =>
    obtain ⟨hfirst, hrest⟩ := sorted_cons.1 h
    have hih := ih hrest
    simp only [values, List.map_cons, List.sum_cons, List.filter_cons, get?] at hih ⊢
    by_cases heq : e.1 = key
    · -- The keys are in order, so no later entry has the key again.
      have hnone : get? t key = none := get?_eq_none fun other hother h =>
        String.lt_irrefl key (by simpa only [heq, h] using hfirst other hother)
      simp only [hnone, Option.getD_none] at hih
      simp only [heq, String.lt_irrefl, decide_false, if_true, Bool.false_eq_true, if_false, Option.getD_some]
      omega
    · by_cases hlt : e.1 < key
      · simp only [hlt, decide_true, if_true, heq, if_false, String.lt_asymm hlt, decide_false,
          List.map_cons, List.sum_cons, Bool.false_eq_true]
        omega
      · simp only [hlt, decide_true, if_true, heq, if_false, lt_of_not_lt (Ne.symm heq) hlt, decide_false,
          List.map_cons, List.sum_cons, Bool.false_eq_true]
        omega

end Table

/-! ## One call -/

namespace Fixtures

variable (s : Fixtures) (name : String) (params : Table String)

/-- How many of the first calls of an endpoint fail. -/
def failureCount : Nat := (s.failures.get? name).getD 0

/-- The `n`-th call of an endpoint, counted from one, fails. -/
def Fails (n : Nat) : Prop := n ≤ s.failureCount name ∨ s.responses.get? name = none

theorem call_ok_iff : (∃ j, (call s name params).1 = .ok j) ↔ ¬ s.Fails name (s.callCount name + 1) := by
  simp only [call, Fails, failureCount]
  split
  · simp_all
  · cases s.responses.get? name <;> simp_all

theorem callCount_call (other : String) : (call s name params).2.callCount other =
    s.callCount other + if name = other then 1 else 0 := by
  simp only [call, callCount, Table.get?_insert]
  by_cases h : name = other
  · subst h
    simp
  · simp [h]

theorem totalCalls_eq : s.totalCalls = s.calls.values.sum := List.sum_eq_foldl_nat.symm

theorem totalCalls_call (h : Table.Sorted s.calls) :
    (call s name params).2.totalCalls = s.totalCalls + 1 := by
  have hsum := Table.sum_values_insert h name (s.callCount name + 1)
  rw [totalCalls_eq, totalCalls_eq]
  simp only [call, callCount] at hsum ⊢
  omega

/-- The same call made again and again counts up, and nothing else changes. -/
theorem stateAfter_call (n : Nat) :
    let s' := Endpoint.stateAfter call name params s n
    s'.responses = s.responses ∧ s'.failures = s.failures ∧ s'.callCount name = s.callCount name + n := by
  induction n generalizing s with
  | zero => exact ⟨rfl, rfl, rfl⟩
  | succ n ih =>
    obtain ⟨hresponses, hfailures, hcount⟩ := ih (call s name params).2
    refine ⟨hresponses, hfailures, hcount.trans ?_⟩
    rw [callCount_call, if_pos rfl]
    omega

theorem answer_ok_iff (n : Nat) : (∃ j, Endpoint.answer call name params s n = .ok j) ↔
    ¬ s.Fails name (s.callCount name + n + 1) := by
  obtain ⟨hresponses, hfailures, hcount⟩ := s.stateAfter_call name params n
  rw [Endpoint.answer, call_ok_iff, hcount, Fails, Fails, failureCount, hresponses, hfailures]
  rfl

end Fixtures

/-! ## The calls of a log -/

/-- Whether a call of the endpoint failed, if the entry is one. -/
def LogEntry.failed? (name : String) : LogEntry → Option Bool
  | .intent _ => none
  | .call other _ failure => if other = name then some failure.isSome else none

/-- For each call of an endpoint in a log whether it failed. -/
def failedCalls (name : String) (log : List (Nat × LogEntry)) : List Bool :=
  log.filterMap (·.2.failed? name)

theorem failedCalls_append (name : String) (log rest : List (Nat × LogEntry)) :
    failedCalls name (log ++ rest) = failedCalls name log ++ failedCalls name rest := List.filterMap_append

theorem failedCalls_ofCall (time : Nat) (name other : String) (params : Table String)
    (answer : Except EndpointError Json) : failedCalls other [(time, .ofCall name params answer)] =
      if name = other then [!answer.isOk] else [] := by
  cases answer <;> by_cases h : name = other <;>
    simp [failedCalls, LogEntry.ofCall, LogEntry.failed?, h, Except.isOk, Except.toBool]

namespace Fixtures

/-- The calls of a log were answered by the fixtures `s`, which were then `s'`. -/
structure Served (s : Fixtures) (log : List (Nat × LogEntry)) (s' : Fixtures) : Prop where
  responses : s'.responses = s.responses
  failures : s'.failures = s.failures
  sorted : Table.Sorted s.calls → Table.Sorted s'.calls
  callCount (name : String) : s'.callCount name = s.callCount name + (failedCalls name log).length
  totalCalls : Table.Sorted s.calls → s'.totalCalls = s.totalCalls + log.countP (·.2.isCall)
  fails (name : String) (n : Nat) (failed : Bool) : (failedCalls name log)[n]? = some failed →
    (failed = true ↔ s.Fails name (s.callCount name + n + 1))

variable {s s' s'' : Fixtures} {log rest : List (Nat × LogEntry)}

theorem Served.nil (s : Fixtures) : Served s [] s where
  responses := rfl
  failures := rfl
  sorted := id
  callCount _ := rfl
  totalCalls _ := rfl
  fails _ _ _ h := by simp [failedCalls] at h

theorem Served.append (h : Served s log s') (hrest : Served s' rest s'') : Served s (log ++ rest) s'' where
  responses := hrest.responses.trans h.responses
  failures := hrest.failures.trans h.failures
  sorted hs := hrest.sorted (h.sorted hs)
  callCount name := by
    rw [hrest.callCount, h.callCount, failedCalls_append, List.length_append, Nat.add_assoc]
  totalCalls hs := by
    rw [hrest.totalCalls (h.sorted hs), h.totalCalls hs, List.countP_append, Nat.add_assoc]
  fails name n failed hn := by
    rw [failedCalls_append] at hn
    rcases Nat.lt_or_ge n (failedCalls name log).length with hlt | hge
    · rw [List.getElem?_append_left hlt] at hn
      exact h.fails name n failed hn
    · rw [List.getElem?_append_right hge] at hn
      have hcount : s'.callCount name + (n - (failedCalls name log).length) + 1 = s.callCount name + n + 1 := by
        have := h.callCount name
        omega
      refine (hrest.fails name _ failed hn).trans ?_
      rw [hcount, Fails, Fails, failureCount, failureCount, h.responses, h.failures]

theorem served_intent (s : Fixtures) (time : Nat) (intent : Intent) : Served s [(time, .intent intent)] s where
  responses := rfl
  failures := rfl
  sorted := id
  callCount _ := rfl
  totalCalls _ := rfl
  fails _ _ _ h := by simp [failedCalls, LogEntry.failed?] at h

theorem served_call (s : Fixtures) (time : Nat) (name : String) (params : Table String) :
    Served s [(time, .ofCall name params (call s name params).1)] (call s name params).2 where
  responses := rfl
  failures := rfl
  sorted hs := Table.sorted_insert hs name _
  callCount other := by
    rw [callCount_call, failedCalls_ofCall]
    by_cases h : name = other <;> simp [h]
  totalCalls hs := totalCalls_call s name params hs
  fails other n failed hn := by
    rw [failedCalls_ofCall] at hn
    by_cases h : name = other
    · subst h
      rw [if_pos rfl, List.getElem?_singleton] at hn
      split at hn
      · rename_i hzero
        subst hzero
        cases hn
        rw [Nat.add_zero, ← not_iff_not, ← call_ok_iff s name params]
        cases (call s name params).1 <;> simp [Except.isOk, Except.toBool]
      · cases hn
    · simp [h] at hn

/-- The run of any program is served by the fixtures. -/
theorem run_served {α : Type} (p : Program α) (time : Nat) (s : Fixtures) :
    Served s (p.run call time s).log (p.run call time s).state := by
  induction p generalizing time s with
  | done a => exact .nil s
  | fault e => exact .nil s
  | report intent next ih => exact (served_intent s time intent).append (ih time s)
  | call name params next ih => exact (served_call s time name params).append (ih _ time _)
  | sleep ms next ih => exact ih (time + ms) s

end Fixtures

end ViewEngine
