import ViewEngine.Condition
import ViewEngine.Document.Component
import ViewEngine.Proofs.Calendar.LateDates
import ViewEngine.Proofs.Context.Mentions
import ViewEngine.Proofs.Text.Splitting

/-!
# What breaks a read off

A computation that may break off does so exactly where one of its parts does, and the one part that can is
a date stage at which a late date arrives (`Transform.apply_eq_error_iff`). From there the condition is
carried up, as an equivalence each time: to the stages of a path (`Context.BreaksOff`), to the texts and
values that are bindings, and to the bindings in a condition. A test such as `$.a | exists` never breaks
off, since no stage is applied to its path.
-/

namespace ViewEngine

/-! ## Where a computation breaks off -/

theorem exists_of_bind_eq_ok {ε α β : Type} {x : Except ε α} {f : α → Except ε β} {b : β}
    (h : x >>= f = .ok b) : ∃ a, x = .ok a ∧ f a = .ok b := by
  cases x with
  | error => cases h
  | ok a => exact ⟨a, rfl, h⟩

theorem exists_of_map_eq_ok {ε α β : Type} {x : Except ε α} {f : α → β} {b : β} (h : x.map f = .ok b) :
    ∃ a, x = .ok a ∧ f a = b := by
  cases x with
  | error => cases h
  | ok a => exact ⟨a, rfl, Except.ok.inj h⟩

/-- There is one fault only. -/
theorem Fault.eq : (f g : Fault) → f = g
  | .yearOutOfRange, .yearOutOfRange => rfl

section

variable {α β γ : Type} {x : Except Fault α} {y : Except Fault β} {e : Fault}

theorem map_eq_error_iff {f : α → β} : x.map f = .error e ↔ x = .error e := by
  cases x <;> simp [Except.map]

theorem bind_eq_error_iff {f : α → Except Fault β} :
    x >>= f = .error e ↔ x = .error e ∨ ∃ a, x = .ok a ∧ f a = .error e := by
  cases x <;> simp [bind, Except.bind]

/-- Of two parts that do not hang on each other either may break off. -/
theorem both_eq_error_iff {f : α → β → γ} :
    (do let a ← x; let b ← y; pure (f a b)) = Except.error e ↔ x = .error e ∨ y = .error e := by
  cases x with
  | error g => simp [bind, Except.bind, Fault.eq g e]
  | ok a => cases y <;> simp [bind, Except.bind, pure, Except.pure]

theorem mapM_eq_error_iff {l : List α} {f : α → Except Fault β} :
    l.mapM f = .error e ↔ ∃ a ∈ l, f a = .error e := by
  induction l with
  | nil => simp [pure, Except.pure]
  | cons a l ih =>
    rw [List.mapM_cons, both_eq_error_iff, ih]
    simp

end

/-! ## Stages -/

/-- The text of the value is a timestamp that passes the last year. -/
def LateDate (v : Option Value) : Prop :=
  ∃ s t, v.bind Value.asText? = some s ∧ Calendar.Timestamp.parts? s.toList = some t ∧
    t.isPossible = true ∧ t.PassesLastYear

theorem lateDate_iff {v : Option Value} : LateDate v ↔ ∃ s i, v.bind Value.asText? = some s ∧
    Calendar.readTimestamp? s.toList = some i ∧ Calendar.lastYear < (i.clockTime 0).year := by
  simp only [LateDate, exists_and_left, ← Calendar.exists_late_iff]

namespace Transform

/-- The transform shows a date. -/
def IsDate (t : Transform) : Prop := ∃ pattern, t = date pattern

theorem dateText_eq_error_iff {pattern : List Char} {i : Calendar.Instant} {e : Fault} :
    dateText pattern i = .error e ↔ Calendar.lastYear < (i.clockTime 0).year := by
  unfold dateText
  simp only
  split
  · rename_i h
    exact iff_of_true (congrArg _ (Fault.eq _ _)) h
  · rename_i h
    exact iff_of_false nofun h

theorem apply_eq_error_iff {t : Transform} {v : Option Value} {e : Fault} :
    t.apply v = .error e ↔ t.IsDate ∧ LateDate v := by
  by_cases h : t.IsDate
  · obtain ⟨pattern, rfl⟩ := h
    rw [apply, and_iff_right ⟨pattern, rfl⟩, lateDate_iff]
    cases v.bind Value.asText? with
    | none => simp
    | some s =>
      cases hi : Calendar.readTimestamp? s.toList with
      | none => simp [hi]
      | some i => simp [hi, map_eq_error_iff, dateText_eq_error_iff]
  · refine iff_of_false ?_ fun hd => h hd.1
    cases t with
    | date pattern => exact absurd ⟨pattern, rfl⟩ h
    | _ =>
      simp only [apply]
      repeat' split
      all_goals nofun

end Transform

namespace Context

/-- Stages break off at the first date stage at which a late date arrives. -/
theorem applyStages_eq_error_iff {stages : List (List Char)} {v : Option Value} {e : Fault} :
    applyStages stages v = .error e ↔ ∃ before stage after w, stages = before ++ stage :: after ∧
      applyStages before v = .ok w ∧ (Transform.ofStage (trim stage)).IsDate ∧ LateDate w := by
  induction stages generalizing v with
  | nil => simp [applyStages]
  | cons first rest ih =>
    rw [applyStages, bind_eq_error_iff, applyStage, Transform.apply_eq_error_iff]
    constructor
    · rintro (⟨hdate, hlate⟩ | ⟨u, hu, hrest⟩)
      · exact ⟨[], first, rest, v, rfl, rfl, hdate, hlate⟩
      · obtain ⟨before, stage, after, w, rfl, hw, hstage⟩ := ih.1 hrest
        refine ⟨first :: before, stage, after, w, rfl, ?_, hstage⟩
        rw [applyStages, applyStage, hu]
        exact hw
    · rintro ⟨before, stage, after, w, hstages, hw, hdate, hlate⟩
      cases before with
      | nil =>
        cases hstages
        cases hw
        exact .inl ⟨hdate, hlate⟩
      | cons _ before =>
        cases hstages
        rw [applyStages] at hw
        cases hu : applyStage (trim first) v with
        | error f => rw [hu] at hw; cases hw
        | ok u =>
          rw [hu] at hw
          exact .inr ⟨u, hu, ih.2 ⟨before, stage, after, w, rfl, hw, hdate, hlate⟩⟩

/-- The path leads through a date stage at which a late date arrives. -/
def BreaksOff (c : Context) (path : List Char) : Prop :=
  ∃ base before stage after v, splitAt pipe (trim path) = base :: (before ++ stage :: after) ∧
    applyStages before (c.resolvePlain? (trim base)) = .ok v ∧
    (Transform.ofStage (trim stage)).IsDate ∧ LateDate v

theorem resolve_eq_error_iff {c : Context} {path : List Char} {e : Fault} :
    c.resolve path = .error e ↔ c.BreaksOff path := by
  unfold resolve BreaksOff
  split
  · rename_i h
    simp [h]
  · rename_i plain h
    simp [h]
  · rename_i base stages _ h
    rw [applyStages_eq_error_iff, h]
    constructor
    · rintro ⟨before, stage, after, v, hstages, hv⟩
      exact ⟨base, before, stage, after, v, congrArg _ hstages, hv⟩
    · rintro ⟨_, before, stage, after, v, hparts, hv⟩
      cases hparts
      exact ⟨before, stage, after, v, rfl, hv⟩

variable {c : Context} {e : Fault} {path : List Char}

/-! ## Texts and values -/

theorem breaksOff_trim : c.BreaksOff (trim path) ↔ c.BreaksOff path := by
  rw [BreaksOff, BreaksOff, trim_trim]

/-- Without a stage nothing breaks off. -/
theorem not_breaksOff (h : ¬ pipe <:+: trim path) : ¬ c.BreaksOff path := by
  rintro ⟨base, before, stage, after, v, hparts, -⟩
  rw [splitAt_of_not_isInfix h] at hparts
  simp at hparts

theorem isBinding_iff {cs : List Char} : isBinding cs = true ↔ (trim cs).head? = some '$' := by
  rw [isBinding, decide_eq_true_iff]
  obtain ⟨hstart, htrim⟩ | ⟨d, rest, -, hstart, htrim⟩ := trim_eq cs
  · rw [hstart, htrim]
  · rw [hstart, htrim, List.head?_cons, List.head?_cons]

theorem resolveString_eq_error_iff {s : String} :
    c.resolveString s = .error e ↔ isBinding s.toList = true ∧ c.BreaksOff s.toList := by
  rw [isBinding_iff, ← breaksOff_trim, ← resolve_eq_error_iff (e := e), resolveString]
  split
  · rename_i htrim
    simp [htrim]
  · rename_i rest htrim
    rw [htrim, bind_eq_error_iff]
    simp [pure, Except.pure]
  · rename_i hother
    refine iff_of_false (fun hok => by cases hok) fun hhead => ?_
    obtain ⟨rest, hrest⟩ := List.head?_eq_some_iff.1 hhead.1
    exact hother rest hrest

/-- The path that an authored value is, if it is a binding. -/
def bindingOf? : Value → Option (List Char)
  | .string s => if isBinding s.toList then some s.toList else none
  | _ => none

theorem resolveValue_eq_error_iff {v : Value} :
    c.resolveValue v = .error e ↔ ∃ p, bindingOf? v = some p ∧ c.BreaksOff p := by
  cases v with
  | string s =>
    simp only [resolveValue, bindingOf?]
    split
    · rw [bind_eq_error_iff, resolve_eq_error_iff]
      simp [pure, Except.pure]
    · simp
  | _ => simp [resolveValue, bindingOf?]

theorem resolveAll_eq_error_iff {fields : Fields} :
    c.resolveAll fields = .error e ↔ ∃ field ∈ fields, ∃ p, bindingOf? field.2 = some p ∧ c.BreaksOff p := by
  induction fields with
  | nil => simp [resolveAll]
  | cons field fields ih =>
    rw [resolveAll, both_eq_error_iff, resolveValue_eq_error_iff, ih]
    simp only [List.mem_cons, exists_eq_or_imp]

end Context

/-! ## Conditions -/

namespace Condition

/-- The bindings that a condition reads. -/
def bindings (condition : Condition) : List (List Char) := condition.paths.filter (·.head? = some '$')

theorem operand_eq_error_iff {c : Context} {e : Fault} {cs : List Char} :
    operand c cs = .error e ↔ cs.head? = some '$' ∧ c.BreaksOff cs := by
  unfold operand
  split
  · rename_i h
    rw [Context.resolve_eq_error_iff, and_iff_right h]
  · rename_i h
    exact iff_of_false nofun fun hd => h hd.1

/-- A condition breaks off at an operand that is a binding, or at the path that it tests. -/
theorem holds_eq_error_iff {condition : Condition} {c : Context} {e : Fault} :
    condition.holds c = .error e ↔
      match condition with
      | present path | empty path | notEmpty path | truthy path => c.BreaksOff path
      | compare _ left right => ∃ p ∈ [left, right], p.head? = some '$' ∧ c.BreaksOff p
      | never => False := by
  cases condition with
  | present path | empty path | notEmpty path | truthy path =>
    simp only [holds, map_eq_error_iff, Context.resolve_eq_error_iff]
  | never => simp [holds]
  | compare comparison left right =>
    rw [holds, both_eq_error_iff]
    simp [operand_eq_error_iff]

theorem mem_bindings {condition : Condition} {p : List Char} :
    p ∈ condition.bindings ↔ p ∈ condition.paths ∧ p.head? = some '$' := by
  simp [bindings]

theorem readTest?_eq_some {cs : List Char} {test : Condition} (h : readTest? cs = some test) :
    ∃ path ∈ splitAt pipe cs, test = present (trim path) ∨ test = empty (trim path) ∨
      test = notEmpty (trim path) := by
  unfold readTest? at h
  split at h
  · rename_i path op parts hparts
    refine ⟨path, hparts ▸ List.mem_cons_self, ?_⟩
    split at h <;> cases h <;> simp
  · cases h

/-- What is known of the paths of a condition that was read: tests have no stages, and other paths are
bindings. -/
def PathsAsRead : Condition → Prop
  | present path | empty path | notEmpty path => ¬ pipe <:+: trim path
  | truthy path => path.head? = some '$'
  | compare _ _ _ | never => True

theorem pathsAsRead_read (cs : List Char) : (read cs).PathsAsRead := by
  unfold read
  simp only
  split
  · rename_i test htest
    obtain ⟨path, hpath, htest⟩ := readTest?_eq_some htest
    have hplain : ¬ pipe <:+: trim (trim path) := by
      rw [trim_trim]
      exact not_isInfix_trim (not_isInfix_of_mem_splitAt (List.cons_ne_nil _ _) hpath)
    rcases htest with rfl | rfl | rfl <;> exact hplain
  · split
    · rename_i comparison hcomparison
      obtain ⟨sign, -, hfound⟩ := List.exists_of_findSome?_eq_some hcomparison
      obtain ⟨⟨left, right⟩, -, rfl⟩ := Option.map_eq_some_iff.1 hfound
      trivial
    · split
      · assumption
      · trivial

end Condition

theorem evaluate_eq_error_iff {condition : String} {c : Context} {e : Fault} :
    evaluate condition c = .error e ↔
      ∃ p ∈ (Condition.read condition.toList).bindings, c.BreaksOff p := by
  have hread := Condition.pathsAsRead_read condition.toList
  rw [evaluate, Condition.holds_eq_error_iff]
  simp only [Condition.mem_bindings, and_assoc]
  cases hcondition : Condition.read condition.toList with
  | present path | empty path | notEmpty path =>
    rw [hcondition] at hread
    have hplain : ¬ c.BreaksOff path := Context.not_breaksOff hread
    simp [Condition.paths, hplain]
  | compare comparison left right => rfl
  | truthy path =>
    rw [hcondition] at hread
    have hhead : path.head? = some '$' := hread
    simp [Condition.paths, hhead]
  | never => simp [Condition.paths]

end ViewEngine
