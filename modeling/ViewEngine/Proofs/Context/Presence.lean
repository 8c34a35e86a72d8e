import ViewEngine.Proofs.Context.Faults
import ViewEngine.Proofs.Context.Pipelines

/-!
# What is left of an absent value

What a path gives is absent, null or filled with something. Of a transform that is all that has to be known to tell
it of the result: two transforms fill what is absent or null, and the others leave each of the three as it was
(`Transform.presence_apply`). So of the stages of a path only their names matter, and neither their order nor their
parameters (`Context.presence_stages`).

The name of a stage is looked for in the stage without the white space around it. A stage that begins with white
space and a colon is therefore named by what follows the colon, as is one that begins with a colon.
-/

namespace ViewEngine

/-! ## Absent, null and filled -/

/-- What can be told of a value, which may be absent, without a look into it. -/
inductive Presence where
  | absent
  | null
  | filled
deriving DecidableEq, Repr

def presence : Option Value → Presence
  | none => .absent
  | some .null => .null
  | some _ => .filled

variable {v r : Option Value}

theorem presence_eq_absent_iff : presence v = .absent ↔ v = none := by
  unfold presence
  split <;> simp_all

theorem presence_eq_null_iff : presence v = .null ↔ v = some .null := by
  unfold presence
  split <;> simp_all

theorem presence_eq_filled_iff : presence v = .filled ↔ ∃ w, v = some w ∧ w ≠ .null := by
  unfold presence
  split <;> simp_all

/-- What can be read as something is filled, if null cannot. -/
theorem presence_of_bind_eq_some {β : Type} {f : Value → Option β} {b : β} (hnull : f .null = none)
    (h : v.bind f = some b) : presence v = .filled := by
  obtain ⟨w, rfl, hw⟩ := Option.bind_eq_some_iff.1 h
  refine presence_eq_filled_iff.2 ⟨w, rfl, ?_⟩
  rintro rfl
  rw [hnull] at hw
  cases hw

/-! ## Transforms -/

namespace Transform

/-- The transform gives something even for what is absent or null. -/
def fills : Transform → Bool
  | default _ | count => true
  | _ => false

theorem presence_apply {t : Transform} (h : t.apply v = .ok r) :
    presence r = if t.fills then .filled else presence v := by
  unfold apply at h
  cases t with
  | date pattern =>
    simp only at h
    split at h
    · rename_i i hi
      obtain ⟨s, hs, -⟩ := Option.bind_eq_some_iff.1 hi
      obtain ⟨text, -, rfl⟩ := exists_of_map_eq_ok h
      exact (presence_of_bind_eq_some rfl hs).symm
    · cases h
      rfl
  | duration hint =>
    simp only at h
    split at h
    · rename_i ms hms
      cases h
      exact (presence_of_bind_eq_some rfl hms).symm
    · cases h
      rfl
  | truncate length =>
    simp only at h
    split at h
    · rename_i s length hs
      split at h
      · cases h
        exact (presence_of_bind_eq_some rfl hs).symm
      · cases h
        rfl
    · cases h
      rfl
  | uppercase | lowercase | join =>
    simp only at h
    split at h <;> cases h <;> rfl
  | default text =>
    simp only at h
    split at h
    · cases h
      rfl
    · cases h
      rfl
    · -- Neither absent nor null.
      rename_i hnone hnull
      cases h
      cases v with
      | none => contradiction
      | some w => exact presence_eq_filled_iff.2 ⟨w, rfl, fun hw => hnull (congrArg some hw)⟩
  | count =>
    cases h
    rfl
  | identity =>
    cases h
    rfl

/-- The name of a stage, from before its first colon or, if nothing stands there, from after it. -/
def stageName (stage : List Char) : Option (List Char) := (pieces stage).head?.map trim

/-- The stage is named `default` or `count`. -/
def IsDefaulting (stage : List Char) : Prop :=
  stageName stage = some "default".toList ∨ stageName stage = some "count".toList

instance (stage : List Char) : Decidable (IsDefaulting stage) := inferInstanceAs (Decidable (_ ∨ _))

theorem fills_named {name : List Char} {parameter : Option (List Char)} :
    (named name parameter).fills = true ↔ trim name = "default".toList ∨ trim name = "count".toList := by
  have hname (text : String) : trim name = text.toList ↔ String.ofList (trim name) = text :=
    ⟨fun h => by rw [h, String.ofList_toList], fun h => by rw [← h, String.toList_ofList]⟩
  rw [hname, hname, named]
  split <;> simp_all [fills]

theorem fills_ofStage {stage : List Char} : (ofStage stage).fills = true ↔ IsDefaulting stage := by
  unfold ofStage IsDefaulting stageName
  cases pieces stage with
  | nil => simp [fills]
  | cons name rest => simp [fills_named]

end Transform

open Transform

theorem presence_applyStage {stage : List Char} (h : applyStage stage v = .ok r) :
    presence r = if IsDefaulting stage then .filled else presence v := by
  rw [presence_apply h]
  simp only [fills_ofStage]

/-! ## Paths -/

namespace Context

variable {c : Context}

/-- After any stages of which one fills it, a value is filled; otherwise it is as present as before. -/
theorem presence_stages {stages : List (List Char)}
    (h : stages.foldlM (fun v stage => applyStage stage v) v = .ok r) :
    presence r = if ∃ s ∈ stages, IsDefaulting s then .filled else presence v := by
  induction stages generalizing v with
  | nil =>
    cases h
    simp
  | cons stage stages ih =>
    rw [List.foldlM_cons] at h
    obtain ⟨u, hu, h⟩ := exists_of_bind_eq_ok h
    rw [ih h, presence_applyStage hu]
    by_cases hlater : ∃ s ∈ stages, IsDefaulting s
    · obtain ⟨s, hs, hdefaulting⟩ := hlater
      rw [if_pos ⟨s, hs, hdefaulting⟩, if_pos ⟨s, List.mem_cons_of_mem _ hs, hdefaulting⟩]
    · rw [if_neg hlater]
      simp only [List.mem_cons, exists_eq_or_imp, hlater, or_false]

/-- The first part of a path is a path without stages. -/
theorem resolve_base {path base : List Char} {stages : List (List Char)}
    (h : splitAt pipe (trim path) = base :: stages) : c.resolve base = .ok (c.resolvePlain? (trim base)) :=
  resolve_of_pipeless (not_isInfix_trim (not_isInfix_of_mem_splitAt pipe_ne_nil (h ▸ List.mem_cons_self)))

/-- **A value stays as present as its base, unless a stage fills it.** After a stage that is named `default` or
`count` the value is there and not null, whatever stages stand around that one. Without such a stage it is absent
exactly if the base leads nowhere, and null exactly if the base leads to null. No transform loses a value or makes
it null. -/
theorem presence_resolve {path : List Char} {result : Option Value} (h : c.resolve path = .ok result) :
    (∃ base stages, splitAt pipe (trim path) = base :: stages ∧
      ((∃ s ∈ stages, IsDefaulting (trim s)) → ∃ v, result = some v ∧ v ≠ .null) ∧
      ((∀ s ∈ stages, ¬ IsDefaulting (trim s)) →
        (result = none ↔ c.resolve base = .ok none) ∧
        (result = some .null ↔ c.resolve base = .ok (some .null)))) ∧
    ∀ (t : Transform) (v r : Option Value), t.apply v = .ok r →
      (v ≠ none → r ≠ none) ∧ (v ≠ some .null → r ≠ some .null) := by
  constructor
  · obtain ⟨base, stages, hparts⟩ := List.exists_cons_of_ne_nil (splitAt_ne_nil pipe (trim path))
    rw [resolve_eq_flow, pipeline, hparts, List.map_cons, flow] at h
    have hpresence := presence_stages h
    simp only [List.mem_map, exists_exists_and_eq_and] at hpresence
    refine ⟨base, stages, hparts, fun hfills => ?_, fun hplain => ?_⟩
    · rw [if_pos hfills] at hpresence
      exact presence_eq_filled_iff.1 hpresence
    · rw [if_neg (by simpa using hplain)] at hpresence
      rw [resolve_base hparts, Except.ok.injEq, Except.ok.injEq, ← presence_eq_absent_iff,
        ← presence_eq_null_iff, hpresence, presence_eq_absent_iff, presence_eq_null_iff]
      exact ⟨Iff.rfl, Iff.rfl⟩
  · intro t v r ht
    have hpresence : presence r = .filled ∨ presence r = presence v := by
      rw [presence_apply ht]
      by_cases hfills : t.fills = true
      · exact .inl (if_pos hfills)
      · exact .inr (if_neg hfills)
    refine ⟨mt fun hr => ?_, mt fun hr => ?_⟩
    · rw [presence_eq_absent_iff.2 hr] at hpresence
      exact presence_eq_absent_iff.1 (hpresence.resolve_left (by decide)).symm
    · rw [presence_eq_null_iff.2 hr] at hpresence
      exact presence_eq_null_iff.1 (hpresence.resolve_left (by decide)).symm

/-- A null that is left as it is, and one that is filled and shown in capitals. -/
theorem presence_resolve_shown :
    let c : Context := ⟨[("a", .null)], []⟩
    (c.resolve "$.a | uppercase | truncate:0".toList = .ok (some .null) ∧
      c.resolve "$.a".toList = .ok (some .null)) ∧
    c.resolve "$.a | default:none | uppercase".toList = .ok (some (.string "NONE")) ∧
    Value.string "NONE" ≠ .null := by
  intro c
  have hleft : c.resolve "$.a | uppercase | truncate:0".toList = .ok (some .null) := rfl
  have hfilled : c.resolve "$.a | default:none | uppercase".toList = .ok (some (.string "NONE")) := rfl
  obtain ⟨⟨base, stages, hparts, -, hplain⟩, -⟩ := presence_resolve hleft
  obtain ⟨⟨base', stages', hparts', hfills, -⟩, -⟩ := presence_resolve hfilled
  obtain ⟨rfl, rfl⟩ := List.cons.inj (show ["$.a".toList, "uppercase".toList, "truncate:0".toList] = _ from hparts)
  obtain ⟨rfl, rfl⟩ :=
    List.cons.inj (show ["$.a".toList, "default:none".toList, "uppercase".toList] = _ from hparts')
  obtain ⟨v, hv, hne⟩ := hfills (by decide)
  obtain rfl := Option.some.inj hv
  exact ⟨⟨hleft, (hplain (by decide)).2.1 rfl⟩, hfilled, hne⟩

/-- Between its pipes a stage may begin with white space and a colon. Nothing is named there, yet the stage is a
default. -/
theorem resolve_default_after_colon :
    let c : Context := ⟨[], []⟩
    splitAt pipe (trim "$.x |  :default".toList) = ["$.x".toList, " :default".toList] ∧
    stageName " :default".toList = some [] ∧
    ¬ IsDefaulting " :default".toList ∧
    c.resolve "$.x".toList = .ok none ∧
    c.resolve "$.x |  :default".toList = .ok (some (.string "")) := by
  refine ⟨by decide, by decide, by decide, rfl, rfl⟩

end Context

end ViewEngine
