import ViewEngine.Condition
import ViewEngine.Proofs.Context.Pipelines
import ViewEngine.Proofs.Table.Order

/-!
# Keys that a text does not mention

A path reads one key of a context, the first component of its base, unless it is bare `$`, which reads all of
them. A path that reads another key than a given one gives the same in contexts that agree on all others
(`Context.AgreeOff.resolve`), and so does a condition of such paths.

A text reads from a context what comes after its dollar signs. If a key does not come up there, and no dollar
sign stands alone, then whatever is cut out of the text on its way to a look-up (conditions at comparison signs,
bindings at pipes, paths at points) never is that key.
-/

namespace ViewEngine

/-! ## The key that a path reads -/

theorem pathComponents_append (a b : List Char) :
    pathComponents (a ++ '.' :: b) = pathComponents a ++ pathComponents b := by
  have hsplit := splitAt_append_separator (List.cons_ne_nil '.' []) (noneAcross_singleton '.' a (['.'] ++ b))
  rw [List.append_assoc] at hsplit
  rw [pathComponents, show a ++ '.' :: b = a ++ (['.'] ++ b) from rfl, hsplit, List.filter_append]
  rfl

/-- The components of a path without transforms; a point after the dollar sign makes no difference. -/
def baseComponents : List Char → List (List Char)
  | '$' :: rest => pathComponents rest
  | _ => []

theorem Context.resolvePlain?_eq_lookup? {c : Context} {base : List Char} (h : base ≠ ['$']) :
    c.resolvePlain? base = c.lookup? (baseComponents base) := by
  unfold Context.resolvePlain?
  split
  · contradiction
  · rename_i rest
    have hpoint : pathComponents ('.' :: rest) = pathComponents rest := pathComponents_append [] rest
    rw [baseComponents, hpoint]
  · rfl
  · rename_i hdollar
    rw [baseComponents.eq_2 _ hdollar]
    rfl

/-- The path reads neither all data nor what is under the key. -/
def Spares (key : String) (path : List Char) : Prop :=
  ∀ base ∈ (pipeline path).head?, base ≠ ['$'] ∧ ∀ first ∈ (baseComponents base).head?, String.ofList first ≠ key

/-! ## Texts -/

/-- The key comes up after no dollar sign of the text, and no dollar sign is at the end or before white
space. -/
def Silent (k cs : List Char) : Prop :=
  ∀ before after, cs = before ++ '$' :: after → ¬ k <:+: after ∧ ∃ c ∈ after.head?, isBlank c = false

variable {k p cs : List Char}

theorem silent_of_not_mem (h : '$' ∉ cs) : Silent k cs := by
  rintro before after rfl
  simp at h

/-- What is cut out of a text at white space mentions no more than the text. -/
theorem Silent.piece (h : Silent k cs) (hp : IsPiece (isBlank · = true) p cs) : Silent k p := by
  obtain ⟨front, back, rfl, hback⟩ := hp
  rintro before after rfl
  obtain ⟨hk, c, hc, hblank⟩ := h (front ++ before) (after ++ back) (by simp)
  refine ⟨fun hafter => hk (hafter.trans (List.prefix_append after back).isInfix), ?_⟩
  cases after with
  | nil => exact absurd (hback c hc) (by simp [hblank])
  | cons d after => exact ⟨d, rfl, by simp_all⟩

theorem Silent.trim (h : Silent k cs) : Silent k (trim cs) := h.piece (isPiece_trim cs)

theorem Silent.part (h : Silent k cs) (hp : p ∈ splitAt pipe cs) : Silent k p :=
  h.piece (isPiece_of_mem_splitAt rfl hp)

theorem Silent.spares {key : String} {path : List Char} (h : Silent key.toList path) : Spares key path := by
  intro base hbase
  obtain ⟨part, hpart, rfl⟩ := List.mem_map.1 (List.mem_of_mem_head? hbase)
  have hsilent := (h.trim.part hpart).trim
  refine ⟨fun hbare => ?_, fun first hfirst => ?_⟩
  · obtain ⟨-, c, hc, -⟩ := hsilent [] [] hbare
    cases hc
  · rintro rfl
    have hmem := List.mem_of_mem_head? hfirst
    unfold baseComponents at hmem
    split at hmem
    · rename_i rest hbase
      have hpiece : IsPiece (· = '.') first rest := isPiece_of_mem_splitAt rfl (List.mem_filter.1 hmem).1
      exact (hsilent [] rest hbase).1 (by simpa using hpiece.isInfix)
    · cases hmem

namespace Context

/-- The contexts read alike under every other key. -/
def AgreeOff (key : String) (c₁ c₂ : Context) : Prop :=
  ∀ other, other ≠ key → findBinding? other (c₁.own :: c₁.outer) = findBinding? other (c₂.own :: c₂.outer)

theorem agreeOff_set (c : Context) (key : String) (v : Value) : AgreeOff key (c.set key v) c := by
  intro other hne
  simp only [set, findBinding?, Table.get?_insert_of_ne _ _ hne.symm]

variable {key : String} {c₁ c₂ : Context}

theorem AgreeOff.child (h : AgreeOff key c₁ c₂) (bindings : Fields) :
    AgreeOff key (c₁.child bindings) (c₂.child bindings) := by
  intro other hne
  simp only [Context.child, findBinding?]
  cases Table.get? bindings other with
  | some v => rfl
  | none => exact h other hne

/-! ## Paths, texts and values -/

theorem AgreeOff.resolve (h : AgreeOff key c₁ c₂) {path : List Char} (hpath : Spares key path) :
    c₁.resolve path = c₂.resolve path := by
  rw [resolve_eq_flow, resolve_eq_flow]
  cases hparts : pipeline path with
  | nil => rfl
  | cons base stages =>
    obtain ⟨hbare, hfirst⟩ := hpath base (hparts ▸ rfl)
    have hbase : c₁.resolvePlain? base = c₂.resolvePlain? base := by
      rw [resolvePlain?_eq_lookup? hbare, resolvePlain?_eq_lookup? hbare]
      cases hcomponents : baseComponents base with
      | nil => rfl
      | cons first rest =>
        -- Only the first component is a key of the context; the others are fields of what it finds.
        rw [lookup?, lookup?, h _ (hfirst first (hcomponents ▸ rfl))]
    rw [flow, flow, hbase]

theorem AgreeOff.resolveString (h : AgreeOff key c₁ c₂) {literal : String}
    (hliteral : Silent key.toList literal.toList) : c₁.resolveString literal = c₂.resolveString literal := by
  unfold Context.resolveString
  split
  · rfl
  · rename_i rest hrest
    rw [h.resolve (hrest ▸ hliteral.trim).spares]
  · rfl

theorem AgreeOff.resolveValue (h : AgreeOff key c₁ c₂) {v : Value}
    (hv : ∀ s, v = .string s → Silent key.toList s.toList) : c₁.resolveValue v = c₂.resolveValue v := by
  cases v with
  | string s => simp only [Context.resolveValue, h.resolve (hv s rfl).spares]
  | null | bool _ | int _ | double _ | array _ | object _ => rfl

/-! ## What is found -/

theorem resolve_trim (c : Context) (cs : List Char) : c.resolve (trim cs) = c.resolve cs := by
  rw [Context.resolve, Context.resolve, trim_trim]

/-- What a binding finds is taken as it is, text or not. -/
theorem resolveValue_of_resolve {c : Context} {path : String} {v : Value}
    (hbinding : isBinding path.toList = true) (h : c.resolve path.toList = .ok (some v)) :
    c.resolveValue (.string path) = .ok v := by
  simp only [Context.resolveValue, hbinding, if_true, h]
  rfl

/-- What a binding finds is shown as it is. -/
theorem resolveString_of_resolve {c : Context} {path : String} {v : Value}
    (hbinding : isBinding path.toList = true) (h : c.resolve path.toList = .ok (some v)) :
    c.resolveString path = .ok v.display := by
  obtain ⟨hstart, -⟩ | ⟨d, rest, -, hstart, htrim⟩ := trim_eq path.toList
  · simp [isBinding, hstart] at hbinding
  · obtain rfl : d = '$' := by simpa [isBinding, hstart] using hbinding
    have hfound : c.resolve ('$' :: dropEndWhile isBlank rest) = .ok (some v) := by
      rw [← htrim, resolve_trim, h]
    rw [Context.resolveString, htrim]
    simp only [hfound]
    rfl

/-! ## Conditions -/

theorem AgreeOff.operand (h : AgreeOff key c₁ c₂) {operand : List Char}
    (hoperand : Spares key operand) : Condition.operand c₁ operand = Condition.operand c₂ operand := by
  simp only [Condition.operand, h.resolve hoperand]

end Context

/-- The paths and operands that a condition reads. -/
def Condition.paths : Condition → List (List Char)
  | present path | empty path | notEmpty path | truthy path => [path]
  | compare _ left right => [left, right]
  | never => []

theorem Context.AgreeOff.holds {key : String} {c₁ c₂ : Context} (h : AgreeOff key c₁ c₂)
    {condition : Condition} (hpaths : ∀ path ∈ condition.paths, Spares key path) :
    condition.holds c₁ = condition.holds c₂ := by
  cases condition with
  | compare comparison left right =>
    simp only [Condition.holds, h.operand (hpaths left (by simp [Condition.paths])),
      h.operand (hpaths right (by simp [Condition.paths]))]
  | present path | empty path | notEmpty path | truthy path =>
    simp only [Condition.holds, h.resolve (hpaths path (by simp [Condition.paths]))]
  | never => rfl

theorem Silent.readTest? (h : Silent k cs) {condition : Condition}
    (hread : Condition.readTest? cs = some condition) : ∀ path ∈ condition.paths, Silent k path := by
  unfold Condition.readTest? at hread
  split at hread
  case h_1 path op parts hparts =>
    have hpath : Silent k (ViewEngine.trim path) := (h.part (hparts ▸ List.mem_cons_self)).trim
    split at hread <;> cases hread <;> exact List.forall_mem_singleton.2 hpath
  case h_2 => cases hread

theorem Comparison.sign_eq_cons (comparison : Comparison) : ∃ rest, comparison.sign = ' ' :: rest := by
  cases comparison <;> exact ⟨_, rfl⟩

theorem Silent.readComparison? (h : Silent k cs) {signs : List Comparison} {condition : Condition}
    (hread : Condition.readComparison? cs signs = some condition) :
    ∀ path ∈ condition.paths, Silent k path := by
  obtain ⟨comparison, -, hfound⟩ := List.exists_of_findSome?_eq_some hread
  obtain ⟨⟨left, right⟩, hsplit, rfl⟩ := Option.map_eq_some_iff.1 hfound
  obtain ⟨rest, hsign⟩ := comparison.sign_eq_cons
  rw [hsign] at hsplit
  have hpieces : IsPiece (isBlank · = true) left cs ∧ IsPiece (isBlank · = true) right cs :=
    isPiece_of_splitFirst? rfl hsplit
  obtain ⟨hleft, hright⟩ := hpieces
  exact List.forall_mem_cons.2 ⟨(h.piece hleft).trim, List.forall_mem_singleton.2 (h.piece hright).trim⟩

/-- What a condition reads is cut out of its text. -/
theorem Silent.read (h : Silent k cs) : ∀ path ∈ (Condition.read cs).paths, Silent k path := by
  unfold Condition.read
  simp only
  split
  · exact h.trim.readTest? ‹_›
  · split
    · exact h.trim.readComparison? ‹_›
    · split
      · exact List.forall_mem_singleton.2 h.trim
      · exact nofun

theorem Context.AgreeOff.evaluate {key : String} {c₁ c₂ : Context} (h : AgreeOff key c₁ c₂)
    {condition : String} (hcondition : Silent key.toList condition.toList) :
    evaluate condition c₁ = evaluate condition c₂ :=
  h.holds fun path hpath => (hcondition.read path hpath).spares

end ViewEngine
