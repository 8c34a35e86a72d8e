import ViewEngine.Document.Depth
import ViewEngine.Proofs.Value.Routes
import ViewEngine.Value.Coercion

/-!
# What cannot be written

JSON carries no infinite double and none that is not a number. A value that holds one at any position is not
written, and the refusal names the first, in the order of the text. A value that holds none has one text, whichever
way it goes: written at once, through its datum, or shown (`Value.encoders_agree`).
-/

namespace ViewEngine

theorem Binary64.isFinite_eq_false_iff {d : Binary64} :
    d.isFinite = false ↔ d.isNaN = true ∨ d.rank = infinityRank := by
  simp only [isFinite, isNaN, decide_eq_false_iff_not, decide_eq_true_eq]
  omega

namespace Value

/-! ## Positions -/

/-- A step into an array or an object. -/
inductive Step where
  | item (index : Nat)
  | field (key : String)

/-- Of two steps into the same array or object, the one that comes first: items from left to right, fields in the
order of their keys. -/
inductive Step.Before : Step → Step → Prop where
  | item {i j : Nat} (h : i < j) : Before (.item i) (.item j)
  | field {k l : String} (h : k < l) : Before (.field k) (.field l)

/-- A way into a value, from the outside in. -/
abbrev Position := List Step

/-- The order of the text. -/
def Position.Before : Position → Position → Prop := List.Lex Step.Before

/-- The value that a step leads to. -/
def child? : Value → Step → Option Value
  | array items, .item i => items[i]?
  | object fields, .field key => Table.get? fields key
  | _, _ => none

/-- The value at a position. -/
def part? : Value → Position → Option Value
  | v, [] => some v
  | v, s :: p => (v.child? s).bind (·.part? p)

/-- At the position stands a double that JSON cannot carry. -/
structure RefusedAt (v : Value) (p : Position) (d : Binary64) : Prop where
  found : v.part? p = some (double d)
  nonFinite : d.isNaN = true ∨ d.rank = Binary64.infinityRank

/-- The double is refused, and none that stands before it is. -/
structure FirstRefusedAt (v : Value) (p : Position) (d : Binary64) : Prop extends v.RefusedAt p d where
  first : ∀ q e, q.Before p → ¬ v.RefusedAt q e

variable {v w x : Value} {s t : Step} {p q : Position} {d e : Binary64}

theorem part?_cons : v.part? (s :: p) = some w ↔ ∃ x, v.child? s = some x ∧ x.part? p = some w :=
  Option.bind_eq_some_iff

theorem depth_le_itemsDepth {items : List Value} (h : w ∈ items) : w.depth ≤ itemsDepth items := by
  induction items with
  | nil => cases h
  | cons x xs ih =>
    rcases List.mem_cons.1 h with rfl | h
    · exact Nat.le_max_left _ _
    · exact Nat.le_trans (ih h) (Nat.le_max_right _ _)

theorem depth_lt_of_child? (h : v.child? s = some w) : w.depth < v.depth := by
  unfold child? at h
  split at h
  · exact Nat.lt_succ_of_le (depth_le_itemsDepth (List.mem_of_getElem? h))
  · exact Nat.lt_succ_of_le (depth_le_fieldsDepth (Table.mem_of_get? h))
  · cases h

/-! ## The order of positions -/

/-- Two steps into one value can be compared. -/
theorem step_trichotomy (hs : v.child? s = some w) (ht : v.child? t = some x) :
    s = t ∨ s.Before t ∨ t.Before s := by
  cases v with
  | array items =>
    cases s with
    | item i =>
      cases t with
      | item j =>
        rcases Nat.lt_trichotomy i j with hlt | rfl | hlt
        · exact .inr (.inl (.item hlt))
        · exact .inl rfl
        · exact .inr (.inr (.item hlt))
      | field => cases ht
    | field => cases hs
  | object fields =>
    cases s with
    | field k =>
      cases t with
      | field l =>
        by_cases heq : k = l
        · exact .inl (heq ▸ rfl)
        · by_cases hlt : l < k
          · exact .inr (.inr (.field hlt))
          · exact .inr (.inl (.field (Table.lt_of_not_lt heq hlt)))
      | item => cases ht
    | item => cases hs
  | _ => cases hs

/-- Two positions of doubles in one value can be compared: none of them goes on where the other ends. -/
theorem position_trichotomy (hp : v.part? p = some (double d)) (hq : v.part? q = some (double e)) :
    p = q ∨ p.Before q ∨ q.Before p := by
  induction p generalizing v q with
  | nil =>
    cases Option.some.inj hp
    cases q with
    | nil => exact .inl rfl
    | cons t q => cases hq
  | cons s p ih =>
    cases q with
    | nil =>
      cases Option.some.inj hq
      cases hp
    | cons t q =>
      obtain ⟨w, hs, hp⟩ := part?_cons.1 hp
      obtain ⟨x, ht, hq⟩ := part?_cons.1 hq
      rcases step_trichotomy hs ht with rfl | hlt | hlt
      · cases Option.some.inj (hs.symm.trans ht)
        rcases ih hp hq with rfl | hlt | hlt
        · exact .inl rfl
        · exact .inr (.inl (.cons hlt))
        · exact .inr (.inr (.cons hlt))
      · exact .inr (.inl (.rel hlt))
      · exact .inr (.inr (.rel hlt))

/-! ## The first refusal -/

theorem IsFinite.child (h : v.IsFinite) (hs : v.child? s = some w) : w.IsFinite := by
  unfold child? at hs
  split at hs
  · exact isFinite_array.1 h w (List.mem_of_getElem? hs)
  · exact isFinite_object.1 h _ (Table.mem_of_get? hs)
  · cases hs

theorem IsTabled.child (h : v.IsTabled) (hs : v.child? s = some w) : w.IsTabled := by
  unfold child? at hs
  split at hs
  · exact isTabled_array.1 h w (List.mem_of_getElem? hs)
  · exact (isTabled_object.1 h).2 _ (Table.mem_of_get? hs)
  · cases hs

/-- A finite value holds nothing that is refused. -/
theorem IsFinite.not_refusedAt (h : v.IsFinite) : ¬ v.RefusedAt p d := by
  rintro ⟨hfound, hspecial⟩
  induction p generalizing v with
  | nil =>
    cases Option.some.inj hfound
    cases (Binary64.isFinite_eq_false_iff.2 hspecial).symm.trans (isFinite_double.1 h)
  | cons s p ih =>
    obtain ⟨w, hs, hfound⟩ := part?_cons.1 hfound
    exact ih (h.child hs) hfound

/-- What is refused first in a child is refused first in the value, if no child before it holds such a double. -/
theorem FirstRefusedAt.step (h : w.FirstRefusedAt p d) (hs : v.child? s = some w)
    (hbefore : ∀ t x, t.Before s → v.child? t = some x → x.IsFinite) : v.FirstRefusedAt (s :: p) d where
  found := part?_cons.2 ⟨w, hs, h.found⟩
  nonFinite := h.nonFinite
  first q e hq := by
    rintro ⟨hfound, hspecial⟩
    cases hq with
    | nil =>
      cases Option.some.inj hfound
      cases hs
    | cons hq =>
      obtain ⟨x, hx, hfound⟩ := part?_cons.1 hfound
      cases Option.some.inj (hs.symm.trans hx)
      exact h.first _ e hq ⟨hfound, hspecial⟩
    | rel ht =>
      obtain ⟨x, hx, hfound⟩ := part?_cons.1 hfound
      exact (hbefore _ x ht hx).not_refusedAt ⟨hfound, hspecial⟩

theorem firstNonFiniteItem?_eq (items : List Value) :
    firstNonFiniteItem? items = items.findSome? firstNonFinite? := by
  induction items with
  | nil => rfl
  | cons v rest ih =>
    rw [firstNonFiniteItem?, ih, List.findSome?_cons]
    cases v.firstNonFinite? <;> rfl

theorem firstNonFiniteField?_eq (fields : List (String × Value)) :
    firstNonFiniteField? fields = fields.findSome? fun e => e.2.firstNonFinite? := by
  induction fields with
  | nil => rfl
  | cons e rest ih =>
    obtain ⟨key, v⟩ := e
    rw [firstNonFiniteField?, ih, List.findSome?_cons]
    cases v.firstNonFinite? <;> rfl

/-- The double that is found first is the value itself, or is found first in the first child that is not finite. -/
theorem exists_child_of_firstNonFinite? (htabled : v.IsTabled) (h : v.firstNonFinite? = some d) :
    (v = double d ∧ d.isFinite = false) ∨ ∃ s w, v.child? s = some w ∧ w.firstNonFinite? = some d ∧
      ∀ t x, t.Before s → v.child? t = some x → x.IsFinite := by
  cases v with
  | double e =>
    rw [firstNonFinite?] at h
    split at h
    · cases h
    · rename_i hspecial
      cases h
      exact .inl ⟨rfl, Bool.not_eq_true _ ▸ hspecial⟩
  | array items =>
    rw [firstNonFinite?, firstNonFiniteItem?_eq, List.findSome?_eq_some_iff] at h
    obtain ⟨before, w, after, rfl, hw, hbefore⟩ := h
    refine .inr ⟨.item before.length, w, by simp [child?], hw, fun t x ht hx => ?_⟩
    cases ht with
    | item hlt =>
      rw [child?, List.getElem?_append_left hlt] at hx
      exact (firstNonFinite?_eq_none x).1 (hbefore x (List.mem_of_getElem? hx))
  | object fields =>
    rw [firstNonFinite?, firstNonFiniteField?_eq, List.findSome?_eq_some_iff] at h
    obtain ⟨before, ⟨key, w⟩, after, rfl, hw, hbefore⟩ := h
    obtain ⟨-, hafter, hlt⟩ := Table.sorted_append.1 (isTabled_object.1 htabled).1
    refine .inr ⟨.field key, w, ?_, hw, fun t x ht hx => ?_⟩
    · have hnone : Table.get? before key = none :=
        Table.get?_eq_none fun e he => String.ne_of_lt (hlt e he _ List.mem_cons_self)
      simp [child?, Table.get?_append, hnone, Table.get?]
    · cases ht with
      | field hkey =>
        rcases List.mem_append.1 (Table.mem_of_get? hx) with hmem | hmem
        · exact (firstNonFinite?_eq_none x).1 (hbefore _ hmem)
        · rcases List.mem_cons.1 hmem with heq | hmem
          · cases heq
            exact absurd hkey (String.lt_irrefl key)
          · exact absurd hkey (String.lt_asymm ((Table.sorted_cons.1 hafter).1 _ hmem))
  | _ => cases h

/-- What writing finds stands at some position, before everything else that is refused. -/
theorem exists_firstRefusedAt (v : Value) (htabled : v.IsTabled) (h : v.firstNonFinite? = some d) :
    ∃ p, v.FirstRefusedAt p d := by
  rcases exists_child_of_firstNonFinite? htabled h with ⟨rfl, hspecial⟩ | ⟨s, w, hs, hw, hbefore⟩
  · exact ⟨[], ⟨rfl, Binary64.isFinite_eq_false_iff.1 hspecial⟩, fun q e hq => nomatch hq⟩
  · obtain ⟨p, hp⟩ := exists_firstRefusedAt w (htabled.child hs) hw
    exact ⟨s :: p, hp.step hs hbefore⟩
termination_by v.depth
decreasing_by exact depth_lt_of_child? hs

/-- There is only one first refusal. -/
theorem FirstRefusedAt.unique (hd : v.FirstRefusedAt p d) (he : v.FirstRefusedAt q e) : d = e := by
  rcases position_trichotomy hd.found he.found with rfl | hlt | hlt
  · cases Option.some.inj (hd.found.symm.trans he.found)
    rfl
  · exact absurd hd.toRefusedAt (he.first p d hlt)
  · exact absurd he.toRefusedAt (hd.first q e hlt)

theorem firstNonFinite?_eq_some_iff (htabled : v.IsTabled) :
    v.firstNonFinite? = some d ↔ ∃ p, v.FirstRefusedAt p d := by
  refine ⟨exists_firstRefusedAt v htabled, fun ⟨p, hp⟩ => ?_⟩
  cases h : v.firstNonFinite? with
  | none => exact absurd hp.toRefusedAt ((firstNonFinite?_eq_none v).1 h).not_refusedAt
  | some e =>
    obtain ⟨q, hq⟩ := exists_firstRefusedAt v htabled h
    rw [hp.unique hq]

/-! ## Null in place of what is refused -/

mutual

/-- Null has the same datum as what it stands for. -/
theorem toJson_nullNonFinite : ∀ v : Value, v.nullNonFinite.toJson = v.toJson
  | null | bool _ | int _ | string _ => rfl
  | double d => by
    rw [nullNonFinite]
    split
    · rfl
    · rename_i hspecial
      rw [toJson, toJson, if_neg hspecial]
  | array items => by rw [nullNonFinite, toJson, toJson, toJsonItems_nullNonFinite items]
  | object fields => by rw [nullNonFinite, toJson, toJson, toJsonMembers_nullNonFinite fields]

theorem toJsonItems_nullNonFinite : ∀ vs : List Value, toJsonItems (nullNonFiniteItems vs) = toJsonItems vs
  | [] => rfl
  | v :: rest => by
    rw [nullNonFiniteItems, toJsonItems, toJsonItems, toJson_nullNonFinite v, toJsonItems_nullNonFinite rest]

theorem toJsonMembers_nullNonFinite :
    ∀ fields : List (String × Value), toJsonMembers (nullNonFiniteFields fields) = toJsonMembers fields
  | [] => rfl
  | (key, v) :: rest => by
    rw [nullNonFiniteFields, toJsonMembers, toJsonMembers, toJson_nullNonFinite v,
      toJsonMembers_nullNonFinite rest]

end

theorem nullNonFiniteItems_eq (items : List Value) : nullNonFiniteItems items = items.map nullNonFinite := by
  induction items with
  | nil => rfl
  | cons v rest ih => rw [nullNonFiniteItems, ih, List.map_cons]

theorem child?_nullNonFinite (v : Value) (s : Step) :
    v.nullNonFinite.child? s = (v.child? s).map nullNonFinite := by
  cases v with
  | double d =>
    rw [nullNonFinite]
    split <;> rfl
  | array items =>
    cases s with
    | item i => rw [nullNonFinite, child?, child?, nullNonFiniteItems_eq, List.getElem?_map]
    | field => rfl
  | object fields =>
    cases s with
    | item => rfl
    | field key => rw [nullNonFinite, child?, child?, nullNonFiniteFields_eq, Table.get?_mapValues]
  | _ => rfl

theorem part?_nullNonFinite (v : Value) (p : Position) :
    v.nullNonFinite.part? p = (v.part? p).map nullNonFinite := by
  induction p generalizing v with
  | nil => rfl
  | cons s p ih =>
    rw [part?, part?, child?_nullNonFinite]
    cases v.child? s with
    | none => rfl
    | some w => exact ih w

/-- Nothing is refused any more. -/
theorem isFinite_nullNonFinite (v : Value) : v.nullNonFinite.IsFinite := by
  cases v with
  | double d =>
    rw [nullNonFinite]
    split
    · exact isFinite_double.2 ‹_›
    · exact (firstNonFinite?_eq_none null).1 rfl
  | array items =>
    rw [nullNonFinite, nullNonFiniteItems_eq, isFinite_array, List.forall_mem_map]
    exact fun w _ => isFinite_nullNonFinite w
  | object fields =>
    rw [nullNonFinite, nullNonFiniteFields_eq, isFinite_object, Table.mapValues, List.forall_mem_map]
    exact fun e _ => isFinite_nullNonFinite e.2
  | _ => exact (firstNonFinite?_eq_none _).1 rfl
termination_by v.depth
decreasing_by
  · exact Nat.lt_succ_of_le (depth_le_itemsDepth ‹_›)
  · exact Nat.lt_succ_of_le (depth_le_fieldsDepth ‹_›)

/-! ## Three ways to the text -/

/-- An array or an object. -/
def IsContainer : Value → Prop
  | array _ | object _ => True
  | _ => False

theorem isFinite_iff (htabled : v.IsTabled) : v.IsFinite ↔ ∀ p d, ¬ v.RefusedAt p d := by
  refine ⟨fun h p d => h.not_refusedAt, fun h => ?_⟩
  rw [← firstNonFinite?_eq_none, Option.eq_none_iff_forall_ne_some]
  intro d hd
  obtain ⟨p, hp⟩ := exists_firstRefusedAt v htabled hd
  exact h p d hp.toRefusedAt

theorem encode_eq_text (h : v.IsFinite) : v.encode = .ok v.toJson.text := by
  rw [encode_of_isFinite h, Json.text, compact_toJson]

theorem encode_nullNonFinite (v : Value) : v.nullNonFinite.encode = .ok v.toJson.text := by
  rw [encode_eq_text (isFinite_nullNonFinite v), toJson_nullNonFinite]

theorem encode_eq_error_iff (htabled : v.IsTabled) {e : NonFinite} :
    v.encode = .error e ↔ ∃ p, v.FirstRefusedAt p e.double := by
  rw [← firstNonFinite?_eq_some_iff htabled, encode]
  cases v.firstNonFinite? with
  | none => simp
  | some d => exact ⟨fun h => by cases h; rfl, fun h => by cases h; rfl⟩

theorem IsContainer.display_eq (h : v.IsContainer) : v.display = v.toJson.text := by
  cases v with
  | array | object => rfl
  | _ => cases h

/-- A scalar that is not refused stays. -/
theorem nullNonFinite_of_not_isContainer (hscalar : ¬ v.IsContainer) (h : ∀ d, ¬ v.RefusedAt [] d) :
    v.nullNonFinite = v := by
  cases v with
  | double d =>
    refine if_pos (Bool.not_eq_false _ ▸ fun hspecial => ?_)
    exact h d ⟨rfl, Binary64.isFinite_eq_false_iff.1 hspecial⟩
  | array | object => exact absurd trivial hscalar
  | _ => rfl

/-- **Writing refuses the doubles that JSON cannot carry, and all that is written agrees.** A value is refused exactly
if an infinite double, or one that is not a number, stands at some position, and the refusal names the first of them:
items from left to right, fields in the order of their keys. Otherwise it is written as the text of its datum. An array
or object is shown as it is written, with null for each double that is refused and everything else as it is. That
objects are tables restricts nothing: it says that each key of an object stands once, in the order of the keys. -/
theorem encoders_agree {v : Value} (htabled : v.IsTabled) :
    ((∃ e, v.encode = .error e) ↔ ∃ p d, v.RefusedAt p d) ∧
    (∀ e, v.encode = .error e ↔ ∃ p, v.FirstRefusedAt p e.double) ∧
    (∀ s, v.encode = .ok s ↔ (∀ p d, ¬ v.RefusedAt p d) ∧ s = v.toJson.text) ∧
    (v.IsContainer → (∀ s, v.encode = .ok s → s = v.display) ∧ v.nullNonFinite.encode = .ok v.display) ∧
    (∀ p d, v.RefusedAt p d → v.nullNonFinite.part? p = some null) ∧
    (∀ p w, v.part? p = some w → ¬ w.IsContainer → (∀ d, ¬ v.RefusedAt p d) →
      v.nullNonFinite.part? p = some w) := by
  have hrefused : (∃ p d, v.RefusedAt p d) ↔ ∃ e, v.encode = .error e := by
    constructor
    · rintro ⟨p, d, h⟩
      cases hfirst : v.firstNonFinite? with
      | none => exact absurd h ((firstNonFinite?_eq_none v).1 hfirst).not_refusedAt
      | some e => exact ⟨⟨e⟩, by rw [encode, hfirst]⟩
    · rintro ⟨e, he⟩
      obtain ⟨p, hp⟩ := (encode_eq_error_iff htabled).1 he
      exact ⟨p, e.double, hp.toRefusedAt⟩
  have hok (s : String) : v.encode = .ok s ↔ (∀ p d, ¬ v.RefusedAt p d) ∧ s = v.toJson.text := by
    constructor
    · intro h
      have hnothing : ∀ p d, ¬ v.RefusedAt p d := fun p d hd => by
        obtain ⟨e, he⟩ := hrefused.1 ⟨p, d, hd⟩
        cases h.symm.trans he
      rw [encode_eq_text ((isFinite_iff htabled).2 hnothing)] at h
      exact ⟨hnothing, (Except.ok.inj h).symm⟩
    · rintro ⟨hnothing, rfl⟩
      exact encode_eq_text ((isFinite_iff htabled).2 hnothing)
  refine ⟨hrefused.symm, fun e => encode_eq_error_iff htabled, hok, fun hcontainer => ?_, fun p d h => ?_,
    fun p w hw hscalar h => ?_⟩
  · rw [hcontainer.display_eq]
    exact ⟨fun s hs => ((hok s).1 hs).2, encode_nullNonFinite v⟩
  · have hspecial : ¬ d.isFinite = true := by
      rw [Binary64.isFinite_eq_false_iff.2 h.nonFinite]
      exact Bool.false_ne_true
    rw [part?_nullNonFinite, h.found, Option.map_some, nullNonFinite, if_neg hspecial]
  · rw [part?_nullNonFinite, hw, Option.map_some]
    refine congrArg some (nullNonFinite_of_not_isContainer hscalar fun d hd => h d ⟨?_, hd.nonFinite⟩)
    rw [hw, Option.some.inj hd.found]

/-- Of an infinite double under `a` and what is not a number under `b` the first is refused; both are shown as
null. -/
theorem encoders_agree_shown :
    let v : Value := object [("a", array [int 1, double .infinity]), ("b", double .nan)]
    v.IsTabled ∧ v.encode = .error ⟨.infinity⟩ ∧ (∃ p, v.FirstRefusedAt p .infinity) ∧
      v.nullNonFinite.part? [.field "b"] = some null ∧ v.nullNonFinite.encode = .ok v.display ∧
      v.display = "\x7b\"a\":[1,null],\"b\":null\x7d" := by
  intro v
  have htabled : v.IsTabled := by
    refine isTabled_object.2 ⟨?_, by simp [IsTabled, parts, itemParts]⟩
    exact List.pairwise_pair.2 (by decide)
  obtain ⟨-, herror, -, hshown, hnull, -⟩ := encoders_agree htabled
  exact ⟨htabled, rfl, (herror ⟨.infinity⟩).1 rfl, hnull _ .nan ⟨rfl, .inl rfl⟩, (hshown trivial).2, rfl⟩

end Value

end ViewEngine
