import ViewEngine.Endpoint.Result
import ViewEngine.Proofs.Table.Order
import Mathlib.Data.List.Forall2

/-!
# The shape of results

Bringing an answer into the shape in which it is stored loses nothing but the envelope: an object among the results
keeps all its fields and gains the names that it lacks, and everything else stays as it is. Doing it twice does no
more, and the results of two answers can be put together before it or after (`normalization_conservative`).
-/

namespace ViewEngine

variable {fields : Fields}

/-! ## Names -/

theorem get?_addAlias (fields : Fields) (name source key : String) :
    (addAlias fields (name, source)).get? key =
      (Table.get? fields key).or (if name = key then Table.get? fields source else none) := by
  rw [addAlias, Table.contains]
  by_cases hname : (Table.get? fields name).isSome
  · rw [if_pos hname]
    by_cases hkey : name = key
    · obtain ⟨v, hv⟩ := Option.isSome_iff_exists.1 (hkey ▸ hname)
      rw [hv, Option.some_or]
    · rw [if_neg hkey, Option.or_none]
  · rw [if_neg hname]
    have hnone : Table.get? fields name = none := Option.not_isSome_iff_eq_none.1 hname
    cases hsource : Table.get? fields source with
    | none => simp
    | some v =>
      simp only [Table.get?_insert]
      by_cases hkey : name = key
      · rw [if_pos hkey, if_pos hkey, ← hkey, hnone, Option.none_or]
      · rw [if_neg hkey, if_neg hkey, Option.or_none]

theorem sorted_addAlias (h : Table.Sorted fields) (aliasOf : String × String) :
    Table.Sorted (addAlias fields aliasOf) := by
  rw [addAlias]
  split
  · exact h
  · split
    · exact Table.sorted_insert h _ _
    · exact h

/-- What an object gains under a key: the field that may stand for it. -/
def gained? (fields : Fields) : String → Option Value
  | "name" => Table.get? fields "trackName"
  | "id" => Table.get? fields "trackId"
  | "artworkUrl100" => Table.get? fields "artworkUrl600"
  | _ => none

/-- All names together. No name stands for another, so the order in which they are added is no matter. -/
theorem get?_foldl_addAlias (fields : Fields) (key : String) :
    Table.get? (resultAliases.foldl addAlias fields) key = (Table.get? fields key).or (gained? fields key) := by
  simp only [resultAliases, List.foldl_cons, List.foldl_nil, get?_addAlias]
  fun_cases gained? fields key with
  | case1 => simp
  | case2 => simp
  | case3 => simp
  | case4 key hname hid hartwork => simp [Ne.symm hname, Ne.symm hid, Ne.symm hartwork]

theorem sorted_foldl_addAlias (h : Table.Sorted fields) (aliases : List (String × String)) :
    Table.Sorted (aliases.foldl addAlias fields) := by
  induction aliases generalizing fields with
  | nil => exact h
  | cons a rest ih => exact ih (sorted_addAlias h a)

/-- A name that is taken, or that nothing stands for, is not added. -/
theorem addAlias_eq_self {name source : String}
    (h : Table.get? fields source = none ∨ Table.get? fields name ≠ none) :
    addAlias fields (name, source) = fields := by
  rw [addAlias, Table.contains]
  rcases h with h | h
  · rw [h, ite_self]
  · rw [if_pos (Option.isSome_iff_ne_none.2 h)]

/-- Adding the names again changes nothing. -/
theorem foldl_addAlias_again (fields : Fields) :
    resultAliases.foldl addAlias (resultAliases.foldl addAlias fields) = resultAliases.foldl addAlias fields := by
  have hself {name source : String} (hgained : gained? fields name = Table.get? fields source)
      (hsource : gained? fields source = none) :
      addAlias (resultAliases.foldl addAlias fields) (name, source) = resultAliases.foldl addAlias fields := by
    refine addAlias_eq_self ?_
    rw [get?_foldl_addAlias, get?_foldl_addAlias, hgained, hsource, Option.or_none]
    cases Table.get? fields source with
    | none => exact .inl rfl
    | some v => exact .inr (by simp)
  calc resultAliases.foldl addAlias (resultAliases.foldl addAlias fields)
    _ = addAlias (addAlias (addAlias (resultAliases.foldl addAlias fields) ("name", "trackName"))
          ("id", "trackId")) ("artworkUrl100", "artworkUrl600") := rfl
    _ = resultAliases.foldl addAlias fields := by
      rw [hself rfl rfl, hself rfl rfl, hself rfl rfl]

/-! ## Single results -/

/-- What becomes of one of several results. -/
inductive Normalized : Value → Value → Prop where
  | other {v : Value} (h : v.object? = none) : Normalized v v
  /-- An object keeps its fields, and gains what it can have and lacks. -/
  | object {fields fields' : Fields}
    (hget : ∀ key, Table.get? fields' key = (Table.get? fields key).or (gained? fields key))
    (hsorted : Table.Sorted fields → Table.Sorted fields') : Normalized (.object fields) (.object fields')

theorem normalized_normalizeItem (v : Value) : Normalized v (normalizeItem v) := by
  cases v with
  | object fields =>
    exact .object (get?_foldl_addAlias fields) fun h => sorted_foldl_addAlias h resultAliases
  | _ => exact .other rfl

theorem normalizeItem_again (v : Value) : normalizeItem (normalizeItem v) = normalizeItem v := by
  cases v with
  | object fields => exact congrArg Value.object (foldl_addAlias_again fields)
  | _ => rfl

/-! ## Envelopes -/

/-- The object holds a feed with these results. -/
def FeedResults (fields : Fields) (v : Value) : Prop :=
  ∃ feed, Table.get? fields "feed" = some (.object feed) ∧ Table.get? feed "results" = some v

/-- The object that holds the results and nothing else. -/
def enveloped (results : Value) : Value := .object [("results", results)]

theorem normalizeResult_of_feedResults {v : Value} (h : FeedResults fields v) :
    normalizeResult (.object fields) = v := by
  obtain ⟨feed, hfeed, hresults⟩ := h
  simp [normalizeResult, hfeed, hresults, Value.object?]

theorem feedResults?_eq_none (h : ∀ v, ¬ FeedResults fields v) :
    ((Table.get? fields "feed").bind Value.object?).bind (Table.get? · "results") = none := by
  rw [Option.eq_none_iff_forall_ne_some]
  intro v hv
  obtain ⟨feed, hfeed, hresults⟩ := Option.bind_eq_some_iff.1 hv
  obtain ⟨w, hw, hobject⟩ := Option.bind_eq_some_iff.1 hfeed
  cases w with
  | object =>
    cases hobject
    exact h v ⟨feed, hw, hresults⟩
  | _ => cases hobject

theorem normalizeResult_of_results (h : ∀ v, ¬ FeedResults fields v) {items : List Value}
    (hitems : Table.get? fields "results" = some (.array items)) :
    normalizeResult (.object fields) = .array (items.map normalizeItem) := by
  simp [normalizeResult, feedResults?_eq_none h, hitems, Value.array?]

theorem normalizeResult_of_neither (h : ∀ v, ¬ FeedResults fields v)
    (hitems : ∀ items, Table.get? fields "results" ≠ some (.array items)) :
    normalizeResult (.object fields) = .object fields := by
  have hnone : (Table.get? fields "results").bind Value.array? = none := by
    cases hresults : Table.get? fields "results" with
    | none => rfl
    | some w =>
      cases w with
      | array items => exact absurd hresults (hitems items)
      | _ => rfl
  simp [normalizeResult, feedResults?_eq_none h, hnone]

theorem normalizeResult_enveloped (items : List Value) :
    normalizeResult (enveloped (.array items)) = .array (items.map normalizeItem) := rfl

/-- **Normalization is conservative and stable.** The results of a feed are taken as they are, whatever they are and
whatever stands beside them. Otherwise, of an array of results every one stays in its place: an object keeps its
fields and gains the names that it lacks, anything else is as it was. Any other answer is kept whole. Results that are
normalized again stay the same, and those of two answers can be put together before or after. -/
theorem normalization_conservative :
    (∀ fields v, FeedResults fields v → normalizeResult (.object fields) = v) ∧
    (∀ fields items, (∀ v, ¬ FeedResults fields v) → Table.get? fields "results" = some (.array items) →
      ∃ items', normalizeResult (.object fields) = .array items' ∧ List.Forall₂ Normalized items items') ∧
    (∀ r, (∀ fields, r = .object fields → (∀ v, ¬ FeedResults fields v) ∧
        ∀ items, Table.get? fields "results" ≠ some (.array items)) →
      normalizeResult r = r) ∧
    (∀ items, normalizeResult (enveloped (normalizeResult (enveloped (.array items)))) =
      normalizeResult (enveloped (.array items))) ∧
    (∀ xs ys, ∃ xs' ys', normalizeResult (enveloped (.array xs)) = .array xs' ∧
      normalizeResult (enveloped (.array ys)) = .array ys' ∧
      normalizeResult (enveloped (.array (xs ++ ys))) = .array (xs' ++ ys')) := by
  refine ⟨fun fields v => normalizeResult_of_feedResults, fun fields items hfeed hitems => ?_, fun r h => ?_,
    fun items => ?_, fun xs ys => ?_⟩
  · refine ⟨_, normalizeResult_of_results hfeed hitems, ?_⟩
    rw [List.forall₂_map_right_iff, List.forall₂_same]
    exact fun v _ => normalized_normalizeItem v
  · cases r with
    | object fields => exact normalizeResult_of_neither (h fields rfl).1 (h fields rfl).2
    | _ => rfl
  · rw [normalizeResult_enveloped, normalizeResult_enveloped, List.map_map]
    exact congrArg Value.array (List.map_congr_left fun v _ => normalizeItem_again v)
  · exact ⟨_, _, normalizeResult_enveloped xs, normalizeResult_enveloped ys, by
      rw [normalizeResult_enveloped, List.map_append]⟩

/-- A feed whose results are null, and results of which one has a name that is null and lacks the others. -/
theorem normalization_conservative_shown :
    normalizeResult (.object [("feed", .object [("results", .null)]), ("results", .array [])]) = .null ∧
    (∃ fields, normalizeResult (enveloped (.array [.int 5, .object [("name", .null), ("trackId", .int 7),
        ("trackName", .string "x")]])) = .array [.int 5, .object fields] ∧
      Table.get? fields "name" = some .null ∧ Table.get? fields "id" = some (.int 7) ∧
      Table.get? fields "trackId" = some (.int 7) ∧ Table.get? fields "artworkUrl100" = none) ∧
    normalizeResult (.array [.object [("trackId", .int 7)]]) = .array [.object [("trackId", .int 7)]] := by
  obtain ⟨hfeed, hresults, hneither, -⟩ := normalization_conservative
  refine ⟨hfeed _ _ ⟨_, rfl, rfl⟩, ?_, hneither _ (by rintro fields ⟨⟩)⟩
  obtain ⟨items', hitems, hall⟩ := hresults [("results", .array [.int 5, .object [("name", .null),
    ("trackId", .int 7), ("trackName", .string "x")]])] _ (by rintro v ⟨feed, ⟨⟩, -⟩) rfl
  obtain - | ⟨hfirst, hrest⟩ := hall
  obtain - | ⟨hsecond, hnil⟩ := hrest
  cases hnil
  cases hfirst
  cases hsecond with
  | other h => cases h
  | object hget => exact ⟨_, hitems, hget "name", hget "id", hget "trackId", hget "artworkUrl100"⟩

end ViewEngine
