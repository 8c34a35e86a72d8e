import ViewEngine.Proofs.Document.Encoding

/-!
# Authored texts

The texts that stand in a node: its condition, the strings in its props at any depth, and those of the nodes
inside it. A node that is read from a prop has no text of its own: each of its texts stands in the prop
(`Node.EveryText.nodeProp?`).
-/

namespace ViewEngine

/-! ## Strings through data -/

namespace Value

mutual

theorem string_mem_toJson : ∀ (v : Value) {s : String}, .string s ∈ v.toJson.parts → .string s ∈ v.parts
  | null, _, h | bool _, _, h | int _, _, h => by simp [toJson, Json.parts] at h
  | double d, _, h => by
    rw [toJson] at h
    split at h <;> simp [Json.parts] at h
  | string t, s, h => by simpa [toJson, Json.parts, parts] using h
  | array items, s, h => by
    simp only [toJson, Json.parts, List.mem_cons, reduceCtorEq, false_or] at h
    exact List.mem_cons_of_mem _ (string_mem_toJsonItems items h)
  | object fields, s, h => by
    simp only [toJson, Json.parts, List.mem_cons, reduceCtorEq, false_or] at h
    exact List.mem_cons_of_mem _ (string_mem_toJsonMembers fields h)

theorem string_mem_toJsonItems : ∀ (vs : List Value) {s : String},
    .string s ∈ Json.itemParts (toJsonItems vs) → .string s ∈ itemParts vs
  | [], _, h => by cases h
  | v :: rest, s, h => by
    rw [toJsonItems, Json.itemParts, List.mem_append] at h
    exact List.mem_append.2 (h.imp (string_mem_toJson v) (string_mem_toJsonItems rest))

theorem string_mem_toJsonMembers : ∀ (fields : List (String × Value)) {s : String},
    .string s ∈ Json.memberParts (toJsonMembers fields) → .string s ∈ fieldParts fields
  | [], _, h => by cases h
  | (_, v) :: rest, s, h => by
    rw [toJsonMembers, Json.memberParts, List.mem_append] at h
    exact List.mem_append.2 (h.imp (string_mem_toJson v) (string_mem_toJsonMembers rest))

end

mutual

theorem string_mem_read? : ∀ (j : Json) {v : Value} {s : String}, read? j = some v → .string s ∈ v.parts →
    .string s ∈ j.parts
  | .null, _, _, hv, h | .bool _, _, _, hv, h | .double _, _, _, hv, h => by
    cases hv
    simp [parts] at h
  | .int i, _, _, hv, h => by
    cases hv
    rw [ofInt] at h
    split at h <;> simp [parts] at h
  | .string t, _, s, hv, h => by
    cases hv
    simpa [Json.parts, parts] using h
  | .array items, _, s, hv, h => by
    obtain ⟨vs, hvs, rfl⟩ := Option.map_eq_some_iff.1 hv
    simp only [parts, List.mem_cons, reduceCtorEq, false_or] at h
    obtain ⟨w, hw, hs⟩ := mem_itemParts.1 h
    exact List.mem_cons_of_mem _ (string_mem_readItems? items hvs hw hs)
  | .object members, _, s, hv, h => by
    obtain ⟨fields, hfields, rfl⟩ := Option.map_eq_some_iff.1 hv
    simp only [parts, List.mem_cons, reduceCtorEq, false_or] at h
    obtain ⟨e, he, hs⟩ := mem_fieldParts.1 h
    exact List.mem_cons_of_mem _ (string_mem_readMembers? members hfields (Table.mem_ofList he) hs)
  | .unreadable, _, _, hv, _ => by cases hv

theorem string_mem_readItems? : ∀ (items : List Json) {vs : List Value} {w : Value} {s : String},
    readItems? items = some vs → w ∈ vs → .string s ∈ w.parts → .string s ∈ Json.itemParts items
  | [], _, _, _, hvs, hw, _ => by
    cases hvs
    cases hw
  | j :: rest, _, _, _, hvs, hw, hs => by
    simp only [readItems?, Option.bind_eq_bind, Option.bind_eq_some_iff, Option.pure_def,
      Option.some.injEq] at hvs
    obtain ⟨v, hv, ws, hws, rfl⟩ := hvs
    refine List.mem_append.2 ((List.mem_cons.1 hw).imp ?_ ?_)
    · rintro rfl
      exact string_mem_read? j hv hs
    · exact fun hw => string_mem_readItems? rest hws hw hs

theorem string_mem_readMembers? : ∀ (members : List (String × Json)) {fields : List (String × Value)}
    {e : String × Value} {s : String}, readMembers? members = some fields → e ∈ fields →
      .string s ∈ e.2.parts → .string s ∈ Json.memberParts members
  | [], _, _, _, hfields, he, _ => by
    cases hfields
    cases he
  | (key, j) :: rest, _, _, _, hfields, he, hs => by
    simp only [readMembers?, Option.bind_eq_bind, Option.bind_eq_some_iff, Option.pure_def,
      Option.some.injEq] at hfields
    obtain ⟨v, hv, ws, hws, rfl⟩ := hfields
    refine List.mem_append.2 ((List.mem_cons.1 he).imp ?_ ?_)
    · rintro rfl
      exact string_mem_read? j hv hs
    · exact fun he => string_mem_readMembers? rest hws he hs

end

end Value

/-! ## Texts of a node -/

namespace Json

theorem mem_parts_of_record? {names : List String} {j x : Json} {fields : List (String × Json)}
    {e : String × Json} (h : j.record? names = some fields) (he : e ∈ fields) (hx : x ∈ e.2.parts) :
    x ∈ j.parts := by
  cases j with
  | object members =>
    cases h
    exact List.mem_cons_of_mem _ (mem_memberParts.2 ⟨e, he, hx⟩)
  | array items =>
    rw [record?] at h
    split at h
    · cases h
      exact List.mem_cons_of_mem _ (mem_itemParts.2 ⟨e.2, (List.of_mem_zip he).2, hx⟩)
    · cases h
  | _ => cases h

/-- What an optional field holds is read from what is found. -/
theorem slot?_optional {α : Type} {read? : Json → Option α} {o : Option Json} {a : α}
    (h : slot? (optional? read?) o = some (some (some a))) : ∃ x, o = some x ∧ read? x = some a := by
  cases o with
  | none => cases h
  | some x =>
    obtain ⟨b, hb, heq⟩ := Option.map_eq_some_iff.1 h
    cases heq
    exact ⟨x, rfl, optional?_eq_some hb⟩

theorem mem_of_mapM {α : Type} {read? : Json → Option α} {items : List Json} {as : List α} {a : α}
    (h : items.mapM read? = some as) (ha : a ∈ as) : ∃ j ∈ items, read? j = some a := by
  induction items generalizing as with
  | nil =>
    cases h
    cases ha
  | cons j rest ih =>
    simp only [List.mapM_cons, Option.bind_eq_bind, Option.bind_eq_some_iff, Option.pure_def,
      Option.some.injEq] at h
    obtain ⟨b, hb, bs, hbs, rfl⟩ := h
    rcases List.mem_cons.1 ha with rfl | ha
    · exact ⟨j, List.mem_cons_self, hb⟩
    · obtain ⟨k, hk, hread⟩ := ih hbs ha
      exact ⟨k, List.mem_cons_of_mem _ hk, hread⟩

end Json

namespace Node

/-- Every text that the author of a node has put in a condition or, however deep, in a prop, of the node or a
node inside it. -/
def EveryText (p : String → Prop) (n : Node) : Prop :=
  ∀ m ∈ n.parts, (∀ s, m.condition = some s → p s) ∧
    ∀ t, m.props = some t → ∀ s, .string s ∈ (Value.object t).parts → p s

/-- What holds of every string of a datum holds of every text of the node that the datum is. -/
theorem everyText_of_ofJson? {p : String → Prop} (j : Json) (n : Node) (h : ofJson? j = some n)
    (hp : ∀ s, .string s ∈ j.parts → p s) : n.EveryText p := by
  obtain ⟨fields, hfields, -, d, hd, hn⟩ := ofJson?_eq_some.1 h
  obtain ⟨type, -, rfl⟩ := Option.map_eq_some_iff.1 hn
  have hfield {name : String} {x : Json} (hx : Table.get? fields name = some x) {s : String}
      (hs : .string s ∈ x.parts) : p s :=
    hp s (Json.mem_parts_of_record? hfields (Table.mem_of_get? hx) hs)
  refine forall_parts.2 ⟨⟨fun s hs => ?_, fun t ht s hs => ?_⟩, fun m hm => ?_⟩
  · have hcondition := hd.condition
    rw [Option.join_eq_some_iff.1 hs] at hcondition
    obtain ⟨x, hx, htext⟩ := Json.slot?_optional hcondition
    cases x with
    | string t =>
      cases htext
      exact hfield hx (Json.self_mem_parts _)
    | _ => cases htext
  · have hprops := hd.props
    rw [Option.join_eq_some_iff.1 ht] at hprops
    obtain ⟨x, hx, hread⟩ := Json.slot?_optional hprops
    rw [Json.fields?_eq] at hread
    obtain ⟨v, hv, hobject⟩ := Option.bind_eq_some_iff.1 hread
    cases v with
    | object t' =>
      cases hobject
      exact hfield hx (Value.string_mem_read? x hv hs)
    | _ => cases hobject
  · obtain ⟨nodes, hnodes, hm⟩ : ∃ nodes, d.children = some (some nodes) ∧ m ∈ nodes := by
      simp only [childNodes] at hm
      rcases hnodes : d.children with _ | _ | nodes
      · simp [hnodes] at hm
      · simp [hnodes] at hm
      · exact ⟨nodes, rfl, by simpa [hnodes] using hm⟩
    have hchildren := hd.children
    rw [hnodes] at hchildren
    obtain ⟨x, hx, hlist⟩ := Json.slot?_optional hchildren
    cases x with
    | array items =>
      obtain ⟨k, hk, hread⟩ := Json.mem_of_mapM hlist hm
      exact everyText_of_ofJson? k m hread fun s hs =>
        hfield hx (List.mem_cons_of_mem _ (Json.mem_itemParts.2 ⟨k, hk, hs⟩))
    | _ => cases hlist
termination_by j.depth
decreasing_by
  exact Nat.lt_trans (Json.depth_lt_of_mem_array hk)
    (Json.depth_lt_of_record? hfields (Table.mem_of_get? hx))

theorem EveryText.mono {p q : String → Prop} {n : Node} (h : n.EveryText p) (hpq : ∀ s, p s → q s) :
    n.EveryText q :=
  fun m hm => ⟨fun s hs => hpq s ((h m hm).1 s hs), fun t ht s hs => hpq s ((h m hm).2 t ht s hs)⟩

theorem EveryText.condition {p : String → Prop} {n : Node} (h : n.EveryText p) {s : String}
    (hs : n.condition = some s) : p s :=
  (forall_parts.1 h).1.1 s hs

theorem EveryText.child {p : String → Prop} {m n : Node} (h : n.EveryText p) (hm : m ∈ n.childNodes) :
    m.EveryText p :=
  (forall_parts.1 h).2 m hm

theorem EveryText.prop {p : String → Prop} {n : Node} (h : n.EveryText p) {e : String × Value}
    (he : e ∈ n.props.getD []) {s : String} (hs : .string s ∈ e.2.parts) : p s := by
  cases hprops : n.props with
  | none => simp [hprops] at he
  | some t =>
    rw [hprops] at he
    exact (forall_parts.1 h).1.2 t hprops s (Value.mem_parts_object.2 (.inr ⟨e, he, hs⟩))

theorem EveryText.prop? {p : String → Prop} {n : Node} (h : n.EveryText p) {key : String} {v : Value}
    (hv : n.prop? key = some v) {s : String} (hs : .string s ∈ v.parts) : p s :=
  h.prop (Table.mem_of_get? hv) hs

/-- A node in a prop has its texts from the prop. -/
theorem EveryText.nodeProp? {p : String → Prop} {m n : Node} (h : n.EveryText p) {key : String}
    (hm : n.nodeProp? key = some m) : m.EveryText p := by
  obtain ⟨v, hv, hread⟩ := Option.bind_eq_some_iff.1 hm
  cases v with
  | object fields =>
    exact everyText_of_ofJson? _ m hread fun s hs => h.prop? hv (Value.string_mem_toJson _ hs)
  | _ => cases hread

end Node

end ViewEngine
