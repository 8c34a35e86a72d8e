import ViewEngine.Document.Node

/-!
# Nesting

How deep values, data and nodes are nested. A node read from a value is nested no deeper than the value
(`Node.depth_ofValue?`), and so less deep than the node that holds the value as a prop
(`Node.depth_nodeProp?`). This is why the expansion of a tree ends although it reads nodes out of
props as it goes.
-/

namespace ViewEngine

namespace Table

variable {α : Type}

theorem mem_insert {t : Table α} {key : String} {a : α} {e : String × α} (h : e ∈ t.insert key a) :
    e ∈ t ∨ e = (key, a) := by
  simp only [insert, List.mem_append, List.mem_cons, List.mem_filter] at h
  grind

theorem mem_foldl_insert {entries : List (String × α)} {t : Table α} {e : String × α}
    (h : e ∈ entries.foldl (fun t e => t.insert e.1 e.2) t) : e ∈ t ∨ e ∈ entries := by
  induction entries generalizing t with
  | nil => exact .inl h
  | cons x xs ih =>
    rcases ih h with h | h
    · rcases mem_insert h with h | h
      · exact .inl h
      · exact .inr (by simp [h])
    · exact .inr (List.mem_cons_of_mem _ h)

/-- A table holds no entry that it was not made from. -/
theorem mem_ofList {entries : List (String × α)} {e : String × α} (h : e ∈ ofList entries) :
    e ∈ entries := by
  simpa using mem_foldl_insert h

theorem mem_of_get? {t : Table α} {key : String} {a : α} (h : t.get? key = some a) :
    (key, a) ∈ t := by
  induction t with
  | nil => simp [get?] at h
  | cons e rest ih =>
    obtain ⟨k, b⟩ := e
    simp only [get?] at h
    split at h
    · simp_all
    · exact List.mem_cons_of_mem _ (ih h)

end Table

namespace Json

mutual

/-- The number of arrays and objects that stand inside each other. -/
def depth : Json → Nat
  | array items => itemsDepth items + 1
  | object members => membersDepth members + 1
  | null | bool _ | int _ | double _ | string _ | unreadable => 0

def itemsDepth : List Json → Nat
  | [] => 0
  | j :: rest => max (depth j) (itemsDepth rest)

def membersDepth : List (String × Json) → Nat
  | [] => 0
  | (_, j) :: rest => max (depth j) (membersDepth rest)

end

end Json

namespace Value

mutual

/-- The number of arrays and objects that stand inside each other. -/
def depth : Value → Nat
  | array items => itemsDepth items + 1
  | object fields => fieldsDepth fields + 1
  | null | bool _ | int _ | double _ | string _ => 0

def itemsDepth : List Value → Nat
  | [] => 0
  | v :: rest => max (depth v) (itemsDepth rest)

def fieldsDepth : List (String × Value) → Nat
  | [] => 0
  | (_, v) :: rest => max (depth v) (fieldsDepth rest)

end

theorem depth_le_fieldsDepth {fields : List (String × Value)} {e : String × Value}
    (h : e ∈ fields) : e.2.depth ≤ fieldsDepth fields := by
  induction fields with
  | nil => simp at h
  | cons x xs ih =>
    obtain ⟨k, v⟩ := x
    simp only [fieldsDepth]
    rcases List.mem_cons.1 h with rfl | h
    · exact Nat.le_max_left _ _
    · exact Nat.le_trans (ih h) (Nat.le_max_right _ _)

theorem fieldsDepth_le {fields : List (String × Value)} {n : Nat}
    (h : ∀ e ∈ fields, e.2.depth ≤ n) : fieldsDepth fields ≤ n := by
  induction fields with
  | nil => simp [fieldsDepth]
  | cons x xs ih =>
    obtain ⟨k, v⟩ := x
    simp only [fieldsDepth]
    exact Nat.max_le.2 ⟨h (k, v) (by simp), ih fun e he => h e (List.mem_cons_of_mem _ he)⟩

theorem fieldsDepth_ofList (entries : List (String × Value)) :
    fieldsDepth (Table.ofList entries) ≤ fieldsDepth entries :=
  fieldsDepth_le fun _ h => depth_le_fieldsDepth (Table.mem_ofList h)

mutual

theorem depth_toJson : (v : Value) → v.toJson.depth = v.depth
  | null | bool _ | int _ | string _ => rfl
  | double d => by
    simp only [toJson]
    split <;> rfl
  | array items => by simp only [toJson, Json.depth, depth, itemsDepth_toJson items]
  | object fields => by simp only [toJson, Json.depth, depth, membersDepth_toJson fields]

theorem itemsDepth_toJson : (vs : List Value) → Json.itemsDepth (toJsonItems vs) = itemsDepth vs
  | [] => rfl
  | v :: rest => by
    simp only [toJsonItems, Json.itemsDepth, itemsDepth, depth_toJson v, itemsDepth_toJson rest]

theorem membersDepth_toJson :
    (fs : List (String × Value)) → Json.membersDepth (toJsonMembers fs) = fieldsDepth fs
  | [] => rfl
  | (_, v) :: rest => by
    simp only [toJsonMembers, Json.membersDepth, fieldsDepth, depth_toJson v,
      membersDepth_toJson rest]

end

theorem depth_ofInt (i : Int) : (ofInt i).depth = 0 := by
  unfold ofInt
  split <;> rfl

mutual

theorem depth_read? : (j : Json) → (v : Value) → read? j = some v → v.depth ≤ j.depth
  | .null, v, h => by cases h; exact Nat.le_refl _
  | .bool _, v, h => by cases h; exact Nat.le_refl _
  | .int i, v, h => by
    cases h
    simp [depth_ofInt]
  | .double _, v, h => by cases h; exact Nat.le_refl _
  | .string _, v, h => by cases h; exact Nat.le_refl _
  | .array items, v, h => by
    obtain ⟨vs, hvs, rfl⟩ := Option.map_eq_some_iff.1 h
    simpa only [depth, Json.depth] using Nat.succ_le_succ (itemsDepth_read? items vs hvs)
  | .object members, v, h => by
    obtain ⟨fs, hfs, rfl⟩ := Option.map_eq_some_iff.1 h
    simp only [depth, Json.depth]
    exact Nat.succ_le_succ (Nat.le_trans (fieldsDepth_ofList fs) (fieldsDepth_read? members fs hfs))
  | .unreadable, v, h => by cases h

theorem itemsDepth_read? : (js : List Json) → (vs : List Value) → readItems? js = some vs →
    itemsDepth vs ≤ Json.itemsDepth js
  | [], vs, h => by cases h; exact Nat.le_refl _
  | j :: rest, vs, h => by
    simp only [readItems?, Option.bind_eq_bind, Option.bind_eq_some_iff, Option.pure_def,
      Option.some.injEq] at h
    obtain ⟨v, hv, ws, hws, rfl⟩ := h
    have h1 := depth_read? j v hv
    have h2 := itemsDepth_read? rest ws hws
    simp only [itemsDepth, Json.itemsDepth]
    omega

theorem fieldsDepth_read? : (ms : List (String × Json)) → (fs : List (String × Value)) →
    readMembers? ms = some fs → fieldsDepth fs ≤ Json.membersDepth ms
  | [], fs, h => by cases h; exact Nat.le_refl _
  | (key, j) :: rest, fs, h => by
    simp only [readMembers?, Option.bind_eq_bind, Option.bind_eq_some_iff, Option.pure_def,
      Option.some.injEq] at h
    obtain ⟨v, hv, ws, hws, rfl⟩ := h
    have h1 := depth_read? j v hv
    have h2 := fieldsDepth_read? rest ws hws
    simp only [fieldsDepth, Json.membersDepth]
    omega

end

end Value

namespace Json

theorem depth_fields? {j : Json} {t : Fields} (h : j.fields? = some t) :
    Value.fieldsDepth t < j.depth := by
  cases j with
  | object members =>
    obtain ⟨fs, hfs, rfl⟩ := Option.map_eq_some_iff.1 h
    have h1 := Value.fieldsDepth_ofList fs
    have h2 := Value.fieldsDepth_read? members fs hfs
    simp only [depth]
    omega
  | _ => cases h

theorem optional?_eq_some {α : Type} {read? : Json → Option α} {j : Json} {a : α}
    (h : optional? read? j = some (some a)) : read? j = some a := by
  unfold optional? at h
  split at h
  · cases h
  · obtain ⟨b, hb, heq⟩ := Option.map_eq_some_iff.1 h
    exact Option.some.inj heq ▸ hb

theorem fill?_eq_some {α : Type} {slot a b : Option α} (h : fill? slot a = some b) :
    slot = none ∧ a = b := by
  unfold fill? at h
  split at h
  · cases h
    exact ⟨rfl, rfl⟩
  · cases h

end Json

namespace Node

mutual

/-- The number of nodes, arrays and objects that stand inside each other. -/
def depth : Node → Nat
  | ⟨_, _, _, _, _, children, props⟩ =>
    max (childrenDepth children) (Value.fieldsDepth (props.getD [])) + 1

def childrenDepth : Option (List Node) → Nat
  | none => 0
  | some nodes => listDepth nodes

def listDepth : List Node → Nat
  | [] => 0
  | node :: nodes => max (depth node) (listDepth nodes)

end

theorem depth_eq (n : Node) :
    n.depth = max (listDepth n.childNodes) (Value.fieldsDepth (n.props.getD [])) + 1 := by
  obtain ⟨_, _, _, _, _, children, props⟩ := n
  cases children <;> simp [depth, childrenDepth, childNodes, listDepth]

theorem listDepth_childNodes_lt (n : Node) : listDepth n.childNodes < n.depth := by
  rw [depth_eq]
  omega

theorem depth_le_listDepth {n : Node} {nodes : List Node} (h : n ∈ nodes) : n.depth ≤ listDepth nodes := by
  induction nodes with
  | nil => cases h
  | cons m nodes ih =>
    rw [listDepth]
    rcases List.mem_cons.1 h with rfl | h
    · exact Nat.le_max_left _ _
    · exact Nat.le_trans (ih h) (Nat.le_max_right _ _)

theorem depth_lt_of_mem_childNodes {n m : Node} (h : m ∈ n.childNodes) : m.depth < n.depth :=
  Nat.lt_of_le_of_lt (depth_le_listDepth h) (listDepth_childNodes_lt n)

theorem depth_prop? {n : Node} {key : String} {v : Value} (h : n.prop? key = some v) :
    v.depth < n.depth := by
  have := Value.depth_le_fieldsDepth (Table.mem_of_get? h)
  rw [depth_eq]
  simp only at this
  omega

/-- What a draft holds so far is nested less deep than `bound`. -/
structure Draft.Within (d : Draft) (bound : Nat) : Prop where
  children : ∀ ns, d.children = some (some ns) → listDepth ns < bound
  props : ∀ t, d.props = some (some t) → Value.fieldsDepth t < bound

theorem Draft.Within.mono {d : Draft} {a b : Nat} (h : d.Within a) (hab : a ≤ b) : d.Within b :=
  ⟨fun ns hns => Nat.lt_of_lt_of_le (h.children ns hns) hab,
    fun t ht => Nat.lt_of_lt_of_le (h.props t ht) hab⟩

theorem Draft.Within.depth_node? {d : Draft} {bound : Nat} (h : d.Within bound) {n : Node}
    (hn : d.node? = some n) : n.depth ≤ bound + 1 := by
  obtain ⟨type, -, rfl⟩ := Option.map_eq_some_iff.1 hn
  rw [depth_eq]
  simp only [childNodes]
  have h1 : listDepth (d.children.join.getD []) ≤ bound := by
    rcases hc : d.children with _ | _ | ns
    · simp [listDepth]
    · simp [listDepth]
    · exact Nat.le_of_lt (h.children ns hc)
  have h2 : Value.fieldsDepth (d.props.join.getD []) ≤ bound := by
    rcases hc : d.props with _ | _ | t
    · simp [Value.fieldsDepth]
    · simp [Value.fieldsDepth]
    · exact Nat.le_of_lt (h.props t hc)
  omega

/-- Adding a field to a draft keeps it within a bound, given what is known of an array of children. -/
theorem put?_within {key : String} {j : Json} {d e : Draft} {bound : Nat}
    (hc : ∀ items ns, j = .array items → ofList? items = some ns → listDepth ns < j.depth)
    (hd : d.Within bound) (hj : j.depth ≤ bound) (h : put? key j d = some e) : e.Within bound := by
  unfold put? at h
  split at h
  case h_6 =>
    obtain ⟨c, hfill, rfl⟩ := Option.map_eq_some_iff.1 h
    obtain ⟨-, hcs⟩ := Json.fill?_eq_some hfill
    refine ⟨fun ns hns => ?_, hd.props⟩
    have hcs := hcs.trans hns
    split at hcs
    · cases hcs
    · obtain ⟨ms, hms, heq⟩ := Option.map_eq_some_iff.1 hcs
      cases heq
      exact Nat.lt_of_lt_of_le (hc _ _ rfl hms) hj
    · cases hcs
  case h_7 =>
    obtain ⟨p, hfill, rfl⟩ := Option.map_eq_some_iff.1 h
    obtain ⟨-, hps⟩ := Json.fill?_eq_some hfill
    refine ⟨hd.children, fun t ht => ?_⟩
    exact Nat.lt_of_lt_of_le (Json.depth_fields? (Json.optional?_eq_some (hps.trans ht))) hj
  case h_8 =>
    cases h
    exact hd
  all_goals
    obtain ⟨_, _, rfl⟩ := Option.map_eq_some_iff.1 h
    exact ⟨hd.children, hd.props⟩

mutual

theorem depth_ofJson? : (j : Json) → (n : Node) → ofJson? j = some n → n.depth ≤ j.depth
  | .object members, n, h => by
    obtain ⟨d, hd, hn⟩ := Option.bind_eq_some_iff.1 h
    simpa only [Json.depth] using (within_ofMembers? members d hd).depth_node? hn
  | .array items, n, h => by
    obtain ⟨d, hd, hn⟩ := Option.bind_eq_some_iff.1 h
    simpa only [Json.depth] using (within_ofItems? fieldNames items d hd).depth_node? hn
  | .null, _, h | .bool _, _, h | .int _, _, h | .double _, _, h | .string _, _, h
  | .unreadable, _, h => by cases h

theorem within_ofMembers? : (ms : List (String × Json)) → (d : Draft) → ofMembers? ms = some d →
    d.Within (Json.membersDepth ms)
  | [], d, h => by
    cases h
    exact ⟨fun _ h => by simp at h, fun _ h => by simp at h⟩
  | (key, j) :: rest, d, h => by
    simp only [ofMembers?, Option.bind_eq_bind, Option.bind_eq_some_iff] at h
    obtain ⟨e, he, hput⟩ := h
    simp only [Json.membersDepth]
    exact put?_within (listDepth_array j) ((within_ofMembers? rest e he).mono (Nat.le_max_right _ _))
      (Nat.le_max_left _ _) hput

theorem within_ofItems? : (names : List String) → (js : List Json) → (d : Draft) →
    ofItems? names js = some d → d.Within (Json.itemsDepth js)
  | _, [], d, h => by
    cases h
    exact ⟨fun _ h => by simp at h, fun _ h => by simp at h⟩
  | [], _ :: _, d, h => by cases h
  | name :: names, j :: rest, d, h => by
    simp only [ofItems?, Option.bind_eq_bind, Option.bind_eq_some_iff] at h
    obtain ⟨e, he, hput⟩ := h
    simp only [Json.itemsDepth]
    exact put?_within (listDepth_array j)
      ((within_ofItems? names rest e he).mono (Nat.le_max_right _ _)) (Nat.le_max_left _ _) hput

theorem listDepth_array : (j : Json) → (items : List Json) → (ns : List Node) → j = .array items →
    ofList? items = some ns → listDepth ns < j.depth
  | .array items, _, ns, rfl, h => by
    simpa only [Json.depth] using Nat.lt_succ_of_le (listDepth_ofList? items ns h)

theorem listDepth_ofList? : (js : List Json) → (ns : List Node) → ofList? js = some ns →
    listDepth ns ≤ Json.itemsDepth js
  | [], ns, h => by
    cases h
    exact Nat.le_refl _
  | j :: rest, ns, h => by
    simp only [ofList?, Option.bind_eq_bind, Option.bind_eq_some_iff, Option.pure_def,
      Option.some.injEq] at h
    obtain ⟨n, hn, ms, hms, rfl⟩ := h
    have h1 := depth_ofJson? j n hn
    have h2 := listDepth_ofList? rest ms hms
    simp only [listDepth, Json.itemsDepth]
    omega

end

/-- A node read from a value is nested no deeper than the value. -/
theorem depth_ofValue? {v : Value} {n : Node} (h : ofValue? v = some n) : n.depth ≤ v.depth := by
  cases v with
  | object fields =>
    rw [← Value.depth_toJson]
    exact depth_ofJson? _ n h
  | _ => cases h

/-- A node read from a prop is nested less deep than the node with the prop. -/
theorem depth_nodeProp? {n m : Node} {key : String} (h : n.nodeProp? key = some m) :
    m.depth < n.depth := by
  obtain ⟨v, hv, hm⟩ := Option.bind_eq_some_iff.1 h
  exact Nat.lt_of_le_of_lt (depth_ofValue? hm) (depth_prop? hv)

end Node

end ViewEngine
