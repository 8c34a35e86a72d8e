import ViewEngine.Proofs.Document.Drafts
import ViewEngine.Proofs.Value.RoundTrip
import Mathlib.Data.List.Forall2
import Mathlib.Data.Option.Basic

/-!
# Data by way of values

A datum that is read as a value and turned back into a datum has changed: the members of its objects are
sorted and repetitions gone, large integers are doubles. No reader of a field can tell the difference.
-/

namespace ViewEngine

namespace Json

/-- The second datum is that of the value that the first is read as. -/
def IsRecast (x y : Json) : Prop :=
  ∃ v, Value.read? x = some v ∧ v.IsFinite ∧ v.IsTabled ∧ y = v.toJson

/-- What there is to see of a datum and its recast. -/
inductive Recast : Json → Json → Prop where
  | null : Recast null null
  | bool (b : Bool) : Recast (bool b) (bool b)
  | number {x y : Json} (hx : x.number?.isSome) (hy : y.number?.isSome) : Recast x y
  | string (s : String) : Recast (string s) (string s)
  | array {items items' : List Json} (h : List.Forall₂ IsRecast items items') :
    Recast (array items) (array items')
  | object {members : List (String × Json)} {entries : List (String × Value)}
    (h : Value.readMembers? members = some entries)
    (hfinite : (Value.object (Table.ofList entries)).IsFinite)
    (htabled : (Value.object (Table.ofList entries)).IsTabled) :
    Recast (object members) (object (Value.toJsonMembers (Table.ofList entries)))

variable {x y : Json}

theorem number?_toJson_ofInt {i : Int} (h : (Value.ofInt i).IsFinite) :
    (Value.ofInt i).toJson.number?.isSome := by
  unfold Value.ofInt at h ⊢
  split
  · rfl
  · rename_i heq
    rw [heq] at h
    rw [Value.toJson, if_pos (Value.isFinite_double.1 h)]
    rfl

theorem forall₂_isRecast {items : List Json} {vs : List Value} (h : Value.readItems? items = some vs)
    (hfinite : ∀ v ∈ vs, v.IsFinite) (htabled : ∀ v ∈ vs, v.IsTabled) :
    List.Forall₂ IsRecast items (Value.toJsonItems vs) := by
  induction items generalizing vs with
  | nil =>
    cases h
    exact .nil
  | cons j rest ih =>
    simp only [Value.readItems?, Option.bind_eq_bind, Option.bind_eq_some_iff, Option.pure_def,
      Option.some.injEq] at h
    obtain ⟨v, hv, ws, hws, rfl⟩ := h
    obtain ⟨hvfinite, hwsfinite⟩ := List.forall_mem_cons.1 hfinite
    obtain ⟨hvtabled, hwstabled⟩ := List.forall_mem_cons.1 htabled
    exact .cons ⟨v, hv, hvfinite, hvtabled, rfl⟩ (ih hws hwsfinite hwstabled)

theorem IsRecast.recast (h : IsRecast x y) : Recast x y := by
  obtain ⟨v, hv, hfinite, htabled, rfl⟩ := h
  cases x with
  | null =>
    cases hv
    exact .null
  | bool b =>
    cases hv
    exact .bool b
  | int i =>
    cases hv
    exact .number rfl (number?_toJson_ofInt hfinite)
  | double d =>
    cases hv
    rw [Value.toJson, if_pos (Value.isFinite_double.1 hfinite)]
    exact .number rfl rfl
  | string s =>
    cases hv
    exact .string s
  | array items =>
    obtain ⟨vs, hvs, rfl⟩ := Option.map_eq_some_iff.1 hv
    exact .array (forall₂_isRecast hvs (Value.isFinite_array.1 hfinite) (Value.isTabled_array.1 htabled))
  | object members =>
    obtain ⟨entries, hentries, rfl⟩ := Option.map_eq_some_iff.1 hv
    exact .object hentries hfinite htabled
  | unreadable => cases hv

/-! ## Readers of a field -/

theorem mapM_eq_of_forall₂ {α : Type} {read? : Json → Option α} {items items' : List Json}
    (h : List.Forall₂ (fun j k => read? j = read? k) items items') :
    items.mapM read? = items'.mapM read? := by
  induction h with
  | nil => rfl
  | cons hj _ ih => rw [List.mapM_cons, List.mapM_cons, hj, ih]

theorem optional?_of_ne_null {α : Type} {read? : Json → Option α} (h : x ≠ null) :
    optional? read? x = (read? x).map some := by
  unfold optional?
  split
  · contradiction
  · rfl

theorem fields?_eq (j : Json) : j.fields? = (Value.read? j).bind Value.object? := by
  cases j with
  | int i =>
    rw [Value.read?, Value.ofInt]
    cases int64? i <;> rfl
  | array items =>
    rw [Value.read?]
    cases Value.readItems? items <;> rfl
  | object members =>
    rw [Value.read?, fields?]
    cases Value.readMembers? members <;> rfl
  | _ => rfl

namespace IsRecast

theorem value (h : IsRecast x y) : Value.read? x = Value.read? y := by
  obtain ⟨v, hv, hfinite, htabled, rfl⟩ := h
  rw [hv, Value.read?_toJson v hfinite htabled]

theorem eq_null_iff (h : IsRecast x y) : x = null ↔ y = null := by
  cases h.recast with
  | null | bool | string | array | object => simp
  | number hx hy => constructor <;> rintro rfl <;> contradiction

theorem text (h : IsRecast x y) : x.text? = y.text? := by
  cases h.recast with
  | null | bool | string | array | object => rfl
  | number hx hy => cases x <;> cases y <;> first | rfl | contradiction

theorem fields (h : IsRecast x y) : x.fields? = y.fields? := by
  rw [fields?_eq, fields?_eq, h.value]

theorem list {α : Type} {read? : Json → Option α} (h : IsRecast x y)
    (hread : ∀ items, x = .array items → ∀ j ∈ items, ∀ k, IsRecast j k → read? j = read? k) :
    list? read? x = list? read? y := by
  cases h.recast with
  | null | bool | string | object => rfl
  | number hx hy => cases x <;> cases y <;> first | rfl | contradiction
  | array hitems =>
    exact mapM_eq_of_forall₂
      (((List.forall₂_and_left _ _).2 ⟨hread _ rfl, hitems⟩).imp fun j k hjk => hjk.1 k hjk.2)

theorem texts (h : IsRecast x y) : x.texts? = y.texts? := by
  have hlist (j : Json) : j.texts? = list? text? j := by cases j <;> rfl
  rw [hlist, hlist, h.list fun _ _ _ _ _ hjk => hjk.text]

theorem optional {α : Type} {read? : Json → Option α} (h : IsRecast x y) (hread : read? x = read? y) :
    optional? read? x = optional? read? y := by
  by_cases hx : x = .null
  · rw [hx, h.eq_null_iff.1 hx]
  · rw [optional?_of_ne_null hx, optional?_of_ne_null (mt h.eq_null_iff.2 hx), hread]

end IsRecast

/-! ## Records -/

/-- The same name is found in neither, or in both with a datum and its recast. -/
abbrev SameFields (names : List String) (get get' : String → Option Json) : Prop :=
  ∀ name ∈ names, Option.Rel IsRecast (get name) (get' name)

theorem slot?_congr {α : Type} {read? : Json → Option α} {a b : Option Json} (h : Option.Rel IsRecast a b)
    (hread : ∀ x y, a = some x → IsRecast x y → read? x = read? y) : slot? read? a = slot? read? b := by
  cases h with
  | some hxy => rw [slot?_some, slot?_some, hread _ _ rfl hxy]
  | none => rfl

theorem keys_readMembers? {members : List (String × Json)} {entries : List (String × Value)}
    (h : Value.readMembers? members = some entries) : Table.keys entries = Table.keys members := by
  induction members generalizing entries with
  | nil =>
    cases h
    rfl
  | cons m rest ih =>
    simp only [Value.readMembers?, Option.bind_eq_bind, Option.bind_eq_some_iff, Option.pure_def,
      Option.some.injEq] at h
    obtain ⟨v, -, ws, hws, rfl⟩ := h
    exact congrArg _ (ih hws)

theorem get?_readMembers? {members : List (String × Json)} {entries : List (String × Value)}
    (h : Value.readMembers? members = some entries) (key : String) :
    Option.Rel (fun j v => Value.read? j = some v) (Table.get? members key) (Table.get? entries key) := by
  induction members generalizing entries with
  | nil =>
    cases h
    exact .none
  | cons m rest ih =>
    simp only [Value.readMembers?, Option.bind_eq_bind, Option.bind_eq_some_iff, Option.pure_def,
      Option.some.injEq] at h
    obtain ⟨v, hv, ws, hws, rfl⟩ := h
    simp only [Table.get?]
    split
    · exact .some hv
    · exact ih hws

theorem get?_toJsonMembers (fields : List (String × Value)) (key : String) :
    Table.get? (Value.toJsonMembers fields) key = (Table.get? fields key).map Value.toJson := by
  induction fields with
  | nil => rfl
  | cons e rest ih =>
    simp only [Value.toJsonMembers, Table.get?, ih]
    split <;> rfl

theorem keys_toJsonMembers (fields : List (String × Value)) :
    Table.keys (Value.toJsonMembers fields) = Table.keys fields := by
  induction fields with
  | nil => rfl
  | cons e rest ih => exact congrArg _ ih

theorem sameFields_object {names : List String} {members : List (String × Json)}
    {entries : List (String × Value)} (h : Value.readMembers? members = some entries)
    (hfinite : (Value.object (Table.ofList entries)).IsFinite)
    (htabled : (Value.object (Table.ofList entries)).IsTabled) (hdistinct : Distinct names members) :
    SameFields names (Table.get? members) (Table.get? (Value.toJsonMembers (Table.ofList entries))) := by
  intro name hname
  have hcount : (Table.keys entries).count name ≤ 1 := by
    rw [keys_readMembers? h]
    exact hdistinct name hname
  have hget : Table.get? (Table.ofList entries) name = Table.get? entries name := by
    rw [Table.get?_ofList, Table.get?_reverse hcount]
  rw [get?_toJsonMembers, hget]
  have hrel := get?_readMembers? h name
  generalize hx : Table.get? members name = x at hrel
  generalize hv : Table.get? entries name = v at hrel
  cases hrel with
  | none => exact .none
  | some hread =>
    have hmem := Table.mem_of_get? (hget.trans hv)
    exact .some ⟨_, hread, Value.isFinite_object.1 hfinite _ hmem,
      (Value.isTabled_object.1 htabled).2 _ hmem, rfl⟩

theorem sameFields_zip {names : List String} {items items' : List Json}
    (h : List.Forall₂ IsRecast items items') :
    SameFields names (Table.get? (names.zip items)) (Table.get? (names.zip items')) := by
  intro name hname
  induction h generalizing names with
  | nil => cases names <;> exact .none
  | cons hj _ ih =>
    cases names with
    | nil => exact .none
    | cons head names =>
      simp only [List.zip_cons_cons, Table.get?]
      split
      case isTrue => exact .some hj
      case isFalse hne => exact ih ((List.mem_cons.1 hname).resolve_left (Ne.symm hne))

/-- Both data are records, with the same fields, or neither is. -/
theorem IsRecast.record? {names : List String} (hnames : names.Nodup) (h : IsRecast x y)
    (hdistinct : ∀ members, x = object members → Distinct names members) :
    (x.record? names = none ∧ y.record? names = none) ∨
    ∃ fields fields', x.record? names = some fields ∧ y.record? names = some fields' ∧
      Distinct names fields ∧ Distinct names fields' ∧
      SameFields names (Table.get? fields) (Table.get? fields') := by
  cases h.recast with
  | null | bool | string => exact .inl ⟨rfl, rfl⟩
  | number hx hy => cases x <;> cases y <;> first | exact .inl ⟨rfl, rfl⟩ | contradiction
  | array hitems =>
    rw [Json.record?, Json.record?, ← hitems.length_eq]
    split
    · exact .inr ⟨_, _, rfl, rfl, distinct_zip hnames _, distinct_zip hnames _, sameFields_zip hitems⟩
    · exact .inl ⟨rfl, rfl⟩
  | object hentries hfinite htabled =>
    refine .inr ⟨_, _, rfl, rfl, hdistinct _ rfl, distinct_of_nodup ?_,
      sameFields_object hentries hfinite htabled (hdistinct _ rfl)⟩
    rw [keys_toJsonMembers]
    exact Table.nodup_keys (Table.sorted_ofList _)

/-- A document that depends on nothing but its fields is read alike from a datum and its recast. -/
theorem IsRecast.document {α : Type} {names : List String} {read? : Json → Option α}
    {Is : α → (String → Option Json) → Prop}
    (hread : ∀ {j a}, read? j = some a ↔
      ∃ fields, j.record? names = some fields ∧ Distinct names fields ∧ Is a (Table.get? fields))
    (hnames : names.Nodup) (h : IsRecast x y)
    (hdistinct : ∀ members, x = object members → Distinct names members)
    (hagree : ∀ fields get', x.record? names = some fields → SameFields names (Table.get? fields) get' →
      ∀ a, Is a (Table.get? fields) ↔ Is a get') : read? x = read? y := by
  ext a
  rw [hread, hread]
  rcases h.record? hnames hdistinct with ⟨hx, hy⟩ | ⟨fields, fields', hx, hy, hxs, hys, hsame⟩
  · simp [hx, hy]
  · simp [hx, hy, hxs, hys, hagree fields _ hx hsame]

end Json

end ViewEngine
