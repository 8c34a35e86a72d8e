import ViewEngine.Proofs.Document.Recast

/-!
# Two ways to decode a document

A document is decoded from the datum that a text spells, or from the datum of the value that the text is
read as. Both ways give the same document, or none, as long as no record in the text has a field twice: the
first way refuses such a record, and on the second way the last field counts
(`Value.decode?_documents`).
-/

namespace ViewEngine

namespace Json

/-- A datum that is taken for a record if another one is: that datum itself, and the items of the array in
the field `inner` of such a record. -/
inductive IsRecordIn (names : List String) (inner : String) : Json → Json → Prop where
  | self (j : Json) : IsRecordIn names inner j j
  | item {j k item : Json} {fields : List (String × Json)} {items : List Json}
    (hfields : k.record? names = some fields) (hitems : (inner, .array items) ∈ fields)
    (hitem : item ∈ items) (h : IsRecordIn names inner j item) : IsRecordIn names inner j k

/-- No object that is taken for a record has a field twice. -/
def NoRepeats (names : List String) (inner : String) (j : Json) : Prop :=
  ∀ members, IsRecordIn names inner (.object members) j → Distinct names members

variable {names : List String} {inner : String}

theorem noRepeats_iff {j : Json} :
    j.NoRepeats names inner ↔ (∀ members, j = object members → Distinct names members) ∧
      ∀ fields items, j.record? names = some fields → (inner, .array items) ∈ fields →
        ∀ item ∈ items, item.NoRepeats names inner := by
  constructor
  · exact fun h => ⟨fun members hj => h members (hj ▸ .self _), fun fields items hfields hitems item hitem
      members hmembers => h members (.item hfields hitems hitem hmembers)⟩
  · rintro ⟨hself, hitem⟩ members hmembers
    cases hmembers with
    | self => exact hself members rfl
    | item hfields hitems hmem h => exact hitem _ _ hfields hitems _ hmem members h

theorem depth_lt_of_mem_array {items : List Json} {j : Json} (h : j ∈ items) :
    j.depth < (array items).depth :=
  Nat.lt_succ_of_le (itemsDepth_le.1 (Nat.le_refl _) j h)

/-- A field of a record is nested less deep than the record. -/
theorem depth_lt_of_record? {j : Json} {fields : List (String × Json)} {e : String × Json}
    (h : j.record? names = some fields) (he : e ∈ fields) : e.2.depth < j.depth := by
  cases j with
  | object members =>
    cases h
    exact Nat.lt_succ_of_le (membersDepth_le.1 (Nat.le_refl _) e he)
  | array items =>
    rw [record?] at h
    split at h
    · cases h
      exact depth_lt_of_mem_array (List.of_mem_zip he).2
    · cases h
  | _ => cases h

/-- A document with documents of the same kind in one of its fields is read alike from a datum and its
recast. -/
theorem IsRecast.nested {α : Type} {read? : Json → Option α} {Is : α → (String → Option Json) → Prop}
    (hread : ∀ {j a}, read? j = some a ↔
      ∃ fields, j.record? names = some fields ∧ Distinct names fields ∧ Is a (Table.get? fields))
    (hnames : names.Nodup) (hinner : inner ∈ names)
    (hagree : ∀ get get', SameFields names get get' →
      slot? (optional? (list? read?)) (get inner) = slot? (optional? (list? read?)) (get' inner) →
      ∀ a, Is a get ↔ Is a get')
    (x y : Json) (h : IsRecast x y) (hrepeats : x.NoRepeats names inner) : read? x = read? y := by
  obtain ⟨hself, hitems⟩ := noRepeats_iff.1 hrepeats
  refine h.document hread hnames hself fun fields get' hfields hsame =>
    hagree _ _ hsame (slot?_congr (hsame inner hinner) ?_)
  intro c c' hc hcc
  refine hcc.optional (hcc.list fun items hc' j hj k hjk => ?_)
  have hmem : (inner, .array items) ∈ fields := Table.mem_of_get? (hc' ▸ hc)
  exact IsRecast.nested hread hnames hinner hagree j k hjk (hitems fields items hfields hmem j hj)
termination_by x.depth
decreasing_by exact Nat.lt_trans (depth_lt_of_mem_array hj) (depth_lt_of_record? hfields hmem)

end Json

/-- What the text of a datum spells: the datum, but for what the reader makes of its doubles. -/
theorem Json.read?_text [NumberReader] {j : Json} (h : j.IsPrintable) (hdepth : j.depth ≤ Json.maxDepth) :
    Json.read? (Utf8.encode j.text) = some j.reread := by
  rw [Json.read?, Utf8.symbols_encode, Json.text, String.toList_ofList]
  exact Json.readSymbols?_compact h hdepth

open Json (IsRecast SameFields slot?_congr)

/-! ## The four documents -/

namespace Node

/-- No node in the datum has a field twice. -/
def NoRepeats (j : Json) : Prop := j.NoRepeats fieldNames "children"

theorem ofJson?_of_isRecast {x y : Json} (h : IsRecast x y) (hrepeats : NoRepeats x) :
    ofJson? x = ofJson? y := by
  refine IsRecast.nested ofJson?_eq_some (by decide) (by decide) ?_ x y h hrepeats
  intro get get' hsame hchildren n
  simp only [SameFields, fieldNames, List.forall_mem_cons] at hsame
  obtain ⟨htype, hid, hstyle, hinlineStyle, hcondition, -, hprops, -⟩ := hsame
  simp only [FoundBy, Draft.holds_iff, hchildren, slot?_congr htype fun _ _ _ h => h.text,
    slot?_congr hid fun _ _ _ h => h.optional h.text,
    slot?_congr hstyle fun _ _ _ h => h.optional h.text,
    slot?_congr hinlineStyle fun _ _ _ h => h.optional h.fields,
    slot?_congr hcondition fun _ _ _ h => h.optional h.text,
    slot?_congr hprops fun _ _ _ h => h.optional h.fields]

end Node

namespace Action

/-- No action in the datum has a field twice. -/
def NoRepeats (j : Json) : Prop := j.NoRepeats fieldNames "actions"

theorem ofJson?_of_isRecast {x y : Json} (h : IsRecast x y) (hrepeats : NoRepeats x) :
    ofJson? x = ofJson? y := by
  refine IsRecast.nested ofJson?_eq_some (by decide) (by decide) ?_ x y h hrepeats
  intro get get' hsame hactions a
  simp only [SameFields, fieldNames, List.forall_mem_cons] at hsame
  obtain ⟨htype, hscreen, hparams, hendpoint, hresultKey, hkey, hvalue, hevent, hpayload, -, hbinding, -⟩ :=
    hsame
  simp only [FoundBy, Draft.holds_iff, hactions, slot?_congr htype fun _ _ _ h => h.text,
    slot?_congr hscreen fun _ _ _ h => h.optional h.text,
    slot?_congr hparams fun _ _ _ h => h.optional h.fields,
    slot?_congr hendpoint fun _ _ _ h => h.optional h.text,
    slot?_congr hresultKey fun _ _ _ h => h.optional h.text,
    slot?_congr hkey fun _ _ _ h => h.optional h.text,
    slot?_congr hvalue fun _ _ _ h => h.optional h.value,
    slot?_congr hevent fun _ _ _ h => h.optional h.text,
    slot?_congr hpayload fun _ _ _ h => h.optional h.fields,
    slot?_congr hbinding fun _ _ _ h => h.optional h.text]

end Action

namespace Component

/-- Neither the component nor a node in its body has a field twice. -/
structure NoRepeats (j : Json) : Prop where
  self : ∀ members, j = .object members → Json.Distinct fieldNames members
  body : ∀ fields body, j.record? fieldNames = some fields → ("body", body) ∈ fields → Node.NoRepeats body

theorem ofJson?_of_isRecast {x y : Json} (h : IsRecast x y) (hrepeats : NoRepeats x) :
    ofJson? x = ofJson? y := by
  refine h.document ofJson?_eq_some (by decide) hrepeats.self ?_
  intro fields get' hfields hsame c
  simp only [SameFields, fieldNames, List.forall_mem_cons] at hsame
  obtain ⟨hparameters, hbody, -⟩ := hsame
  simp only [FoundBy, Draft.holds_iff, slot?_congr hparameters fun _ _ _ h => h.texts,
    slot?_congr hbody fun _ _ hget h =>
      Node.ofJson?_of_isRecast h (hrepeats.body fields _ hfields (Table.mem_of_get? hget))]

end Component

namespace Tab

/-- The tab does not have a field twice. -/
def NoRepeats (j : Json) : Prop := ∀ members, j = .object members → Json.Distinct fieldNames members

theorem ofJson?_of_isRecast {x y : Json} (h : IsRecast x y) (hrepeats : NoRepeats x) :
    ofJson? x = ofJson? y := by
  refine h.document ofJson?_eq_some (by decide) hrepeats ?_
  intro fields get' hfields hsame t
  simp only [SameFields, fieldNames, List.forall_mem_cons] at hsame
  obtain ⟨htitle, hicon, hscreen, -⟩ := hsame
  simp only [FoundBy, Draft.holds_iff, slot?_congr htitle fun _ _ _ h => h.text,
    slot?_congr hicon fun _ _ _ h => h.text, slot?_congr hscreen fun _ _ _ h => h.text]

end Tab

namespace Value

/-- **The typed decoders agree.** Of a text that spells a value and in which no record has a field twice, a
document is decoded directly exactly if it is decoded from the value, and it is the same document. -/
theorem decode?_documents [NumberReader] {bytes : List UInt8} {j : Json} {v : Value} (hj : Json.read? bytes = some j)
    (hv : decode? bytes = some v) :
    (Node.NoRepeats j → Node.decode? bytes = Node.ofJson? v.toJson) ∧
    (Action.NoRepeats j → Action.decode? bytes = Action.ofJson? v.toJson) ∧
    (Component.NoRepeats j → (Json.read? bytes).bind Component.ofJson? = Component.ofJson? v.toJson) ∧
    (Tab.NoRepeats j → (Json.read? bytes).bind Tab.ofJson? = Tab.ofJson? v.toJson) := by
  obtain ⟨htabled, hfinite, -⟩ := isFinite_of_decode? hv
  have hread : read? j = some v := by
    rw [decode?, hj] at hv
    exact hv
  have hrecast : IsRecast j v.toJson := ⟨v, hread, hfinite, htabled, rfl⟩
  rw [Node.decode?, Action.decode?, hj]
  exact ⟨Node.ofJson?_of_isRecast hrecast, Action.ofJson?_of_isRecast hrecast,
    Component.ofJson?_of_isRecast hrecast, Tab.ofJson?_of_isRecast hrecast⟩

/-- A node as an object, with an unknown field, a null, a repeated key and an integer past the signed range
inside its props and a child in array form, and an action as an array. -/
theorem decode?_documents_mixed :
    (let j : Json := .object [("type", .string "vstack"), ("note", .array []), ("id", .null),
      ("props", .object [("b", .int 1), ("b", .bool true), ("a", .int 9223372036854775808)]),
      ("children", .array [.array [.string "text", .null]])]
    let v : Value := object [("children", array [array [string "text", null]]), ("id", null),
      ("note", array []),
      ("props", object [("a", double (Binary64.ofInt 9223372036854775808)), ("b", bool true)]),
      ("type", string "vstack")]
    Json.read? (Utf8.encode j.text) = some j ∧ decode? (Utf8.encode j.text) = some v ∧ Node.NoRepeats j ∧
      Node.decode? (Utf8.encode j.text) = Node.ofJson? v.toJson) ∧
    (let j : Json := .array [.string "setState", .null, .object [("k", .int 1), ("k", .int 2)]]
    let v : Value := array [string "setState", null, object [("k", int 2)]]
    Json.read? (Utf8.encode j.text) = some j ∧ decode? (Utf8.encode j.text) = some v ∧ Action.NoRepeats j ∧
      Action.decode? (Utf8.encode j.text) = Action.ofJson? v.toJson) := by
  constructor
  · intro j v
    have hj : Json.read? (Utf8.encode j.text) = some j := by
      refine Json.read?_text ?_ (by decide)
      simp [j, Json.IsPrintable, Json.parts, Json.itemParts, Json.memberParts, Json.Fits, Json.FitsInt]
    have hv : decode? (Utf8.encode j.text) = some v := by
      rw [decode?, hj]
      rfl
    have hrepeats : Node.NoRepeats j := by
      refine Json.noRepeats_iff.2 ⟨?_, ?_⟩
      · intro members hj
        cases Json.object.inj hj
        unfold Json.Distinct
        decide
      · rintro fields items ⟨⟩ hitems item hitem
        obtain rfl : items = [.array [.string "text", .null]] := by simpa using hitems
        obtain rfl := List.mem_singleton.1 hitem
        refine Json.noRepeats_iff.2 ⟨?_, ?_⟩
        · rintro members ⟨⟩
        · rintro fields items ⟨⟩ hitems
          simp [Node.fieldNames] at hitems
    exact ⟨hj, hv, hrepeats, (decode?_documents hj hv).1 hrepeats⟩
  · intro j v
    have hj : Json.read? (Utf8.encode j.text) = some j := by
      refine Json.read?_text ?_ (by decide)
      simp [j, Json.IsPrintable, Json.parts, Json.itemParts, Json.memberParts, Json.Fits, Json.FitsInt]
    have hv : decode? (Utf8.encode j.text) = some v := by
      rw [decode?, hj]
      rfl
    have hrepeats : Action.NoRepeats j := by
      refine Json.noRepeats_iff.2 ⟨?_, ?_⟩
      · simp [j]
      · rintro fields items ⟨⟩ hitems
        simp [Action.fieldNames] at hitems
    exact ⟨hj, hv, hrepeats, (decode?_documents hj hv).2.1 hrepeats⟩

end Value

end ViewEngine
