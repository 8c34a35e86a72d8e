import ViewEngine.Document.Component
import ViewEngine.Proofs.Document.Fields
import ViewEngine.Theme.Basic

/-!
# Documents that load

Which documents a theme and the components are loaded from. Either is a record with fields of its own, none of
them twice and each of the right type; a theme may leave out any of its three (`Theme.load_eq_ok_iff`), and the
components must be there (`Registry.load_eq_ok_iff`). What is loaded names everything once.
-/

namespace ViewEngine

open Json (Distinct ReadsFields fill?_none fill?_eq_some_iff slot? slot?_none slot?_some)

theorem Source.load_eq_ok_iff {α : Type} {read? : Json → Option α} {source : Source} {name : String} {a : α} :
    source.load read? name = .ok a ↔
      ∃ bytes j, source name = .ok bytes ∧ Json.read? bytes = some j ∧ read? j = some a := by
  simp only [load, bind, Except.bind]
  cases source name with
  | error e => simp
  | ok bytes =>
    cases hj : Json.read? bytes with
    | none => simp [hj]
    | some j => cases ha : read? j <;> simp [hj, ha]

namespace Json

end Json

/-! ## Themes -/

namespace ThemeDocument

/-- The fields of a theme document, in the order in which an array gives them. -/
def fieldNames : List String := ["colors", "fonts", "presets"]

/-- The draft holds what is found under the names of the fields. -/
@[mk_iff]
structure Draft.Holds (d : Draft) (get : String → Option Json) : Prop where
  colours : slot? (Json.optional? Json.fields?) (get "colors") = some d.colours
  fonts : slot? (Json.optional? (Json.table? Font.ofJson?)) (get "fonts") = some d.fonts
  presets : slot? (Json.optional? (Json.table? Json.fields?)) (get "presets") = some d.presets

/-- The draft before a field was put in. -/
def Draft.without (key : String) (d : Draft) : Draft :=
  match key with
  | "colors" => { d with colours := none }
  | "fonts" => { d with fonts := none }
  | "presets" => { d with presets := none }
  | _ => d

theorem put?_of_not_mem {key : String} (j : Json) (d : Draft) (h : key ∉ fieldNames) :
    d.put? (key, j) = some d := by
  simp only [fieldNames, List.mem_cons, List.not_mem_nil, or_false, not_or] at h
  unfold Draft.put?
  split <;> simp_all

theorem holds_put? {key : String} {j : Json} {get : String → Option Json} {d : Draft}
    (hkey : key ∈ fieldNames) :
    (∃ e : Draft, e.Holds get ∧ e.put? (key, j) = some d) ↔
      get key = none ∧ d.Holds fun name => if key = name then some j else get name := by
  simp only [fieldNames, List.mem_cons, List.not_mem_nil, or_false] at hkey
  constructor
  · rintro ⟨e, he, hput⟩
    rcases hkey with rfl | rfl | rfl
    all_goals
      simp only [Draft.put?, Option.map_eq_some_iff, fill?_eq_some_iff] at hput
      obtain ⟨x, ⟨hslot, hx⟩, rfl⟩ := hput
      simp_all [Draft.holds_iff]
  · rintro ⟨hnone, hd⟩
    refine ⟨d.without key, ?_⟩
    cases d
    rcases hkey with rfl | rfl | rfl
    all_goals
      simp only [Draft.holds_iff, String.reduceEq, if_true, if_false, slot?_some] at hd
      simp only [Draft.put?, Draft.holds_iff, Draft.without, fill?_none, hd, hnone, slot?_none,
        Option.map_some, and_self]

theorem readsFields :
    ReadsFields fieldNames ({} : Draft) (fun key j d => d.put? (key, j)) Draft.Holds where
  start {d} := by
    cases d
    simp [Draft.holds_iff, eq_comm]
  congr h hd := by
    simp only [fieldNames, List.forall_mem_cons] at h
    simpa only [Draft.holds_iff, h] using hd
  put := holds_put?
  skip := put?_of_not_mem _ _

/-- A field that is left out, or is null, stands for an empty table. -/
def Draft.document (d : Draft) : ThemeDocument where
  colours := d.colours.join.getD []
  fonts := d.fonts.join.getD []
  presets := d.presets.join.getD []

theorem ofJson?_eq_some {j : Json} {document : ThemeDocument} :
    ofJson? j = some document ↔ ∃ fields, j.record? fieldNames = some fields ∧ Distinct fieldNames fields ∧
      ∃ d : Draft, d.Holds (Table.get? fields) ∧ d.document = document := by
  have hfold (fields : List (String × Json)) (d : Draft) : fields.foldlM Draft.put? {} = some d ↔
      Distinct fieldNames fields ∧ d.Holds (Table.get? fields) := readsFields.foldlM_eq_some
  simp only [ofJson?, Option.bind_eq_bind, Option.bind_eq_some_iff, Option.pure_def, Option.some.injEq, hfold,
    and_assoc, exists_and_left, fieldNames, Draft.document]

end ThemeDocument

theorem Theme.load_eq_ok {t t' : Theme} {source : Source} :
    t.load source = (.ok (), t') ↔
      ∃ document, ThemeDocument.ofSource source = .ok document ∧ t.update document = t' := by
  rw [load]
  cases ThemeDocument.ofSource source <;> simp

/-- **What a theme loads.** A load succeeds exactly if there is a document, its text is a datum, and the datum is a
record of colours, fonts and presets in which none of them stands twice and each is left out, null or as it should
be. The theme then takes over the document. Whether it succeeds does not depend on the theme. -/
theorem Theme.load_eq_ok_iff {t t' : Theme} {source : Source} :
    t.load source = (.ok (), t') ↔ ∃ bytes j fields, ∃ d : ThemeDocument.Draft,
      source Source.themeName = .ok bytes ∧ Json.read? bytes = some j ∧
      j.record? ThemeDocument.fieldNames = some fields ∧ Distinct ThemeDocument.fieldNames fields ∧
      d.Holds (Table.get? fields) ∧ t' = t.update d.document := by
  simp only [load_eq_ok, ThemeDocument.ofSource, Source.load_eq_ok_iff, ThemeDocument.ofJson?_eq_some]
  constructor
  · rintro ⟨_, ⟨bytes, j, hbytes, hj, fields, hfields, hdistinct, d, hd, rfl⟩, rfl⟩
    exact ⟨bytes, j, fields, d, hbytes, hj, hfields, hdistinct, hd, rfl⟩
  · rintro ⟨bytes, j, fields, d, hbytes, hj, hfields, hdistinct, hd, rfl⟩
    exact ⟨_, ⟨bytes, j, hbytes, hj, fields, hfields, hdistinct, d, hd, rfl⟩, rfl⟩

/-! ## Components -/

namespace Component

theorem readsComponents : ReadsFields ["components"] (none : Option (Table Component))
    (fun key j slot => if key = "components" then Json.fill? slot (Json.table? ofJson? j) else some slot)
    (fun slot get => slot? (Json.table? ofJson?) (get "components") = some slot) where
  start := by simp [eq_comm]
  congr h hslot := by rwa [← h _ (List.mem_singleton_self _)]
  put {key j get slot} hkey := by
    obtain rfl := List.mem_singleton.1 hkey
    simp only [if_true, fill?_eq_some_iff, slot?_some]
    constructor
    · rintro ⟨_, hget, rfl, hslot⟩
      exact ⟨Json.slot?_eq_some_none.1 hget, hslot⟩
    · rintro ⟨hnone, hslot⟩
      exact ⟨none, Json.slot?_eq_some_none.2 hnone, rfl, hslot⟩
  skip hkey := if_neg fun h => hkey (List.mem_singleton.2 h)

theorem allOfJson?_eq_some {j : Json} {all : Table Component} :
    allOfJson? j = some all ↔ ∃ fields, j.record? ["components"] = some fields ∧
      Distinct ["components"] fields ∧ ∃ held, Table.get? fields "components" = some held ∧
        Json.table? ofJson? held = some all := by
  have hfold (fields : List (String × Json)) (slot : Option (Table Component)) :
      fields.foldlM (fun (slot : Option (Table Component)) field =>
        if field.1 = "components" then Json.fill? slot (Json.table? ofJson? field.2) else some slot) none =
        some slot ↔
      Distinct ["components"] fields ∧ slot? (Json.table? ofJson?) (Table.get? fields "components") = some slot :=
    readsComponents.foldlM_eq_some
  have hslot (field : Option Json) : slot? (Json.table? ofJson?) field = some (some all) ↔
      ∃ held, field = some held ∧ Json.table? ofJson? held = some all := by
    cases field <;> simp
  simp only [allOfJson?, Option.bind_eq_bind, Option.bind_eq_some_iff, hfold, and_assoc, exists_and_left,
    exists_eq_right, hslot]

end Component

theorem Registry.ofSource_eq_ok_iff {source : Source} {all : Registry} :
    ofSource source = .ok all ↔ ∃ bytes j fields held,
      source Source.componentsName = .ok bytes ∧ Json.read? bytes = some j ∧
      j.record? ["components"] = some fields ∧ Distinct ["components"] fields ∧
      Table.get? fields "components" = some held ∧ Json.table? Component.ofJson? held = some all := by
  simp only [ofSource, Source.load_eq_ok_iff, Component.allOfJson?_eq_some, exists_and_left]

/-- **What a registry loads.** A load succeeds exactly if there is a document, its text is a datum, and the datum is
a record that has one object of components. These are then all that the registry holds, and their number is told. -/
theorem Registry.load_eq_ok_iff {r all : Registry} {source : Source} {count : Nat} :
    r.load source = (.ok count, all) ↔ count = all.length ∧ ∃ bytes j fields held,
      source Source.componentsName = .ok bytes ∧ Json.read? bytes = some j ∧
      j.record? ["components"] = some fields ∧ Distinct ["components"] fields ∧
      Table.get? fields "components" = some held ∧ Json.table? Component.ofJson? held = some all := by
  rw [← ofSource_eq_ok_iff, load]
  cases ofSource source with
  | error e => simp
  | ok loaded =>
    simp only [Prod.mk.injEq, Except.ok.injEq]
    constructor
    · rintro ⟨rfl, rfl⟩
      exact ⟨rfl, rfl⟩
    · rintro ⟨rfl, rfl⟩
      exact ⟨rfl, rfl⟩

end ViewEngine
