import ViewEngine.Document.Shape
import ViewEngine.Proofs.Table.Order
import Mathlib.Data.List.Nodup

/-!
# Fields of a record

What a reader does that goes through the fields of a record one by one and keeps a draft: it succeeds if no
field of the record stands twice and each of them can be read on its own, and the draft then holds what was
read, whatever the order of the fields (`ReadsFields.foldrM_eq_some`). Proofs about typed documents go by
this and not by the readers.
-/

namespace ViewEngine

namespace Json

variable {α D : Type}

/-! ## Slots -/

theorem fill?_none (a : Option α) : fill? none a = a.map some := by
  cases a <;> rfl

theorem fill?_eq_some_iff {slot a b : Option α} :
    fill? slot a = some b ↔ slot = none ∧ a.map some = some b := by
  cases slot <;> cases a <;> simp [fill?]

/-- An array whose items are all read by `read?`. -/
def list? (read? : Json → Option α) : Json → Option (List α)
  | array items => items.mapM read?
  | _ => none

/-- What a slot holds in the end: nothing without the field, what is read of it otherwise. -/
def slot? (read? : Json → Option α) : Option Json → Option (Option α)
  | none => some none
  | some j => (read? j).map some

@[simp] theorem slot?_none (read? : Json → Option α) : slot? read? none = some none := rfl

@[simp] theorem slot?_some (read? : Json → Option α) (j : Json) :
    slot? read? (some j) = (read? j).map some := rfl

@[simp] theorem slot?_eq_some_none {read? : Json → Option α} {j : Option Json} :
    slot? read? j = some none ↔ j = none := by
  cases j <;> simp

/-! ## Records -/

/-- None of the fields of a record stands twice. -/
def Distinct (names : List String) (fields : List (String × Json)) : Prop :=
  ∀ name ∈ names, (Table.keys fields).count name ≤ 1

theorem distinct_cons {names : List String} {key : String} {j : Json} {fields : List (String × Json)} :
    Distinct names ((key, j) :: fields) ↔
      Distinct names fields ∧ (key ∈ names → Table.get? fields key = none) := by
  have hcount (name : String) : (Table.keys ((key, j) :: fields)).count name =
      (Table.keys fields).count name + if key = name then 1 else 0 := by
    simp [Table.keys, List.count_cons]
  simp only [Distinct, hcount, Table.get?_eq_none_iff]
  constructor
  · refine fun h => ⟨fun name hname => Nat.le_of_add_right_le (h name hname), fun hkey => ?_⟩
    have hself := h key hkey
    rw [if_pos rfl] at hself
    exact List.count_eq_zero.1 (Nat.le_zero.1 (Nat.le_of_succ_le_succ hself))
  · rintro ⟨h, hkey⟩ name hname
    split
    · subst name
      have hzero := List.count_eq_zero.2 (hkey hname)
      exact Nat.succ_le_succ (Nat.le_of_eq hzero)
    · exact h name hname

theorem distinct_of_nodup {names : List String} {fields : List (String × Json)}
    (h : (Table.keys fields).Nodup) : Distinct names fields :=
  fun name _ => List.nodup_iff_count_le_one.1 h name

theorem keys_zip_sublist (names : List String) (items : List Json) :
    (Table.keys (names.zip items)).Sublist names := by
  induction names generalizing items with
  | nil => exact List.nil_sublist _
  | cons name names ih =>
    cases items with
    | nil => exact List.nil_sublist _
    | cons j items => exact (ih items).cons_cons name

/-- The fields that an array gives are apart. -/
theorem distinct_zip {names : List String} (h : names.Nodup) (items : List Json) :
    Distinct names (names.zip items) :=
  distinct_of_nodup ((keys_zip_sublist names items).nodup h)

/-! ## Reading -/

/-- `put?` reads the fields with these names into a draft: `Holds d get` says that the draft `d` holds what
`get` finds under each name, and nothing else. -/
structure ReadsFields (names : List String) (start : D) (put? : String → Json → D → Option D)
    (Holds : D → (String → Option Json) → Prop) : Prop where
  start : ∀ {d}, Holds d (fun _ => none) ↔ d = start
  congr : ∀ {d get get'}, (∀ name ∈ names, get name = get' name) → Holds d get → Holds d get'
  /-- A field that is put in must not be there yet. -/
  put : ∀ {key j get d}, key ∈ names → ((∃ e, Holds e get ∧ put? key j e = some d) ↔
    get key = none ∧ Holds d fun name => if key = name then some j else get name)
  /-- Other fields are skipped. -/
  skip : ∀ {key j d}, key ∉ names → put? key j d = some d

namespace ReadsFields

variable {names : List String} {start : D} {put? : String → Json → D → Option D}
  {Holds : D → (String → Option Json) → Prop}

theorem holds_congr (h : ReadsFields names start put? Holds) {d : D} {get get' : String → Option Json}
    (hget : ∀ name ∈ names, get name = get' name) : Holds d get ↔ Holds d get' :=
  ⟨h.congr hget, h.congr fun name hname => (hget name hname).symm⟩

/-- What one more field in front makes of a draft. -/
theorem put?_eq_some (h : ReadsFields names start put? Holds) {key : String} {j : Json}
    {fields : List (String × Json)} {d : D} :
    (∃ e, Holds e (Table.get? fields) ∧ put? key j e = some d) ↔
      (key ∈ names → Table.get? fields key = none) ∧ Holds d (Table.get? ((key, j) :: fields)) := by
  by_cases hkey : key ∈ names
  · simp only [h.put hkey, hkey, true_implies]
    exact Iff.rfl
  · have hget : ∀ name ∈ names, Table.get? fields name = Table.get? ((key, j) :: fields) name :=
      fun name hname => (if_neg (ne_of_mem_of_not_mem hname hkey).symm).symm
    simp only [h.skip hkey, hkey, false_implies, true_and, Option.some.injEq, exists_eq_right,
      h.holds_congr hget]

/-- **Reading field by field.** It gives a draft exactly if no field stands twice and the draft holds what
the fields are. -/
theorem foldrM_eq_some (h : ReadsFields names start put? Holds) {fields : List (String × Json)} {d : D} :
    fields.foldrM (fun e d => put? e.1 e.2 d) start = some d ↔
      Distinct names fields ∧ Holds d (Table.get? fields) := by
  induction fields generalizing d with
  | nil =>
    have hempty : Distinct names [] := fun _ _ => Nat.zero_le 1
    simp only [List.foldrM_nil, Option.pure_def, Option.some.injEq, hempty, true_and]
    exact eq_comm.trans h.start.symm
  | cons e fields ih =>
    obtain ⟨key, j⟩ := e
    simp only [List.foldrM_cons, Option.bind_eq_bind, Option.bind_eq_some_iff, ih, and_assoc,
      exists_and_left, h.put?_eq_some, distinct_cons]

/-- The order in which the fields are read is no matter. -/
theorem foldlM_eq_some (h : ReadsFields names start put? Holds) {fields : List (String × Json)} {d : D} :
    fields.foldlM (fun d e => put? e.1 e.2 d) start = some d ↔
      Distinct names fields ∧ Holds d (Table.get? fields) := by
  have hdistinct : Distinct names fields.reverse ↔ Distinct names fields := by
    simp [Distinct, Table.keys]
  rw [← List.foldrM_reverse, h.foldrM_eq_some, hdistinct]
  refine and_congr_right fun hfields => ?_
  exact h.holds_congr fun name hname => Table.get?_reverse (hfields name hname)

end ReadsFields

end Json

end ViewEngine
