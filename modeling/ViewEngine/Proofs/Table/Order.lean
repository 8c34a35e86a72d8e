import ViewEngine.Table

/-!
# Tables in order

What the operations on tables do to look-ups, and that they keep the entries in increasing order of
key. A look-up does not rely on the order, so the facts about `Table.get?` hold of every list of
entries; the order matters where two tables are to be the same list (`ofList_of_sorted`,
`overlay_nil_of_sorted`).
-/

namespace ViewEngine.Table

variable {α : Type}

/-- The keys increase from entry to entry. -/
def Sorted (t : Table α) : Prop := t.Pairwise fun a b => a.1 < b.1

theorem sorted_nil : Sorted ([] : Table α) := List.Pairwise.nil

theorem sorted_cons {e : String × α} {t : Table α} :
    Sorted (e :: t) ↔ (∀ x ∈ t, e.1 < x.1) ∧ Sorted t := List.pairwise_cons

theorem sorted_append {s t : Table α} :
    Sorted (s ++ t) ↔ Sorted s ∧ Sorted t ∧ ∀ x ∈ s, ∀ y ∈ t, x.1 < y.1 := List.pairwise_append

/-! ## Look-ups -/

theorem get?_append (s t : Table α) (key : String) :
    get? (s ++ t) key = (get? s key).or (get? t key) := by
  induction s with
  | nil => rfl
  | cons e s ih =>
    simp only [List.cons_append, get?]
    split
    · rfl
    · exact ih

theorem get?_filter {p : String × α → Bool} {key : String} (t : Table α) (h : ∀ a, p (key, a) = true) :
    get? (t.filter p) key = get? t key := by
  induction t with
  | nil => rfl
  | cons e t ih =>
    obtain ⟨k, a⟩ := e
    by_cases hk : k = key
    · subst hk
      simp [get?, h a]
    · rw [List.filter_cons]
      split <;> simp [get?, hk, ih]

theorem get?_filter_eq_none {p : String × α → Bool} {key : String} (t : Table α)
    (h : ∀ a, p (key, a) = false) : get? (t.filter p) key = none := by
  induction t with
  | nil => rfl
  | cons e t ih =>
    obtain ⟨k, a⟩ := e
    by_cases hk : k = key
    · subst hk
      simp [h a, ih]
    · rw [List.filter_cons]
      split
      · simp [get?, hk, ih]
      · exact ih

theorem get?_insert_self (t : Table α) (key : String) (a : α) : get? (t.insert key a) key = some a := by
  rw [insert, get?_append, get?_filter_eq_none t fun _ => decide_eq_false (String.lt_irrefl key)]
  simp [get?]

theorem lt_of_not_lt {a b : String} (hne : a ≠ b) (h : ¬ b < a) : a < b := by
  by_cases hlt : a < b
  · exact hlt
  · exact absurd (String.le_antisymm (String.not_lt.1 h) (String.not_lt.1 hlt)) hne

theorem get?_insert_of_ne (t : Table α) {key other : String} (a : α) (h : key ≠ other) :
    get? (t.insert key a) other = get? t other := by
  rw [insert, get?_append]
  simp only [get?, if_neg h]
  by_cases hlt : other < key
  · rw [get?_filter t fun _ => decide_eq_true hlt,
      get?_filter_eq_none t fun _ => decide_eq_false (String.lt_asymm hlt), Option.or_none]
  · rw [get?_filter_eq_none t fun _ => decide_eq_false hlt,
      get?_filter t fun _ => decide_eq_true (lt_of_not_lt h hlt), Option.none_or]

theorem get?_insert (t : Table α) (key other : String) (a : α) :
    get? (t.insert key a) other = if key = other then some a else get? t other := by
  split
  · rename_i h
    exact h ▸ get?_insert_self t key a
  · rename_i h
    exact get?_insert_of_ne t a h

theorem get?_erase (t : Table α) (key other : String) :
    get? (t.erase key) other = if key = other then none else get? t other := by
  split
  next h => exact h ▸ get?_filter_eq_none t fun _ => decide_eq_false (not_not_intro rfl)
  next h => exact get?_filter t fun _ => decide_eq_true (Ne.symm h)

/-- Where both tables have a key, the upper one wins. -/
theorem get?_overlay (top base : Table α) (key : String) :
    get? (overlay top base) key = (get? top key).or (get? base key) := by
  induction top with
  | nil => rfl
  | cons e top ih =>
    have hstep : overlay (e :: top) base = (overlay top base).insert e.1 e.2 := rfl
    rw [hstep, get?_insert, ih]
    by_cases h : e.1 = key
    · simp [get?, h]
    · simp [get?, h]

/-- What is not a key of a table cannot be looked up in it. -/
theorem get?_eq_none {t : Table α} {key : String} (h : ∀ e ∈ t, e.1 ≠ key) : get? t key = none := by
  induction t with
  | nil => rfl
  | cons e t ih =>
    obtain ⟨hne, ht⟩ := List.forall_mem_cons.1 h
    rw [get?, if_neg hne, ih ht]

theorem get?_eq_none_iff {t : Table α} {key : String} : get? t key = none ↔ key ∉ keys t := by
  refine ⟨fun h hmem => ?_, fun h => get?_eq_none fun e he heq => h (List.mem_map.2 ⟨e, he, heq⟩)⟩
  induction t with
  | nil => cases hmem
  | cons e t ih =>
    rw [get?] at h
    split at h
    case isTrue => cases h
    case isFalse hne => exact ih h ((List.mem_cons.1 hmem).resolve_left (Ne.symm hne))

/-- Where a key stands once, the order of the entries is no matter. -/
theorem get?_reverse {t : Table α} {key : String} (h : (keys t).count key ≤ 1) :
    get? t.reverse key = get? t key := by
  induction t with
  | nil => rfl
  | cons e t ih =>
    rw [List.reverse_cons, get?_append]
    by_cases hk : e.1 = key
    · have hnone : key ∉ keys t := by
        simpa [keys, hk, List.count_eq_zero] using h
      have hrest : get? t.reverse key = none := by
        simpa [get?_eq_none_iff, keys] using hnone
      simp [hrest, get?, hk]
    · have hcount : (keys t).count key ≤ 1 := by
        simpa [keys, List.count_cons_of_ne hk] using h
      simp [ih hcount, get?, hk]

/-- Of several entries with one key a table takes the last. -/
theorem get?_ofList (entries : List (String × α)) (key : String) :
    get? (ofList entries) key = get? entries.reverse key := by
  suffices h : ∀ t : Table α, get? (entries.foldl (fun t e => t.insert e.1 e.2) t) key =
      (get? entries.reverse key).or (get? t key) by
    rw [ofList, h, get?, Option.or_none]
  induction entries with
  | nil => exact fun t => rfl
  | cons e entries ih =>
    intro t
    rw [List.foldl_cons, ih, get?_insert, List.reverse_cons, get?_append]
    by_cases hk : e.1 = key <;> simp [get?, hk]

/-! ## Order -/

theorem nodup_keys {t : Table α} (h : Sorted t) : (keys t).Nodup :=
  List.pairwise_map.2 (h.imp fun hlt => String.ne_of_lt hlt)

theorem sorted_filter {t : Table α} (h : Sorted t) (p : String × α → Bool) : Sorted (t.filter p) :=
  List.Pairwise.filter p h

theorem sorted_insert {t : Table α} (h : Sorted t) (key : String) (a : α) : Sorted (t.insert key a) := by
  refine sorted_append.2 ⟨sorted_filter h _, sorted_cons.2 ⟨?_, sorted_filter h _⟩, ?_⟩
  · intro x hx
    exact of_decide_eq_true (List.mem_filter.1 hx).2
  · intro x hx y hy
    have hlow : x.1 < key := of_decide_eq_true (List.mem_filter.1 hx).2
    rcases List.mem_cons.1 hy with rfl | hy
    · exact hlow
    · exact String.lt_trans hlow (of_decide_eq_true (List.mem_filter.1 hy).2)

theorem sorted_overlay {base : Table α} (h : Sorted base) (top : Table α) : Sorted (overlay top base) := by
  induction top with
  | nil => exact h
  | cons e top ih => exact sorted_insert ih e.1 e.2

theorem sorted_foldl_insert {t : Table α} (h : Sorted t) (entries : List (String × α)) :
    Sorted (entries.foldl (fun t e => t.insert e.1 e.2) t) := by
  induction entries generalizing t with
  | nil => exact h
  | cons e entries ih => exact ih (sorted_insert h e.1 e.2)

theorem sorted_ofList (entries : List (String × α)) : Sorted (ofList entries) :=
  sorted_foldl_insert sorted_nil entries

/-- A key above all others is stored at the end. -/
theorem insert_of_forall_lt {t : Table α} {key : String} (a : α) (h : ∀ e ∈ t, e.1 < key) :
    t.insert key a = t ++ [(key, a)] := by
  have hlow : t.filter (·.1 < key) = t := List.filter_eq_self.2 fun e he => decide_eq_true (h e he)
  have hhigh : t.filter (key < ·.1) = [] :=
    List.filter_eq_nil_iff.2 fun e he => mt of_decide_eq_true (String.lt_asymm (h e he))
  rw [insert, hlow, hhigh]

/-- A key below all others is stored at the front. -/
theorem insert_of_forall_gt {t : Table α} {key : String} (a : α) (h : ∀ e ∈ t, key < e.1) :
    t.insert key a = (key, a) :: t := by
  have hlow : t.filter (·.1 < key) = [] :=
    List.filter_eq_nil_iff.2 fun e he => mt of_decide_eq_true (String.lt_asymm (h e he))
  have hhigh : t.filter (key < ·.1) = t := List.filter_eq_self.2 fun e he => decide_eq_true (h e he)
  rw [insert, hlow, hhigh, List.nil_append]

theorem foldl_insert_of_sorted (s : Table α) {t : Table α} (h : Sorted (s ++ t)) :
    t.foldl (fun t e => t.insert e.1 e.2) s = s ++ t := by
  induction t generalizing s with
  | nil => simp
  | cons e t ih =>
    obtain ⟨-, -, hlt⟩ := sorted_append.1 h
    have hend : s.insert e.1 e.2 = s ++ [e] :=
      insert_of_forall_lt e.2 fun x hx => hlt x hx e List.mem_cons_self
    rw [List.foldl_cons, hend, ih (s ++ [e]) (by simpa using h)]
    simp

/-- The first key of a table is not above that of another one in which it can be looked up. -/
theorem Sorted.head_le {e : String × α} {t : Table α} (h : Sorted (e :: t)) {key : String}
    (hkey : get? (e :: t) key ≠ none) : e.1 ≤ key := by
  refine String.not_lt.1 fun hlt => hkey (get?_eq_none ?_)
  refine List.forall_mem_cons.2 ⟨(String.ne_of_lt hlt).symm, fun x hx => ?_⟩
  exact (String.ne_of_lt (String.lt_trans hlt ((sorted_cons.1 h).1 x hx))).symm

/-- Tables in order with the same look-ups are the same. -/
theorem Sorted.ext {s t : Table α} (hs : Sorted s) (ht : Sorted t) (h : ∀ key, get? s key = get? t key) :
    s = t := by
  induction s generalizing t with
  | nil =>
    cases t with
    | nil => rfl
    | cons e t => simpa [get?] using h e.1
  | cons e s ih =>
    cases t with
    | nil => simpa [get?] using h e.1
    | cons e' t =>
      obtain ⟨k, a⟩ := e
      obtain ⟨k', a'⟩ := e'
      have hle : k ≤ k' := hs.head_le (by rw [h k']; simp [get?])
      have hge : k' ≤ k := ht.head_le (by rw [← h k]; simp [get?])
      have hk : k = k' := String.le_antisymm hle hge
      subst hk
      have ha : a = a' := by simpa [get?] using h k
      subst ha
      obtain ⟨hlow, hs⟩ := sorted_cons.1 hs
      obtain ⟨hlow', ht⟩ := sorted_cons.1 ht
      refine congrArg _ (ih hs ht fun key => ?_)
      by_cases hkey : k = key
      · subst hkey
        rw [get?_eq_none fun e he => (String.ne_of_lt (hlow e he)).symm,
          get?_eq_none fun e he => (String.ne_of_lt (hlow' e he)).symm]
      · simpa [get?, hkey] using h key

/-- Making a table of the entries of a table changes nothing. -/
theorem ofList_of_sorted {t : Table α} (h : Sorted t) : ofList t = t :=
  foldl_insert_of_sorted [] h

/-! ## Images -/

section
variable {β : Type} (f : α → β)

theorem get?_mapValues (t : Table α) (key : String) : (t.mapValues f).get? key = (t.get? key).map f := by
  induction t with
  | nil => rfl
  | cons e t ih =>
    rw [mapValues, List.map_cons, get?, get?]
    by_cases hkey : e.1 = key
    · rw [if_pos hkey, if_pos hkey]
      rfl
    · rw [if_neg hkey, if_neg hkey]
      exact ih

theorem mapValues_insert (t : Table α) (key : String) (a : α) :
    (t.insert key a).mapValues f = (t.mapValues f).insert key (f a) := by
  simp only [mapValues, insert, List.map_append, List.map_cons, List.filter_map]
  rfl

theorem mapValues_ofList (entries : List (String × α)) :
    (ofList entries).mapValues f = ofList (mapValues f entries) := by
  suffices h : ∀ t : Table α, mapValues f (entries.foldl (fun t e => t.insert e.1 e.2) t) =
      (mapValues f entries).foldl (fun t e => t.insert e.1 e.2) (t.mapValues f) from h []
  induction entries with
  | nil => exact fun t => rfl
  | cons e entries ih =>
    intro t
    rw [List.foldl_cons, ih, mapValues_insert]
    rfl

theorem sorted_mapValues {t : Table α} (h : Sorted t) : Sorted (t.mapValues f) := List.pairwise_map.2 h

end

/-- Laying a table over nothing changes nothing. -/
theorem overlay_nil_of_sorted {t : Table α} (h : Sorted t) : overlay t [] = t := by
  induction t with
  | nil => rfl
  | cons e t ih =>
    obtain ⟨hlt, ht⟩ := sorted_cons.1 h
    have hstep : overlay (e :: t) [] = (overlay t []).insert e.1 e.2 := rfl
    rw [hstep, ih ht, insert_of_forall_gt e.2 hlt]

end ViewEngine.Table
