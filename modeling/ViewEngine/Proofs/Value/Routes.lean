import ViewEngine.Proofs.Decimal.Nearest
import ViewEngine.Proofs.Json.Grammar
import ViewEngine.Proofs.Value.RoundTrip

/-!
# Two ways from JSON to values

A text is read as a value at once (`Value.decode?`), or as a datum with sorted members (`Json.normal?`) that is
then converted (`Value.ofJson`). Both give the same, on every text, and what they give can be told from the
text alone (`Spelling.value`): a literal without fraction and exponent is an integer if it fits 64 signed bits
and is not negative zero, every other number is a double, which an exact reader makes the nearest one
(`Numeral.double_of_isExact`), and of members with one key the last counts. All this holds with any reader.

The conversion to a datum and back changes nothing but the doubles that JSON cannot carry.
-/

namespace ViewEngine

/-! ## Numerals -/

namespace Numeral

/-- The integer that a numeral is: it has neither fraction nor exponent, is not negative zero and fits 64
signed bits. -/
def integer? (n : Numeral) : Option Int64 :=
  let digits : Int := digitsValue n.whole.chars
  if n.fraction.isSome ∨ n.exponent.isSome ∨ (n.negative = true ∧ digits = 0) then none
  else int64? (if n.negative then -digits else digits)

/-- The double that a numeral is where it is no such integer. What is written like one, has no sign and fits 64
bits is converted as a whole number; all else is up to the reader. -/
def double [NumberReader] (n : Numeral) : Binary64 :=
  let digits := digitsValue n.whole.chars
  if n.fraction.isSome ∨ n.exponent.isSome ∨ n.negative = true ∨ UInt64.size ≤ digits then
    NumberReader.read n.chars
  else Binary64.ofInt digits

theorem integer?_of_not_isReal {n : Numeral} (hreal : ¬ n.IsReal) : n.integer? =
    if n.negative = true ∧ (digitsValue n.whole.chars : Int) = 0 then none
    else int64? (if n.negative then -(digitsValue n.whole.chars : Int) else digitsValue n.whole.chars) := by
  obtain ⟨hfraction, hexponent⟩ := not_or.1 hreal
  simp only [integer?, hfraction, hexponent, Bool.false_eq_true, false_or]

/-- A literal without fraction and exponent denotes its digits. -/
theorem nearest_of_not_isReal {n : Numeral} (hreal : ¬ n.IsReal) (hsmall : digitsValue n.whole.chars < UInt64.size) :
    n.decimal.nearest = Binary64.ofQuotient n.negative (digitsValue n.whole.chars) 1 := by
  obtain ⟨hfraction, hexponent⟩ := not_or.1 hreal
  rw [Option.not_isSome_iff_eq_none] at hfraction hexponent
  have hdecimal : n.decimal = ⟨n.negative, digitsValue n.whole.chars, 0⟩ := by
    simp [decimal, fractionDigits, power, hfraction, hexponent]
  rw [hdecimal]
  exact Decimal.nearest_whole rfl hsmall

variable [NumberReader]

theorem double_of_isReal {n : Numeral} (hreal : n.IsReal) : n.double = NumberReader.read n.chars :=
  if_pos (hreal.imp_right Or.inl)

theorem double_of_not_isReal {n : Numeral} (hreal : ¬ n.IsReal) : n.double =
    if n.negative = true ∨ UInt64.size ≤ digitsValue n.whole.chars then NumberReader.read n.chars
    else Binary64.ofInt (digitsValue n.whole.chars) := by
  obtain ⟨hfraction, hexponent⟩ := not_or.1 hreal
  simp only [double, hfraction, hexponent, Bool.false_eq_true, false_or]

/-- An exact reader makes every numeral the double nearest to it. -/
theorem double_of_isExact (hreader : NumberReader.IsExact) (n : Numeral) : n.double = n.decimal.nearest := by
  by_cases hreal : n.IsReal
  · rw [double_of_isReal hreal, hreader n]
  · rw [double_of_not_isReal hreal]
    split
    · exact hreader n
    · rename_i hwhole
      obtain ⟨hsign, hsmall⟩ := not_or.1 hwhole
      rw [nearest_of_not_isReal hreal (Nat.lt_of_not_le hsmall), Bool.eq_false_iff.2 hsign, Binary64.ofInt,
        decide_eq_false (by omega), Int.natAbs_natCast]

end Numeral

namespace Value

variable [NumberReader]

/-- The value of a number literal. -/
def ofNumeral (n : Numeral) : Value :=
  match n.integer? with
  | some i => int i
  | none => double n.double

theorem read?_ofDecimal (n : Numeral) (v : Value) : read? (Json.ofDecimal n.chars) = some v ↔
    (NumberReader.read n.chars).isFinite = true ∧ v = double (NumberReader.read n.chars) := by
  by_cases hfin : (NumberReader.read n.chars).isFinite = true
  · simp [Json.ofDecimal, hfin, read?, eq_comm]
  · simp [Json.ofDecimal, hfin, read?]

/-- A literal that is kept apart as an integer is converted like its digits are read; any other one is up to the
reader. -/
theorem ofNumeral_cases (n : Numeral) :
    (∃ i : Int, Json.ofNumeral n.chars = .int i ∧ i.natAbs < UInt64.size ∧ n.integer? = int64? i ∧
      (int64? i = none → n.double = Binary64.ofInt i)) ∨
    (Json.ofNumeral n.chars = Json.ofDecimal n.chars ∧ n.integer? = none ∧
      n.double = NumberReader.read n.chars) := by
  by_cases hreal : n.IsReal
  · exact .inr ⟨Json.ofNumeral_of_isReal hreal, if_pos (hreal.imp_right Or.inl), n.double_of_isReal hreal⟩
  · have hdatum := Json.ofNumeral_of_not_isReal hreal
    have hinteger := n.integer?_of_not_isReal hreal
    have hdouble := n.double_of_not_isReal hreal
    generalize digitsValue n.whole.chars = m at hdatum hinteger hdouble
    have hmin : Int64.minValue.toInt = -2 ^ 63 := by decide
    have hmax : Int64.maxValue.toInt = 2 ^ 63 - 1 := by decide
    have hsize : UInt64.size = 2 ^ 64 := rfl
    cases hsign : n.negative <;> rw [hsign] at hdatum hinteger hdouble
    · rw [if_neg Bool.false_ne_true] at hdatum
      rw [if_neg (by simp), if_neg Bool.false_ne_true] at hinteger
      by_cases hsmall : m < UInt64.size
      · refine .inl ⟨m, hdatum.trans (if_pos hsmall), hsmall, hinteger, fun _ => ?_⟩
        exact hdouble.trans (if_neg fun h => h.elim Bool.false_ne_true (Nat.not_le_of_lt hsmall))
      · refine .inr ⟨hdatum.trans (if_neg hsmall), hinteger.trans (if_neg (by omega)), ?_⟩
        exact hdouble.trans (if_pos (.inr (Nat.le_of_not_lt hsmall)))
    · rw [if_pos rfl] at hdatum
      by_cases hfits : 0 < m ∧ Int64.minValue.toInt ≤ -(m : Int)
      · rw [if_neg (by omega), if_pos rfl] at hinteger
        refine .inl ⟨-(m : Int), hdatum.trans (if_pos hfits), by omega, hinteger, fun hnone => ?_⟩
        rw [int64?, if_pos (by omega)] at hnone
        cases hnone
      · refine .inr ⟨hdatum.trans (if_neg hfits), ?_, hdouble.trans (if_pos (.inl rfl))⟩
        by_cases hzero : m = 0
        · exact hinteger.trans (if_pos ⟨rfl, by omega⟩)
        · rw [if_neg (by omega), if_pos rfl] at hinteger
          exact hinteger.trans (if_neg (by omega))

/-- **A number literal has one value, whichever way it is classified**, if it is an integer or a double can hold
it at all. -/
theorem read?_ofNumeral (n : Numeral) (v : Value) : read? (Json.ofNumeral n.chars) = some v ↔
    (n.integer?.isSome = true ∨ n.double.isFinite = true) ∧ v = ofNumeral n := by
  obtain ⟨i, hdatum, hsmall, hinteger, hdouble⟩ | ⟨hdatum, hinteger, hdouble⟩ := ofNumeral_cases n
  · rw [hdatum, read?, ofNumeral, ofInt, hinteger]
    cases h : int64? i with
    | some j =>
      rw [Option.some.injEq, and_iff_right (.inl rfl)]
      exact eq_comm
    | none =>
      rw [Option.some.injEq, hdouble h, and_iff_right (.inr (Binary64.ofInt_isFinite hsmall))]
      exact eq_comm
  · rw [hdatum, read?_ofDecimal, ofNumeral, hinteger, hdouble, Option.isSome_none, or_iff_right Bool.false_ne_true]

end Value

/-! ## Spellings -/

namespace Json.Spelling

section
variable [NumberReader]

mutual

/-- The value of a spelling. -/
def value : Spelling → Value
  | null => .null
  | bool b => .bool b
  | number n => .ofNumeral n
  | string s => .string s.string
  | emptyArray _ => .array []
  | array first rest => .array (value first :: itemValues rest)
  | emptyObject _ => .object []
  | object key first rest => .object (Table.ofList ((key.text.string, value first) :: memberValues rest))
  | spaced _ inner _ => value inner

def itemValues : List Spelling → List Value
  | [] => []
  | s :: rest => value s :: itemValues rest

def memberValues : List (KeyText × Spelling) → List (String × Value)
  | [] => []
  | (key, s) :: rest => (key.text.string, value s) :: memberValues rest

end

mutual

/-- Every number literal is an integer, or a double can hold it. -/
def InRange : Spelling → Prop
  | null | bool _ | string _ | emptyArray _ | emptyObject _ => True
  | number n => n.integer?.isSome = true ∨ n.double.isFinite = true
  | array first rest => InRange first ∧ ItemsInRange rest
  | object _ first rest => InRange first ∧ MembersInRange rest
  | spaced _ inner _ => InRange inner

def ItemsInRange : List Spelling → Prop
  | [] => True
  | s :: rest => InRange s ∧ ItemsInRange rest

def MembersInRange : List (KeyText × Spelling) → Prop
  | [] => True
  | (_, s) :: rest => InRange s ∧ MembersInRange rest

end

end

end Json.Spelling

/-- The option holds `a` if the condition holds, and nothing otherwise. -/
def HoldsIf {α : Type} (o : Option α) (p : Prop) (a : α) : Prop := ∀ b, o = some b ↔ p ∧ b = a

section
variable {α β γ : Type} {o : Option α} {o' : Option β} {p q : Prop} {a : α} {b : β}

theorem holdsIf_some (a : α) : HoldsIf (some a) True a := fun b => by
  rw [Option.some.injEq, true_and, eq_comm]

theorem HoldsIf.map (h : HoldsIf o p a) (f : α → β) : HoldsIf (o.map f) p (f a) := fun b => by
  rw [Option.map_eq_some_iff]
  constructor
  · rintro ⟨x, hx, rfl⟩
    obtain ⟨hp, rfl⟩ := (h x).1 hx
    exact ⟨hp, rfl⟩
  · rintro ⟨hp, rfl⟩
    exact ⟨a, (h a).2 ⟨hp, rfl⟩, rfl⟩

theorem HoldsIf.both (h : HoldsIf o p a) (h' : HoldsIf o' q b) (f : α → β → γ) :
    HoldsIf (do let x ← o; let y ← o'; pure (f x y)) (p ∧ q) (f a b) := fun c => by
  constructor
  · intro hc
    obtain ⟨x, hx, hc⟩ := Option.bind_eq_some_iff.1 hc
    obtain ⟨y, hy, hc⟩ := Option.bind_eq_some_iff.1 hc
    obtain ⟨hp, rfl⟩ := (h x).1 hx
    obtain ⟨hq, rfl⟩ := (h' y).1 hy
    exact ⟨⟨hp, hq⟩, (Option.some.inj hc).symm⟩
  · rintro ⟨⟨hp, hq⟩, rfl⟩
    rw [(h a).2 ⟨hp, rfl⟩, (h' b).2 ⟨hq, rfl⟩]
    rfl

end

namespace Json.Spelling

variable [NumberReader]

mutual

/-- What is read from the datum of a spelling is its value. -/
theorem read?_datum : ∀ s : Spelling, HoldsIf (Value.read? s.datum) s.InRange s.value
  | null | bool _ | string _ | emptyArray _ | emptyObject _ => holdsIf_some _
  | number n => Value.read?_ofNumeral n
  | array first rest => ((read?_datum first).both (readItems?_itemData rest) List.cons).map Value.array
  | object key first rest =>
    ((read?_datum first).both (readMembers?_memberData rest)
      fun v fields => (key.text.string, v) :: fields).map fun fields => Value.object (Table.ofList fields)
  | spaced _ inner _ => read?_datum inner

theorem readItems?_itemData : ∀ rest : List Spelling,
    HoldsIf (Value.readItems? (itemData rest)) (ItemsInRange rest) (itemValues rest)
  | [] => holdsIf_some _
  | s :: rest => (read?_datum s).both (readItems?_itemData rest) List.cons

theorem readMembers?_memberData : ∀ rest : List (KeyText × Spelling),
    HoldsIf (Value.readMembers? (memberData rest)) (MembersInRange rest) (memberValues rest)
  | [] => holdsIf_some _
  | (key, s) :: rest =>
    (read?_datum s).both (readMembers?_memberData rest) fun v fields => (key.text.string, v) :: fields

end

end Json.Spelling

namespace Value

mutual

/-- What is cut off somewhere cannot be read. -/
theorem depth_le_of_read?_cutOff : ∀ (level : Nat) (j : Json) (v : Value), level ≤ Json.maxDepth →
    read? (j.cutOff level) = some v → j.depth + level ≤ Json.maxDepth
  | level, .null, _, hlevel, _ | level, .bool _, _, hlevel, _ | level, .int _, _, hlevel, _
  | level, .double _, _, hlevel, _ | level, .string _, _, hlevel, _ | level, .unreadable, _, hlevel, _ => by
    rw [Json.depth]
    omega
  | level, .array items, v, hlevel, h => by
    rw [Json.cutOff] at h
    split at h
    next hlt =>
      obtain ⟨vs, hvs, -⟩ := Option.map_eq_some_iff.1 h
      have hitems := depth_le_of_readItems?_cutOff (level + 1) items vs hlt hvs
      have := (Json.itemsDepth_le (n := Json.maxDepth - (level + 1))).2 fun j hj => by
        have := hitems j hj
        omega
      rw [Json.depth]
      omega
    next => cases h
  | level, .object members, v, hlevel, h => by
    rw [Json.cutOff] at h
    split at h
    next hlt =>
      obtain ⟨fields, hfields, -⟩ := Option.map_eq_some_iff.1 h
      have hmembers := depth_le_of_readMembers?_cutOff (level + 1) members fields hlt hfields
      have := (Json.membersDepth_le (n := Json.maxDepth - (level + 1))).2 fun m hm => by
        have := hmembers m hm
        omega
      rw [Json.depth]
      omega
    next => cases h

theorem depth_le_of_readItems?_cutOff : ∀ (level : Nat) (items : List Json) (vs : List Value),
    level ≤ Json.maxDepth → readItems? (Json.cutOffItems level items) = some vs →
      ∀ j ∈ items, j.depth + level ≤ Json.maxDepth
  | _, [], _, _, _ => List.forall_mem_nil _
  | level, j :: rest, vs, hlevel, h => by
    obtain ⟨v, hv, h⟩ := Option.bind_eq_some_iff.1 h
    obtain ⟨ws, hws, -⟩ := Option.bind_eq_some_iff.1 h
    exact List.forall_mem_cons.2 ⟨depth_le_of_read?_cutOff level j v hlevel hv,
      depth_le_of_readItems?_cutOff level rest ws hlevel hws⟩

theorem depth_le_of_readMembers?_cutOff : ∀ (level : Nat) (members : List (String × Json))
    (fields : List (String × Value)), level ≤ Json.maxDepth →
      readMembers? (Json.cutOffMembers level members) = some fields →
        ∀ m ∈ members, m.2.depth + level ≤ Json.maxDepth
  | _, [], _, _, _ => List.forall_mem_nil _
  | level, (key, j) :: rest, fields, hlevel, h => by
    obtain ⟨v, hv, h⟩ := Option.bind_eq_some_iff.1 h
    obtain ⟨ws, hws, -⟩ := Option.bind_eq_some_iff.1 h
    exact List.forall_mem_cons.2 ⟨depth_le_of_read?_cutOff level j v hlevel hv,
      depth_le_of_readMembers?_cutOff level rest ws hlevel hws⟩

end

/-! ## Through a datum with sorted members -/

theorem ofJsonMembers_eq (members : List (String × Json)) :
    ofJsonMembers members = Table.mapValues ofJson members := by
  induction members with
  | nil => rfl
  | cons m rest ih =>
    obtain ⟨key, j⟩ := m
    rw [ofJsonMembers, ih]
    rfl

/-- Members sorted before they are converted, or after: the last of several with one key counts either way. -/
theorem ofJson_object_ofList (members : List (String × Json)) :
    ofJson (.object (Table.ofList members)) = ofJson (.object members) := by
  rw [ofJson, ofJson, ofJsonMembers_eq, ofJsonMembers_eq, Table.mapValues_ofList,
    Table.ofList_of_sorted (Table.sorted_ofList _)]

mutual

/-- **Sorting and converting a datum is reading it.** -/
theorem map_ofJson_normal? : ∀ j : Json, j.normal?.map ofJson = read? j
  | .null | .bool _ | .int _ | .double _ | .string _ | .unreadable => rfl
  | .array items => by
    rw [Json.normal?, read?, ← map_ofJsonItems_normalItems? items, Option.map_map, Option.map_map]
    rfl
  | .object members => by
    rw [Json.normal?, read?, ← map_ofJsonMembers_normalMembers? members, Option.map_map, Option.map_map]
    exact congrArg (Option.map · _) (funext ofJson_object_ofList)

theorem map_ofJsonItems_normalItems? : ∀ items : List Json,
    (Json.normalItems? items).map ofJsonItems = readItems? items
  | [] => rfl
  | j :: rest => by
    rw [Json.normalItems?, readItems?, ← map_ofJson_normal? j, ← map_ofJsonItems_normalItems? rest]
    cases j.normal? with
    | none => rfl
    | some j => cases Json.normalItems? rest <;> rfl

theorem map_ofJsonMembers_normalMembers? : ∀ members : List (String × Json),
    (Json.normalMembers? members).map ofJsonMembers = readMembers? members
  | [] => rfl
  | (key, j) :: rest => by
    rw [Json.normalMembers?, readMembers?, ← map_ofJson_normal? j, ← map_ofJsonMembers_normalMembers? rest]
    cases j.normal? with
    | none => rfl
    | some j => cases Json.normalMembers? rest <;> rfl

end

/-! ## What is decoded -/

section
variable [NumberReader]

/-- The text of a spelling is read as its value, unless it is nested too deep or has a number out of range. -/
theorem decode?_of_symbols_eq {bytes : List UInt8} {s : Json.Spelling} (h : Utf8.symbols bytes = s.text.map .char)
    (v : Value) : decode? bytes = some v ↔ s.datum.depth ≤ Json.maxDepth ∧ s.InRange ∧ v = s.value := by
  rw [decode?, Json.read?, h, s.readSymbols?_text, Option.bind_some]
  constructor
  · intro h
    have hdepth := depth_le_of_read?_cutOff 0 s.datum v (Nat.zero_le _) h
    rw [Json.cutOff_eq 0 s.datum hdepth] at h
    exact ⟨hdepth, (s.read?_datum v).1 h⟩
  · rintro ⟨hdepth, h⟩
    rw [Json.cutOff_eq 0 s.datum hdepth]
    exact (s.read?_datum v).2 h

/-- **What is decoded is JSON text and nothing else**, and it has the value of its spelling. -/
theorem decode?_eq_some {bytes : List UInt8} {v : Value} : decode? bytes = some v ↔
    ∃ s : Json.Spelling, Utf8.decode? bytes = some (String.ofList s.text) ∧
      s.datum.depth ≤ Json.maxDepth ∧ s.InRange ∧ v = s.value := by
  constructor
  · intro h
    obtain ⟨j, hj, hv⟩ := Option.bind_eq_some_iff.1 h
    have hnormal : j.normal? ≠ none := fun hnone => by
      rw [← map_ofJson_normal?, hnone] at hv
      cases hv
    obtain ⟨s, hs⟩ := Json.exists_spelling hj hnormal
    refine ⟨s, Utf8.decode?_eq_some.2 ?_, (decode?_of_symbols_eq hs v).1 h⟩
    rwa [String.toList_ofList]
  · rintro ⟨s, htext, h⟩
    refine (decode?_of_symbols_eq ?_ v).2 h
    rw [Utf8.decode?_eq_some.1 htext, String.toList_ofList]

end

/-! ## To a datum and back -/

mutual

/-- The value with null for every double that JSON cannot carry. -/
def nullNonFinite : Value → Value
  | double d => if d.isFinite then double d else null
  | array items => array (nullNonFiniteItems items)
  | object fields => object (nullNonFiniteFields fields)
  | null => null
  | bool b => bool b
  | int i => int i
  | string s => string s

def nullNonFiniteItems : List Value → List Value
  | [] => []
  | v :: rest => nullNonFinite v :: nullNonFiniteItems rest

def nullNonFiniteFields : List (String × Value) → List (String × Value)
  | [] => []
  | (key, v) :: rest => (key, nullNonFinite v) :: nullNonFiniteFields rest

end

theorem nullNonFiniteFields_eq (fields : List (String × Value)) :
    nullNonFiniteFields fields = Table.mapValues nullNonFinite fields := by
  induction fields with
  | nil => rfl
  | cons e rest ih =>
    obtain ⟨key, v⟩ := e
    rw [nullNonFiniteFields, ih]
    rfl

mutual

/-- **The conversion to a datum and back** loses the doubles that JSON cannot carry, and nothing else. -/
theorem ofJson_toJson : ∀ v : Value, v.IsTabled → ofJson v.toJson = v.nullNonFinite
  | null, _ | bool _, _ | string _, _ => rfl
  | int i, _ => ofInt_toInt i
  | double d, _ => by
    rw [toJson, nullNonFinite]
    split <;> rfl
  | array items, h => by
    rw [toJson, ofJson, ofJsonItems_toJsonItems items (isTabled_array.1 h), nullNonFinite]
  | object fields, h => by
    obtain ⟨hsorted, h⟩ := isTabled_object.1 h
    have hkept : Table.Sorted (nullNonFiniteFields fields) := by
      rw [nullNonFiniteFields_eq]
      exact Table.sorted_mapValues _ hsorted
    rw [toJson, ofJson, ofJsonMembers_toJsonMembers fields h, Table.ofList_of_sorted hkept, nullNonFinite]

theorem ofJsonItems_toJsonItems : ∀ vs : List Value, (∀ v ∈ vs, v.IsTabled) →
    ofJsonItems (toJsonItems vs) = nullNonFiniteItems vs
  | [], _ => rfl
  | v :: rest, h => by
    obtain ⟨hv, hrest⟩ := List.forall_mem_cons.1 h
    rw [toJsonItems, ofJsonItems, ofJson_toJson v hv, ofJsonItems_toJsonItems rest hrest, nullNonFiniteItems]

theorem ofJsonMembers_toJsonMembers : ∀ fields : List (String × Value), (∀ e ∈ fields, e.2.IsTabled) →
    ofJsonMembers (toJsonMembers fields) = nullNonFiniteFields fields
  | [], _ => rfl
  | (key, v) :: rest, h => by
    obtain ⟨hv, hrest⟩ := List.forall_mem_cons.1 h
    rw [toJsonMembers, ofJsonMembers, ofJson_toJson v hv, ofJsonMembers_toJsonMembers rest hrest,
      nullNonFiniteFields]

end

mutual

/-- A finite value keeps all its doubles. -/
theorem nullNonFinite_of_isFinite : ∀ v : Value, v.IsFinite → v.nullNonFinite = v
  | null, _ | bool _, _ | int _, _ | string _, _ => rfl
  | double d, h => if_pos (isFinite_double.1 h)
  | array items, h => by rw [nullNonFinite, nullNonFiniteItems_of_isFinite items (isFinite_array.1 h)]
  | object fields, h => by rw [nullNonFinite, nullNonFiniteFields_of_isFinite fields (isFinite_object.1 h)]

theorem nullNonFiniteItems_of_isFinite : ∀ vs : List Value, (∀ v ∈ vs, v.IsFinite) → nullNonFiniteItems vs = vs
  | [], _ => rfl
  | v :: rest, h => by
    obtain ⟨hv, hrest⟩ := List.forall_mem_cons.1 h
    rw [nullNonFiniteItems, nullNonFinite_of_isFinite v hv, nullNonFiniteItems_of_isFinite rest hrest]

theorem nullNonFiniteFields_of_isFinite : ∀ fields : List (String × Value), (∀ e ∈ fields, e.2.IsFinite) →
    nullNonFiniteFields fields = fields
  | [], _ => rfl
  | (key, v) :: rest, h => by
    obtain ⟨hv, hrest⟩ := List.forall_mem_cons.1 h
    rw [nullNonFiniteFields, nullNonFinite_of_isFinite v hv, nullNonFiniteFields_of_isFinite rest hrest]

end

/-- **The two ways from JSON to values agree.** Whatever bytes are read as a datum with sorted members and then
converted give what they are decoded to, if anything. What is decoded is the text of a spelling, not nested too
deep and with no number out of range, and it is decoded to the value of that spelling, where the last of several
members with one key counts. A value converted to a datum and back is itself but for the doubles that are not
finite, which become null; so a value that was decoded comes back as it is. That objects are tables restricts
nothing: it says that each key of an object stands once, in the order of the keys. -/
theorem json_routes_agree [NumberReader] :
    (∀ bytes : List UInt8, ((Json.read? bytes).bind Json.normal?).map ofJson = decode? bytes) ∧
    (∀ (bytes : List UInt8) (v : Value), decode? bytes = some v ↔
      ∃ s : Json.Spelling, Utf8.decode? bytes = some (String.ofList s.text) ∧
        s.datum.depth ≤ Json.maxDepth ∧ s.InRange ∧ v = s.value) ∧
    (∀ (key : Json.KeyText) (first : Json.Spelling) (rest : List (Json.KeyText × Json.Spelling)),
      ∃ fields : Table Value, (Json.Spelling.object key first rest).value = object fields ∧ Table.Sorted fields ∧
        ∀ name, fields.get? name =
          Table.get? ((key.text.string, first.value) :: Json.Spelling.memberValues rest).reverse name) ∧
    (∀ v : Value, v.IsTabled → ofJson v.toJson = v.nullNonFinite) ∧
    (∀ (bytes : List UInt8) (v : Value), decode? bytes = some v → ofJson v.toJson = v) := by
  refine ⟨fun bytes => ?_, fun _ _ => decode?_eq_some,
    fun _ _ _ => ⟨_, rfl, Table.sorted_ofList _, Table.get?_ofList _⟩, ofJson_toJson, fun bytes v h => ?_⟩
  · rw [decode?, Option.map_bind]
    exact congrArg _ (funext map_ofJson_normal?)
  · obtain ⟨htabled, hfinite, -⟩ := isFinite_of_decode? h
    rw [ofJson_toJson v htabled, nullNonFinite_of_isFinite v hfinite]

/-- The numeral `-0`. -/
def minusZero : Numeral := { negative := true, whole := .ofNat 0, leading := .inl rfl }

theorem double_minusZero : minusZero.double = Binary64.ofRank true 0 := by decide +kernel

/-- The text `{"a":7,"a": -0}`. -/
def twiceKeyed : Json.Spelling :=
  let key : Json.KeyText := ⟨[], [.plain 'a' (by decide)], []⟩
  let seven : Numeral := { negative := false, whole := .ofNat 7, leading := .inr (by decide) }
  .object key (.number seven) [(key, .spaced [.blank] (.number minusZero) [])]

/-- Of two members the last counts, and its negative zero is a double; what is not a number does not survive
the way through a datum; the text `[7]` does. -/
theorem json_routes_agree_shown :
    decode? (Utf8.encode (String.ofList twiceKeyed.text)) = some (object [("a", double (Binary64.ofRank true 0))]) ∧
    ofJson (toJson (array [double .nan, int 7])) = array [null, int 7] ∧
    ofJson (toJson (array [int 7])) = array [int 7] := by
  have htext := Utf8.decode?_eq_some.2 (Utf8.symbols_encode (String.ofList twiceKeyed.text))
  have hzero : minusZero.double.isFinite = true := by rw [double_minusZero]; decide
  have hvalue : twiceKeyed.value = object [("a", double (Binary64.ofRank true 0))] := by
    rw [← double_minusZero]
    rfl
  obtain ⟨-, hdecode, -, hback, hagain⟩ := json_routes_agree
  exact ⟨(hdecode _ _).2 ⟨twiceKeyed, htext, by decide +kernel, ⟨.inl rfl, .inr hzero, trivial⟩, hvalue.symm⟩,
    hback _ (by simp [IsTabled, parts, itemParts]), hagain [91, 55, 93] _ rfl⟩

end Value

end ViewEngine
