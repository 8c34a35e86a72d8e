import ViewEngine.Proofs.Json.Reading
import ViewEngine.Proofs.Json.RoundTrip
import ViewEngine.Proofs.Text.Utf8
import ViewEngine.Proofs.Value.Parts

/-!
# Values through text and back

A value is written as the datum that it is and read from the datum that the text spells; the datum goes
through text unchanged. So writing and reading are inverse to each other, on the values that are finite
and not nested too deep and on no others.
-/

namespace ViewEngine.Value

/-! ## Values and data -/

mutual

/-- The text of a value is the text of its datum. -/
theorem compact_toJson : ∀ v : Value, v.toJson.compact = v.compact
  | null | bool _ | int _ | string _ => rfl
  | double d => by
    by_cases h : d.isFinite = true
    · rw [toJson, if_pos h]
      rfl
    · rw [toJson, if_neg h, compact, Json.doubleText, if_neg h]
      rfl
  | array [] => rfl
  | array (v :: rest) => by
    simp only [toJson, toJsonItems, Json.compact, compact, compact_toJson v, compactItems_toJson rest]
  | object [] => rfl
  | object ((key, v) :: rest) => by
    simp only [toJson, toJsonMembers, Json.compact, compact, compact_toJson v, compactMembers_toJson rest]

theorem compactItems_toJson : ∀ vs : List Value, Json.compactItems (toJsonItems vs) = compactItems vs
  | [] => rfl
  | v :: rest => by
    simp only [toJsonItems, Json.compactItems, compactItems, compact_toJson v, compactItems_toJson rest]

theorem compactMembers_toJson :
    ∀ fields : List (String × Value), Json.compactMembers (toJsonMembers fields) = compactFields fields
  | [] => rfl
  | (key, v) :: rest => by
    simp only [toJsonMembers, Json.compactMembers, compactFields, compact_toJson v,
      compactMembers_toJson rest]

end

theorem encode_of_isFinite {v : Value} (h : v.IsFinite) : v.encode = .ok (String.ofList v.compact) := by
  rw [encode, (firstNonFinite?_eq_none v).2 h]

theorem fitsInt_toInt (i : Int64) : Json.FitsInt i.toInt := by
  have hmax : Int64.maxValue.toInt < UInt64.size := by decide
  exact ⟨i.minValue_le_toInt, Int.lt_of_le_of_lt i.toInt_le hmax⟩

mutual

/-- The datum of a finite value is one that text holds. -/
theorem isPrintable_toJson : ∀ v : Value, v.IsFinite → v.toJson.IsPrintable
  | null, _ | bool _, _ | string _, _ => Json.isPrintable_leaf rfl trivial nofun
  | int i, _ => Json.isPrintable_leaf rfl (fitsInt_toInt i) nofun
  | double d, h => by
    have hd := isFinite_double.1 h
    rw [toJson, if_pos hd]
    exact Json.isPrintable_leaf rfl hd nofun
  | array items, h => Json.isPrintable_array.2 (isPrintable_toJsonItems items (isFinite_array.1 h))
  | object fields, h => Json.isPrintable_object.2 (isPrintable_toJsonMembers fields (isFinite_object.1 h))

theorem isPrintable_toJsonItems : ∀ vs : List Value, (∀ v ∈ vs, v.IsFinite) →
    ∀ j ∈ toJsonItems vs, j.IsPrintable
  | [], _ => nofun
  | v :: rest, h => by
    obtain ⟨hv, hrest⟩ := List.forall_mem_cons.1 h
    exact List.forall_mem_cons.2 ⟨isPrintable_toJson v hv, isPrintable_toJsonItems rest hrest⟩

theorem isPrintable_toJsonMembers : ∀ fields : List (String × Value), (∀ e ∈ fields, e.2.IsFinite) →
    ∀ m ∈ toJsonMembers fields, m.2.IsPrintable
  | [], _ => nofun
  | (_, v) :: rest, h => by
    obtain ⟨hv, hrest⟩ := List.forall_mem_cons.1 h
    exact List.forall_mem_cons.2 ⟨isPrintable_toJson v hv, isPrintable_toJsonMembers rest hrest⟩

end

mutual

/-- The doubles in the datum of a value are doubles of the value. -/
theorem mem_parts_of_toJson {d : Binary64} : ∀ v : Value, .double d ∈ v.toJson.parts → double d ∈ v.parts
  | null, h | bool _, h | string _, h | int _, h => by simp [toJson, Json.parts] at h
  | double e, h => by
    rw [toJson] at h
    split at h
    · simpa [Json.parts, parts] using h
    · simp [Json.parts] at h
  | array items, h => by
    rw [toJson, Json.parts, List.mem_cons] at h
    obtain h | h := h
    · cases h
    · exact List.mem_cons_of_mem _ (mem_itemParts_of_toJson items h)
  | object fields, h => by
    rw [toJson, Json.parts, List.mem_cons] at h
    obtain h | h := h
    · cases h
    · exact List.mem_cons_of_mem _ (mem_fieldParts_of_toJson fields h)

theorem mem_itemParts_of_toJson {d : Binary64} : ∀ vs : List Value,
    .double d ∈ Json.itemParts (toJsonItems vs) → double d ∈ itemParts vs
  | [], h => nomatch h
  | v :: rest, h =>
    List.mem_append.2 ((List.mem_append.1 h).imp (mem_parts_of_toJson v) (mem_itemParts_of_toJson rest))

theorem mem_fieldParts_of_toJson {d : Binary64} : ∀ fields : List (String × Value),
    .double d ∈ Json.memberParts (toJsonMembers fields) → double d ∈ fieldParts fields
  | [], h => nomatch h
  | (_, v) :: rest, h =>
    List.mem_append.2 ((List.mem_append.1 h).imp (mem_parts_of_toJson v) (mem_fieldParts_of_toJson rest))

end

theorem ofInt_toInt (i : Int64) : ofInt i.toInt = int i := by
  rw [ofInt, int64?, if_pos ⟨i.minValue_le_toInt, i.toInt_le⟩, Int64.ofInt_toInt]

mutual

/-- The value of the datum of a value is that value: doubles stay doubles and integers integers. -/
theorem read?_toJson : ∀ v : Value, v.IsFinite → v.IsTabled → read? v.toJson = some v
  | null, _, _ | bool _, _, _ | string _, _, _ => rfl
  | int i, _, _ => congrArg some (ofInt_toInt i)
  | double d, h, _ => by
    rw [toJson, if_pos (isFinite_double.1 h)]
    rfl
  | array items, h, ht => by
    rw [toJson, read?, readItems?_toJson items (isFinite_array.1 h) (isTabled_array.1 ht)]
    rfl
  | object fields, h, ht => by
    obtain ⟨hsorted, ht⟩ := isTabled_object.1 ht
    rw [toJson, read?, readMembers?_toJson fields (isFinite_object.1 h) ht, Option.map_some,
      Table.ofList_of_sorted hsorted]

theorem readItems?_toJson : ∀ vs : List Value, (∀ v ∈ vs, v.IsFinite) → (∀ v ∈ vs, v.IsTabled) →
    readItems? (toJsonItems vs) = some vs
  | [], _, _ => rfl
  | v :: rest, h, ht => by
    obtain ⟨hv, hrest⟩ := List.forall_mem_cons.1 h
    obtain ⟨htv, htrest⟩ := List.forall_mem_cons.1 ht
    rw [toJsonItems, readItems?, read?_toJson v hv htv, readItems?_toJson rest hrest htrest]
    rfl

theorem readMembers?_toJson : ∀ fields : List (String × Value), (∀ e ∈ fields, e.2.IsFinite) →
    (∀ e ∈ fields, e.2.IsTabled) → readMembers? (toJsonMembers fields) = some fields
  | [], _, _ => rfl
  | (key, v) :: rest, h, ht => by
    obtain ⟨hv, hrest⟩ := List.forall_mem_cons.1 h
    obtain ⟨htv, htrest⟩ := List.forall_mem_cons.1 ht
    rw [toJsonMembers, readMembers?, read?_toJson v hv htv, readMembers?_toJson rest hrest htrest]
    rfl

end

/-! ## What is read -/

/-- The value of an integer that text holds: an integer, or a double where 64 signed bits do not do. -/
theorem isFinite_ofInt {i : Int} (h : Json.FitsInt i) : (ofInt i).IsFinite := by
  unfold ofInt
  split
  · simp [IsFinite, parts]
  · refine isFinite_double.2 (Binary64.ofInt_isFinite ?_)
    obtain ⟨hlow, hhigh⟩ := h
    have hmin : -(UInt64.size : Int) < Int64.minValue.toInt := by decide
    omega

theorem isTabled_ofInt (i : Int) : (ofInt i).IsTabled := by
  unfold ofInt
  split <;> simp [IsTabled, parts]

mutual

/-- What is read from a datum that text holds is finite, and its objects are tables. -/
theorem isFinite_read? : ∀ (j : Json) (v : Value), j.NumbersFit → read? j = some v →
    v.IsFinite ∧ v.IsTabled
  | .null, v, _, h | .bool _, v, _, h | .string _, v, _, h => by
    cases h
    simp [IsFinite, IsTabled, parts]
  | .int i, v, hfit, h => by
    cases h
    exact ⟨isFinite_ofInt (hfit _ (Json.self_mem_parts _)), isTabled_ofInt i⟩
  | .double d, v, hfit, h => by
    cases h
    exact ⟨isFinite_double.2 (hfit _ (Json.self_mem_parts _)), by simp [IsTabled, parts]⟩
  | .array items, v, hfit, h => by
    obtain ⟨vs, hvs, rfl⟩ := Option.map_eq_some_iff.1 h
    have hall := isFinite_readItems? items vs (Json.numbersFit_array.1 hfit) hvs
    exact ⟨isFinite_array.2 fun w hw => (hall w hw).1, isTabled_array.2 fun w hw => (hall w hw).2⟩
  | .object members, v, hfit, h => by
    obtain ⟨fields, hfields, rfl⟩ := Option.map_eq_some_iff.1 h
    have hall := isFinite_readMembers? members fields (Json.numbersFit_object.1 hfit) hfields
    have htable : ∀ e ∈ Table.ofList fields, e.2.IsFinite ∧ e.2.IsTabled :=
      fun e he => hall e (Table.mem_ofList he)
    exact ⟨isFinite_object.2 fun e he => (htable e he).1,
      isTabled_object.2 ⟨Table.sorted_ofList fields, fun e he => (htable e he).2⟩⟩
  | .unreadable, _, _, h => by cases h

theorem isFinite_readItems? : ∀ (js : List Json) (vs : List Value), (∀ j ∈ js, j.NumbersFit) →
    readItems? js = some vs → ∀ v ∈ vs, v.IsFinite ∧ v.IsTabled
  | [], vs, _, h => by
    cases h
    nofun
  | j :: rest, vs, hfit, h => by
    simp only [readItems?, Option.bind_eq_bind, Option.bind_eq_some_iff, Option.pure_def,
      Option.some.injEq] at h
    obtain ⟨v, hv, ws, hws, rfl⟩ := h
    obtain ⟨hj, hrest⟩ := List.forall_mem_cons.1 hfit
    exact List.forall_mem_cons.2 ⟨isFinite_read? j v hj hv, isFinite_readItems? rest ws hrest hws⟩

theorem isFinite_readMembers? : ∀ (ms : List (String × Json)) (fields : List (String × Value)),
    (∀ m ∈ ms, m.2.NumbersFit) → readMembers? ms = some fields →
      ∀ e ∈ fields, e.2.IsFinite ∧ e.2.IsTabled
  | [], fields, _, h => by
    cases h
    nofun
  | (key, j) :: rest, fields, hfit, h => by
    simp only [readMembers?, Option.bind_eq_bind, Option.bind_eq_some_iff, Option.pure_def,
      Option.some.injEq] at h
    obtain ⟨v, hv, ws, hws, rfl⟩ := h
    obtain ⟨hj, hrest⟩ := List.forall_mem_cons.1 hfit
    exact List.forall_mem_cons.2 ⟨isFinite_read? j v hj hv, isFinite_readMembers? rest ws hrest hws⟩

end

section
variable [NumberReader]

/-- **What is read may be written again**: it is finite, its objects are tables and it is not nested
too deep. -/
theorem isFinite_of_decode? {bytes : List UInt8} {v : Value} (h : decode? bytes = some v) :
    v.IsTabled ∧ v.IsFinite ∧ v.depth ≤ Json.maxDepth := by
  obtain ⟨j, hj, hv⟩ := Option.bind_eq_some_iff.1 h
  obtain ⟨hdepth, hfit⟩ := Json.fits_of_readSymbols? hj
  obtain ⟨hfinite, htabled⟩ := isFinite_read? j v hfit hv
  exact ⟨htabled, hfinite, Nat.le_trans (depth_read? j v hv) hdepth⟩

/-! ## Round trip -/

/-- The reader gives back every double in the value. -/
def ReadsBack (v : Value) : Prop := ∀ d, double d ∈ v.parts → NumberReader.ReadsBack d

/-- The datum that the text of a finite value spells. -/
theorem json_read?_encode_compact {v : Value} (hfinite : v.IsFinite) (hdepth : v.depth ≤ Json.maxDepth)
    (hback : v.ReadsBack) : Json.read? (Utf8.encode (String.ofList v.compact)) = some v.toJson := by
  have hprint := isPrintable_toJson v hfinite
  rw [Json.read?, Utf8.symbols_encode, String.toList_ofList, ← compact_toJson v,
    Json.readSymbols?_compact hprint (by rw [depth_toJson]; exact hdepth),
    Json.reread_of_readsBack _ hprint fun d hd => hback d (mem_parts_of_toJson v hd)]

theorem decode?_encode_compact {v : Value} (htabled : v.IsTabled) (hfinite : v.IsFinite)
    (hdepth : v.depth ≤ Json.maxDepth) (hback : v.ReadsBack) :
    decode? (Utf8.encode (String.ofList v.compact)) = some v := by
  rw [decode?, json_read?_encode_compact hfinite hdepth hback]
  exact read?_toJson v hfinite htabled

/-- **The codec round trip**, with any reader that gives back what is written for a finite double. A finite value
that is not nested too deep is written, and its text is read as that very value. Whatever bytes a value is read
from, it is such a value; so it may be written again and comes back unchanged. That objects are tables restricts
nothing: it says that each key of an object stands once, in the order of the keys. -/
theorem decode?_encode (hreader : NumberReader.IsFaithful) :
    (∀ v : Value, v.IsTabled → v.IsFinite → v.depth ≤ Json.maxDepth →
      ∃ s, v.encode = .ok s ∧ decode? (Utf8.encode s) = some v) ∧
    (∀ (bytes : List UInt8) (v : Value), decode? bytes = some v →
      v.IsTabled ∧ v.IsFinite ∧ v.depth ≤ Json.maxDepth ∧
        ∃ s, v.encode = .ok s ∧ decode? (Utf8.encode s) = some v) := by
  have hround : ∀ v : Value, v.IsTabled → v.IsFinite → v.depth ≤ Json.maxDepth →
      ∃ s, v.encode = .ok s ∧ decode? (Utf8.encode s) = some v := fun v htabled hfinite hdepth =>
    ⟨_, encode_of_isFinite hfinite,
      decode?_encode_compact htabled hfinite hdepth fun d hd => hreader d (hfinite d hd)⟩
  refine ⟨hround, fun bytes v h => ?_⟩
  obtain ⟨htabled, hfinite, hdepth⟩ := isFinite_of_decode? h
  exact ⟨htabled, hfinite, hdepth, hround v htabled hfinite hdepth⟩

end

set_option maxRecDepth 4000 in
/-- A whole double beside the equal integer under a key with a quote and a line feed, and the text
`[2.0,"\n"]`, with the reader that gives the nearest double. -/
theorem decode?_encode_mixed :
    (∃ s, (object [("a\"\n", array [double (Binary64.ofInt 2), int 2])]).encode = .ok s ∧
      @decode? .exact (Utf8.encode s) = some (object [("a\"\n", array [double (Binary64.ofInt 2), int 2])])) ∧
    (∃ s, (array [double (Binary64.ofInt 2), string "\n"]).encode = .ok s ∧
      @decode? .exact (Utf8.encode s) = some (array [double (Binary64.ofInt 2), string "\n"])) := by
  obtain ⟨hvalue, hbytes⟩ := @decode?_encode .exact NumberReader.isFaithful_exact
  refine ⟨hvalue _ ?_ ?_ (by decide), (hbytes [91, 50, 46, 48, 44, 34, 92, 110, 34, 93] _ rfl).2.2.2⟩
  · exact isTabled_object.2 ⟨List.pairwise_singleton _ _, by simp [IsTabled, parts, itemParts]⟩
  · have htwo : (Binary64.ofInt 2).isFinite = true := Binary64.ofInt_isFinite (by decide)
    exact isFinite_object.2 (by simpa [IsFinite, parts, itemParts] using htwo)

end ViewEngine.Value
