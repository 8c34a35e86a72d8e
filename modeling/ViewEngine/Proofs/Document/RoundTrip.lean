import ViewEngine.Proofs.Document.Encoding
import ViewEngine.Proofs.Json.Stepwise

/-!
# Typed documents through data and back

A document is written as the datum that it is, and comes back from that datum however it travels: as a
value, and as text if it is not nested too deep. What is left out, an empty object and an empty list are
three different things on the way. Two things would not come back: a double that is not finite, which turns
into null, and null as the value of an action, which counts as left out.
-/

namespace ViewEngine

open Json (IsRecast)

namespace Value

mutual

/-- Where every part of a datum is readable, reading it and converting it are the same. -/
theorem read?_eq_ofJson : ∀ j : Json, j.IsPrintable → read? j = some (ofJson j)
  | .null, _ | .bool _, _ | .int _, _ | .double _, _ | .string _, _ => rfl
  | .array items, h => by
    rw [read?, ofJson, readItems?_eq_ofJson items (Json.isPrintable_array.1 h), Option.map_some]
  | .object members, h => by
    rw [read?, ofJson, readMembers?_eq_ofJson members (Json.isPrintable_object.1 h), Option.map_some]
  | .unreadable, h => absurd rfl (h _ (Json.self_mem_parts _)).2

theorem readItems?_eq_ofJson : ∀ items : List Json, (∀ j ∈ items, j.IsPrintable) →
    readItems? items = some (ofJsonItems items)
  | [], _ => rfl
  | j :: rest, h => by
    obtain ⟨hj, hrest⟩ := List.forall_mem_cons.1 h
    rw [readItems?, read?_eq_ofJson j hj, readItems?_eq_ofJson rest hrest]
    rfl

theorem readMembers?_eq_ofJson : ∀ members : List (String × Json), (∀ m ∈ members, m.2.IsPrintable) →
    readMembers? members = some (ofJsonMembers members)
  | [], _ => rfl
  | (key, j) :: rest, h => by
    obtain ⟨hj, hrest⟩ := List.forall_mem_cons.1 h
    rw [readMembers?, read?_eq_ofJson j hj, readMembers?_eq_ofJson rest hrest]
    rfl

end

end Value

theorem Json.isRecast_ofJson {j : Json} (h : j.IsPrintable) : IsRecast j (Value.ofJson j).toJson := by
  have hread := Value.read?_eq_ofJson j h
  obtain ⟨hfinite, htabled⟩ := Value.isFinite_read? j _ (fun x hx => (h x hx).1) hread
  exact ⟨_, hread, hfinite, htabled, rfl⟩

section
variable [NumberReader]

/-- A document comes back, whichever way it goes; by way of text, if the reader gives back its doubles. -/
structure RoundTrips {α : Type} (toJson : α → Json) (ofJson? : Json → Option α) (a : α) : Prop where
  /-- It is decoded from the value that its datum is. -/
  value : ofJson? (Value.ofJson (toJson a)).toJson = some a
  /-- Its text spells its datum, but for what the reader makes of the doubles. -/
  spelled : (toJson a).depth ≤ Json.maxDepth →
    Json.read? (Utf8.encode (toJson a).text) = some (toJson a).reread
  /-- It is decoded from its text, directly and by way of the value that the text spells. -/
  text : (toJson a).depth ≤ Json.maxDepth → (toJson a).ReadsBack →
    (Json.read? (Utf8.encode (toJson a).text)).bind ofJson? = some a ∧
      ∃ v, Value.decode? (Utf8.encode (toJson a).text) = some v ∧ ofJson? v.toJson = some a
  /-- What is decoded is written as the same text. -/
  again : ∀ b, ofJson? (Value.ofJson (toJson a)).toJson = some b → (toJson b).text = (toJson a).text
  /-- No other document that comes back is written like it. -/
  apart : ∀ b, ofJson? (Value.ofJson (toJson b)).toJson = some b → b ≠ a → toJson b ≠ toJson a

/-- A document comes back if its datum is printable and it is read from the datum and from any recast. -/
theorem RoundTrips.of_isRecast {α : Type} {toJson : α → Json} {ofJson? : Json → Option α} {a : α}
    (hprintable : (toJson a).IsPrintable) (hread : ofJson? (toJson a) = some a)
    (hrecast : ∀ {y}, IsRecast (toJson a) y → ofJson? (toJson a) = ofJson? y) :
    RoundTrips toJson ofJson? a := by
  have hvalue : ofJson? (Value.ofJson (toJson a)).toJson = some a :=
    (hrecast (Json.isRecast_ofJson hprintable)).symm.trans hread
  refine ⟨hvalue, Json.read?_text hprintable, fun hdepth hback => ?_, fun b hb => ?_, fun b hb hne h => hne ?_⟩
  · have htext := Json.read?_text hprintable hdepth
    rw [Json.reread_of_readsBack _ hprintable hback] at htext
    refine ⟨by rw [htext, Option.bind_some, hread], Value.ofJson (toJson a), ?_, hvalue⟩
    rw [Value.decode?, htext]
    exact Value.read?_eq_ofJson _ hprintable
  · rw [Option.some.inj (hb.symm.trans hvalue)]
  · rw [h, hvalue] at hb
    exact (Option.some.inj hb).symm

theorem Node.roundTrips {n : Node} (htabled : n.EveryValue Value.IsTabled) (hfinite : n.EveryValue Value.IsFinite) :
    RoundTrips toJson ofJson? n :=
  .of_isRecast (isPrintable_toJson hfinite) (ofJson?_toJson hfinite htabled)
    fun h => ofJson?_of_isRecast h n.noRepeats_toJson

/-- **Typed documents round trip**, with any reader. Every node and every component whose values are finite comes
back from its data, and from its text if the reader gives back its doubles; so does every action in which, moreover,
no value is null, and every tab. That objects are tables restricts nothing: it says that each key of an object
stands once, in the order of the keys. -/
theorem documents_round_trip :
    (∀ n : Node, n.EveryValue Value.IsTabled → n.EveryValue Value.IsFinite →
      RoundTrips Node.toJson Node.ofJson? n) ∧
    (∀ a : Action, a.EveryValue Value.IsTabled → a.EveryValue Value.IsFinite → a.NoNullValue →
      RoundTrips Action.toJson Action.ofJson? a) ∧
    (∀ c : Component, c.body.EveryValue Value.IsTabled → c.body.EveryValue Value.IsFinite →
      RoundTrips Component.toJson Component.ofJson? c) ∧
    (∀ t : Tab, RoundTrips Tab.toJson Tab.ofJson? t) := by
  refine ⟨fun n => Node.roundTrips, fun a htabled hfinite hnull => ?_, fun c htabled hfinite => ?_, fun t => ?_⟩
  · exact .of_isRecast (Action.isPrintable_toJson hfinite) (Action.ofJson?_toJson hfinite htabled hnull)
      fun h => Action.ofJson?_of_isRecast h a.noRepeats_toJson
  · exact .of_isRecast (Component.isPrintable_toJson hfinite) (Component.ofJson?_toJson hfinite htabled)
      fun h => Component.ofJson?_of_isRecast h c.noRepeats_toJson
  · exact .of_isRecast t.isPrintable_toJson t.ofJson?_toJson
      fun h => Tab.ofJson?_of_isRecast h t.noRepeats_toJson

end

set_option maxRecDepth 4000 in
/-- A node with an empty style whose child has an empty list of children, a sequence with an empty payload and
a null inside a value, and a component with this node for its body. -/
theorem documents_round_trip_empty :
    let n : Node := { type := "list", inlineStyle := some [], children := some [
      { type := "text", children := some [], props := some [("n", .double (Binary64.ofInt 2))] }] }
    let a : Action := { type := "sequence", payload := some [], actions := some [
      { type := "setState", key := some "k", value := some (.array [.null]) }] }
    Node.decode? (Utf8.encode n.toJson.text) = some n ∧ Action.decode? (Utf8.encode a.toJson.text) = some a ∧
      RoundTrips Component.toJson Component.ofJson? ⟨["x"], n⟩ ∧
      RoundTrips Tab.toJson Tab.ofJson? ⟨"Home", "house", "home"⟩ := by
  intro n a
  have htwo : (Binary64.ofInt 2).isFinite = true := Binary64.ofInt_isFinite (by decide)
  have hn : n.EveryValue Value.IsTabled ∧ n.EveryValue Value.IsFinite := by
    constructor
    · simp [n, Node.EveryValue, Node.parts, Node.childParts, Node.listParts, Node.HoldsValue,
        Value.isTabled_object, Table.Sorted]
      simp [Value.IsTabled, Value.parts]
    · simp [n, Node.EveryValue, Node.parts, Node.childParts, Node.listParts, Node.HoldsValue,
        Value.isFinite_object, Value.isFinite_double, htwo]
  have ha : a.EveryValue Value.IsTabled ∧ a.EveryValue Value.IsFinite ∧ a.NoNullValue := by
    refine ⟨?_, ?_, ?_⟩
    · simp [a, Action.EveryValue, Action.parts, Action.stepParts, Action.listParts, Action.HoldsValue,
        Value.isTabled_object, Value.isTabled_array, Table.Sorted]
      simp [Value.IsTabled, Value.parts]
    · simp [a, Action.EveryValue, Action.parts, Action.stepParts, Action.listParts, Action.HoldsValue,
        Value.isFinite_object, Value.isFinite_array]
      simp [Value.IsFinite, Value.parts]
    · simp [a, Action.NoNullValue, Action.parts, Action.stepParts, Action.listParts]
  have hbackn : n.toJson.ReadsBack := by
    let two : Numeral := { negative := false, whole := .ofNat 2, fraction := some (.ofNat 0), leading := .inr (by decide) }
    have hchars : two.chars = Json.doubleText (Binary64.ofInt 2) := by decide +kernel
    have htext : NumberReader.ReadsBack (Binary64.ofInt 2) :=
      Stepwise.readsBack_of_short htwo hchars (by decide) (by decide)
    intro d hd
    obtain rfl : d = Binary64.ofInt 2 := by
      simpa [n, Node.toJson, Node.childrenJson?, Node.listJson, member?, Table.toJson, Value.toJson,
        Value.toJsonMembers, htwo, Json.parts, Json.memberParts, Json.itemParts] using hd
    exact htext
  have hbacka : a.toJson.ReadsBack := by
    intro d hd
    simp [a, Action.toJson, Action.actionsJson?, Action.listJson, member?, Table.toJson, Value.toJson,
      Value.toJsonMembers, Value.toJsonItems, Json.parts, Json.memberParts, Json.itemParts] at hd
  obtain ⟨hnode, haction, hcomponent, htab⟩ := documents_round_trip
  exact ⟨((hnode n hn.1 hn.2).text (by decide) hbackn).1, ((haction a ha.1 ha.2.1 ha.2.2).text (by decide) hbacka).1,
    hcomponent ⟨["x"], n⟩ hn.1 hn.2, htab _⟩

/-- A node that shows a number. -/
def Node.showing (d : Binary64) : Node := { type := "text", props := some [("x", .double d)] }

section
variable {d : Binary64}

theorem Node.isTabled_showing : (showing d).EveryValue Value.IsTabled := by
  simp [showing, EveryValue, parts, childParts, HoldsValue, Value.isTabled_object, Table.Sorted]
  simp [Value.IsTabled, Value.parts]

theorem Node.isFinite_showing (h : d.isFinite = true) : (showing d).EveryValue Value.IsFinite := by
  simp [showing, EveryValue, parts, childParts, HoldsValue, Value.isFinite_object, Value.isFinite_double, h]

theorem Node.toJson_showing (h : d.isFinite = true) : (showing d).toJson =
    .object [("type", .string "text"), ("props", .object [("x", .double d)])] := by
  simp [showing, toJson, childrenJson?, member?, Table.toJson, Value.toJson, Value.toJsonMembers, h]

end

/-- The double next above one hundred. -/
def aboveHundred : Binary64 := .ofBits 0x4059000000000001

theorem read_aboveHundred : NumberReader.read (Json.doubleText aboveHundred) = Binary64.ofInt 100 := by
  decide +kernel

/-- The program reads the number that it writes as `100.00000000000001` as `100.0`: a node that shows it comes back
from its text as another node, with another text, whichever way it is decoded. -/
theorem showing_aboveHundred_misread :
    let n := Node.showing aboveHundred
    let m := Node.showing (Binary64.ofInt 100)
    n.EveryValue Value.IsTabled ∧ n.EveryValue Value.IsFinite ∧ n.toJson.depth ≤ Json.maxDepth ∧
      n.toJson.text = "\x7b\"type\":\"text\",\"props\":\x7b\"x\":100.00000000000001\x7d\x7d" ∧
      Node.decode? (Utf8.encode n.toJson.text) = some m ∧
      ((Value.decode? (Utf8.encode n.toJson.text)).bind fun v => Node.ofJson? v.toJson) = some m ∧
      m ≠ n ∧ m.toJson.text ≠ n.toJson.text := by
  intro n m
  have habove : aboveHundred.isFinite = true := by decide
  have hhundred : (Binary64.ofInt 100).isFinite = true := Binary64.ofInt_isFinite (by decide)
  have hfinite : n.EveryValue Value.IsFinite := Node.isFinite_showing habove
  have hm : m.EveryValue Value.IsFinite := Node.isFinite_showing hhundred
  have hn : n.toJson = .object [("type", .string "text"), ("props", .object [("x", .double aboveHundred)])] :=
    Node.toJson_showing habove
  have hdepth : n.toJson.depth ≤ Json.maxDepth := by rw [hn]; decide
  have htext : n.toJson.text = "\x7b\"type\":\"text\",\"props\":\x7b\"x\":100.00000000000001\x7d\x7d" := by
    rw [hn]
    decide +kernel
  have hread : Json.read? (Utf8.encode n.toJson.text) = some m.toJson := by
    have hreread : n.toJson.reread = m.toJson := by
      rw [hn, Node.toJson_showing hhundred]
      simp only [Json.reread, Json.rereadMembers, Json.ofDecimal, read_aboveHundred, hhundred, if_true]
    rw [← hreread]
    exact (Node.roundTrips Node.isTabled_showing hfinite).spelled hdepth
  have hvalue := (Node.roundTrips Node.isTabled_showing hm).value
  refine ⟨Node.isTabled_showing, hfinite, hdepth, htext, ?_, ?_, ?_, ?_⟩
  · rw [Node.decode?, hread, Option.bind_some]
    exact Node.ofJson?_toJson hm Node.isTabled_showing
  · rw [Value.decode?, hread, Option.bind_some, Value.read?_eq_ofJson _ (Node.isPrintable_toJson hm), Option.bind_some]
    exact hvalue
  · intro heq
    have hprops : Binary64.ofInt 100 = aboveHundred := by simpa [n, m, Node.showing] using heq
    exact absurd hprops (by decide +kernel)
  · rw [htext, Node.toJson_showing hhundred]
    decide +kernel

end ViewEngine
