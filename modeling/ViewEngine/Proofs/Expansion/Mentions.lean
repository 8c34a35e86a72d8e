import ViewEngine.Proofs.Context.Mentions
import ViewEngine.Proofs.Decimal.Layout
import ViewEngine.Proofs.Document.Texts
import ViewEngine.Proofs.Expansion.Contents
import Mathlib.Data.List.Chain

/-!
# What a screen can read

The view of a node depends on no key that the node and the components do not mention
(`Node.expand_eq_of_unmentioned`). What is found in the data is shown and never read as a binding again: only
authored texts are ever resolved, in the node, in the nodes that its props are, and in the bodies of
components.
-/

namespace ViewEngine

/-! ## Texts of numbers -/

/-- What is taken for a text without being one has no dollar sign. -/
theorem Value.dollar_not_mem_asText? {v : Value} {s : String} (h : v.asText? = some s)
    (hv : ∀ t, v ≠ .string t) : '$' ∉ s.toList := by
  cases v with
  | string t => exact absurd rfl (hv t)
  | bool b =>
    cases h
    cases b <;> decide
  | int i =>
    cases h
    have hdigits : '$' ∉ Nat.toDigits 10 i.toInt.natAbs := fun hmem =>
      absurd (Nat.isDigit_of_mem_toDigits (by decide) (by decide) hmem) (by decide)
    rw [intText, String.toList_ofList, Json.intText]
    split <;> simp [hdigits]
  | double d =>
    cases h
    rw [Binary64.shownText]
    split
    · decide
    · split
      · rename_i hfinite
        obtain ⟨n, hn, -, -⟩ := Layout.exists_numeral_text .shown hfinite
        rw [String.toList_ofList, ← hn]
        exact n.not_mem_chars (by decide) (by decide)
      · split <;> decide
  | null | array _ | object _ => cases h

/-! ## One node -/

namespace Context

variable {key : String} {c₁ c₂ : Context}

theorem AgreeOff.resolveAll (h : AgreeOff key c₁ c₂) {fields : Fields}
    (hfields : ∀ e ∈ fields, ∀ s, e.2 = .string s → Silent key.toList s.toList) :
    c₁.resolveAll fields = c₂.resolveAll fields := by
  induction fields with
  | nil => rfl
  | cons e fields ih =>
    obtain ⟨he, hfields⟩ := List.forall_mem_cons.1 hfields
    simp only [Context.resolveAll, h.resolveValue he, ih hfields]

theorem AgreeOff.bindProp (h : AgreeOff key c₁ c₂) (role : PropRole) {v : Value}
    (hv : ∀ s, v = .string s → Silent key.toList s.toList) : c₁.bindProp role v = c₂.bindProp role v := by
  unfold Context.bindProp
  split
  · rw [h.resolveString (hv _ rfl)]
  · rfl
  · rfl
  · rw [h.resolveValue hv]

theorem AgreeOff.bindProps (h : AgreeOff key c₁ c₂) {props : Fields}
    (hprops : ∀ e ∈ props, ∀ s, e.2 = .string s → Silent key.toList s.toList) :
    c₁.bindProps props = c₂.bindProps props := by
  induction props with
  | nil => rfl
  | cons e props ih =>
    obtain ⟨he, hprops⟩ := List.forall_mem_cons.1 hprops
    simp only [Context.bindProps, h.bindProp _ he, ih hprops]

end Context

namespace Node

/-- No text of the node mentions the key. -/
abbrev IsSilent (key : String) (n : Node) : Prop := n.EveryText fun s => Silent key.toList s.toList

variable {key : String} {c₁ c₂ : Context} {n : Node}

theorem IsSilent.isVisible (hn : n.IsSilent key) (h : c₁.AgreeOff key c₂) :
    n.isVisible c₁ = n.isVisible c₂ := by
  unfold Node.isVisible
  split
  · rename_i condition hcondition
    exact h.evaluate (EveryText.condition hn hcondition)
  · rfl

theorem IsSilent.bindProps (hn : n.IsSilent key) (h : c₁.AgreeOff key c₂) :
    c₁.bindProps (n.props.getD []) = c₂.bindProps (n.props.getD []) := by
  refine h.bindProps fun e he s hs => hn.prop he ?_
  simp [hs, Value.parts]

theorem IsSilent.arguments (hn : n.IsSilent key) (h : c₁.AgreeOff key c₂) :
    c₁.resolveAll n.arguments = c₂.resolveAll n.arguments := by
  refine h.resolveAll fun e he s hs => ?_
  cases hv : n.prop? "parameters" with
  | none => simp [Node.arguments, hv] at he
  | some v =>
    cases v with
    | object fields =>
      have hmem : e ∈ fields := by simpa [Node.arguments, hv, Value.object?] using he
      exact hn.prop? hv (Value.mem_parts_object.2 (.inr ⟨e, hmem, by simp [hs, Value.parts]⟩))
    | _ => simp [Node.arguments, hv, Value.object?] at he

theorem IsSilent.listItems (hn : n.IsSilent key) (h : c₁.AgreeOff key c₂) :
    n.listItems c₁ = n.listItems c₂ := by
  unfold Node.listItems
  split
  · rename_i path hpath
    obtain ⟨v, hv, htext⟩ := Option.bind_eq_some_iff.1 hpath
    -- The path of a list may be a number or a truth value: then it is not authored text, and reads nothing.
    have hsilent : Silent key.toList path.toList := by
      by_cases hstring : ∃ t, v = .string t
      · obtain ⟨t, rfl⟩ := hstring
        cases htext
        exact hn.prop? hv (by simp [Value.parts])
      · exact silent_of_not_mem (Value.dollar_not_mem_asText? htext fun t ht => hstring ⟨t, ht⟩)
    rw [h.resolve hsilent.spares]
  · rfl

/-! ## The whole tree -/

theorem mapM_congr {α β : Type} {f g : α → Except Fault β} {l : List α} (h : ∀ a ∈ l, f a = g a) :
    l.mapM f = l.mapM g := by
  induction l with
  | nil => rfl
  | cons a l ih =>
    obtain ⟨ha, hl⟩ := List.forall_mem_cons.1 h
    rw [List.mapM_cons, List.mapM_cons, ha, ih hl]

/-- Contexts that agree off the key give the node the same view. -/
def SameView (theme : Theme) (key : String) (available : Registry) (n : Node) : Prop :=
  ∀ c₁ c₂ : Context, c₁.AgreeOff key c₂ → n.expandWith theme available c₁ = n.expandWith theme available c₂

variable {theme : Theme} {available : Registry}

theorem expandAll_sameView {nodes : List Node} (hnodes : ∀ m ∈ nodes, SameView theme key available m)
    (h : c₁.AgreeOff key c₂) : expandAll theme available nodes c₁ = expandAll theme available nodes c₂ := by
  rw [expandAll_eq, expandAll_eq, mapM_congr fun m hm => hnodes m hm _ _ h]

theorem SameView.node (hn : n.IsSilent key) (hchild : ∀ m ∈ n.childNodes, SameView theme key available m)
    (hprop : ∀ name m, n.nodeProp? name = some m → SameView theme key available m)
    (hbody : ∀ name component, n.component? available = some (name, component) →
      SameView theme key (available.erase name) component.body) : SameView theme key available n := by
  intro c₁ c₂ h
  have hcontents : n.expandContents theme available c₁ = n.expandContents theme available c₂ := by
    by_cases hlist : n.type = "list"
    · rw [expandContents_list _ _ _ hlist, expandContents_list _ _ _ hlist]
      cases ht : n.nodeProp? "itemTemplate" with
      | none => rfl
      | some template =>
        have hitems (items : List Value) : expandItems theme available template 0 items c₁ =
            expandItems theme available template 0 items c₂ := by
          rw [expandItems_eq, expandItems_eq]
          exact congrArg _ (mapM_congr fun e _ => hprop _ _ ht _ _ (h.child _))
        simp only [hn.listItems h, hitems]
    by_cases hcomponent : n.type = "component"
    · rw [expandContents_component _ _ _ hcomponent, expandContents_component _ _ _ hcomponent]
      cases hc : n.component? available with
      | none => rfl
      | some found =>
        obtain ⟨name, component⟩ := found
        have hview (bindings : Fields) := hbody name component hc _ _ (h.child bindings)
        simp only [hn.arguments h, hview]
    by_cases hbutton : n.type = "button"
    · rw [expandContents_button _ _ _ hbutton, expandContents_button _ _ _ hbutton]
      cases hl : n.nodeProp? "label" with
      | none => exact expandAll_sameView hchild h
      | some label => simp only [hprop _ _ hl _ _ h]
    · rw [expandContents_other _ _ _ hlist hcomponent hbutton,
        expandContents_other _ _ _ hlist hcomponent hbutton]
      exact expandAll_sameView hchild h
  rw [expandWith, expandWith, hn.isVisible h, hn.bindProps h, hcontents]

/-- The expansion of a silent node with silent components does not see the key. -/
theorem sameView_of_isSilent (theme : Theme) (key : String) (available : Registry) (n : Node) :
    n.IsSilent key →
    (∀ name component, Table.get? available name = some component → component.body.IsSilent key) →
    SameView theme key available n := by
  induction available, n using expansion_induction with
  | node available n hchild hprop hbody =>
    intro hn hregistry
    refine .node hn (fun m hm => hchild m hm (hn.child hm) hregistry)
      (fun name m hm => hprop name m hm (hn.nodeProp? hm) hregistry) fun name component hc => ?_
    refine hbody name component hc ?_ ?_
    · obtain ⟨_, -, hget⟩ := Option.bind_eq_some_iff.1 hc
      obtain ⟨found, hfound, heq⟩ := Option.map_eq_some_iff.1 hget
      cases heq
      exact hregistry _ _ hfound
    · intro other found hother
      rw [Table.get?_erase] at hother
      split at hother
      · cases hother
      · exact hregistry other found hother

end Node

/-- The text does not contain the key, and every dollar sign in it is followed by something that is not white
space. -/
def Unmentioned (key s : String) : Prop :=
  ¬ key.toList <:+: s.toList ∧
    ∀ before after, s.toList = before ++ '$' :: after → ∃ c ∈ after.head?, isBlank c = false

theorem Unmentioned.silent {key s : String} (h : Unmentioned key s) : Silent key.toList s.toList := by
  intro before after hs
  refine ⟨fun hafter => h.1 ?_, h.2 before after hs⟩
  have hsuffix : after <:+ s.toList := ⟨before ++ ['$'], by simp [hs]⟩
  exact hafter.trans hsuffix.isInfix

namespace Node

/-- **A screen shows only data that it mentions.** If no text of a node and of the bodies of the components
contains a key, and no dollar sign in them stands alone, then whatever is bound to the key, in whichever
scope, the view is the same, whatever else is in the data. What a binding finds, in the data, as an item of a
list or as an argument of a component, is taken as it is, and not read as a binding again. -/
theorem expand_eq_of_unmentioned (theme : Theme) (registry : Registry) (n : Node) {key : String}
    (hn : n.EveryText (Unmentioned key))
    (hregistry : ∀ name component, Table.get? registry name = some component →
      component.body.EveryText (Unmentioned key)) :
    (∀ (c : Context) (v : Value), n.expand theme registry (c.set key v) = n.expand theme registry c) ∧
    (∀ c₁ c₂ : Context, c₁.AgreeOff key c₂ → n.expand theme registry c₁ = n.expand theme registry c₂) ∧
    (∀ (c : Context) (path : String) (v : Value), Context.isBinding path.toList = true →
      c.resolve path.toList = .ok (some v) →
        c.resolveValue (.string path) = .ok v ∧ c.resolveString path = .ok v.display) := by
  have hsame : ∀ c₁ c₂ : Context, c₁.AgreeOff key c₂ →
      n.expand theme registry c₁ = n.expand theme registry c₂ := fun c₁ c₂ h =>
    sameView_of_isSilent theme key registry n (hn.mono fun s hs => hs.silent)
      (fun name component hget => (hregistry name component hget).mono fun s hs => hs.silent) c₁ c₂ h
  exact ⟨fun c v => hsame _ _ (c.agreeOff_set key v), hsame, fun c path v hbinding h =>
    ⟨Context.resolveValue_of_resolve hbinding h, Context.resolveString_of_resolve hbinding h⟩⟩

/-- Followed to the end by characters that are not white space, dollar signs do not stand alone. -/
theorem dollars_of_isChain {cs : List Char}
    (h : (cs ++ [' ']).IsChain fun a b => a = '$' → isBlank b = false) :
    ∀ before after, cs = before ++ '$' :: after → ∃ c ∈ after.head?, isBlank c = false := by
  rintro before after rfl
  rw [List.append_assoc] at h
  have hchain := (List.isChain_append.1 h).2.1
  cases after with
  | nil => exact absurd (List.isChain_cons_cons.1 hchain).1 (by decide)
  | cons c after => exact ⟨c, rfl, (List.isChain_cons_cons.1 hchain).1 rfl⟩

/-- Texts that look like bindings of the key, in the data, in an item and in an argument, are shown as they
are. -/
theorem expand_eq_of_unmentioned_shown :
    let text (content : String) : Node := { type := "text", props := some [("content", .string content)] }
    let row : Value := .object [("props", .object [("content", .string "$.item")]), ("type", .string "text")]
    let n : Node := { type := "vstack", condition := some "$.msg != 'x'", children := some [
      { type := "list", props := some [("itemTemplate", row), ("items", .string "$.rows")] },
      { type := "component", props := some [("name", .string "card"),
        ("parameters", .object [("title", .string "$.msg")])] }] }
    let registry : Registry := [("card", ⟨["title"], text "$.title"⟩)]
    let c : Context := ⟨[("msg", .string "$.quota"), ("rows", .array [.string "$.quota"])], []⟩
    let shown : View := { type := "text", props := [("content", .string "$.quota")] }
    n.EveryText (Unmentioned "quota") ∧
    (∀ name component, Table.get? registry name = some component →
      component.body.EveryText (Unmentioned "quota")) ∧
    n.expand {} registry (c.set "quota" (.int 1)) = n.expand {} registry c ∧
    n.expand {} registry c = .ok (some { type := "vstack", children := [
      { type := "list", props := [("items", .string "$.rows")], children := [shown] },
      { type := "component", props := [("name", .string "card")], children := [shown] }] }) := by
  intro text row n registry c shown
  have hq (s : String) (hs : 'q' ∉ s.toList)
      (hdollar : (s.toList ++ [' ']).IsChain fun a b => a = '$' → isBlank b = false) :
      Unmentioned "quota" s :=
    ⟨fun h => hs (h.subset (by decide)), dollars_of_isChain hdollar⟩
  have hn : n.EveryText (Unmentioned "quota") := by
    simp [n, row, EveryText, parts, childParts, listParts, Value.parts, Value.fieldParts]
    refine ⟨hq _ ?_ ?_, ⟨hq _ ?_ ?_, hq _ ?_ ?_, hq _ ?_ ?_⟩, hq _ ?_ ?_, hq _ ?_ ?_⟩ <;> decide
  have hregistry : ∀ name component, Table.get? registry name = some component →
      component.body.EveryText (Unmentioned "quota") := by
    intro name component hget
    obtain ⟨rfl, rfl⟩ : name = "card" ∧ component = ⟨["title"], text "$.title"⟩ := by
      simpa [registry] using Table.mem_of_get? hget
    simp [text, EveryText, parts, childParts, Value.parts, Value.fieldParts]
    exact hq _ (by decide) (by decide)
  have hitem : (text "$.item").expandWith {} registry (c.itemScope 0 (.string "$.quota")) =
      .ok (some shown) := by
    rw [expandWith, expandContents_other _ _ _ (by decide) (by decide) (by decide), expandAll_eq]
    rfl
  have htitle : (text "$.title").expandWith {} [] (c.child [("title", .string "$.quota")]) =
      .ok (some shown) := by
    rw [expandWith, expandContents_other _ _ _ (by decide) (by decide) (by decide), expandAll_eq]
    rfl
  let list : Node := { type := "list", props := some [("itemTemplate", row), ("items", .string "$.rows")] }
  let listView (children : List View) : View :=
    { type := "list", props := [("items", .string "$.rows")], children }
  have hlist : list.expandWith {} registry c = .ok (some (listView [shown])) := by
    have hitems : expandItems {} registry (text "$.item") 0 [.string "$.quota"] c = .ok [shown] := by
      rw [expandItems, hitem, expandItems]
      rfl
    rw [expandWith, expandContents_list _ _ _ rfl]
    change (expandItems {} registry (text "$.item") 0 [.string "$.quota"] c >>=
      fun children => .ok (some (listView children))) = _
    rw [hitems]
    rfl
  let card : Node := { type := "component", props := some [("name", .string "card"),
    ("parameters", .object [("title", .string "$.msg")])] }
  let cardView (children : List View) : View :=
    { type := "component", props := [("name", .string "card")], children }
  have hcard : card.expandWith {} registry c = .ok (some (cardView [shown])) := by
    rw [expandWith, expandContents_component _ _ _ rfl]
    change (((text "$.title").expandWith {} [] (c.child [("title", .string "$.quota")]) >>=
      fun view => .ok view.toList) >>= fun children => .ok (some (cardView children))) = _
    rw [htitle]
    rfl
  have hview : n.expand {} registry c =
      .ok (some { type := "vstack", children := [listView [shown], cardView [shown]] }) := by
    rw [expand, expandWith, expandContents_other _ _ _ (by decide) (by decide) (by decide), childNodes,
      Option.getD_some, expandAll, expandAll, expandAll, hlist, hcard]
    rfl
  exact ⟨hn, hregistry, (expand_eq_of_unmentioned {} registry n hn hregistry).1 c (.int 1), hview⟩

end Node

end ViewEngine
