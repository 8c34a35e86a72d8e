import ViewEngine.Dispatch.Basic
import ViewEngine.Proofs.Context.Paths
import ViewEngine.Proofs.Table.Order

/-!
# The texts of parameters and payloads

An authored text can be rendered in three ways: as a text for display, as a value that is then shown, and as a
field of the parameters of a call or of the payload of an event. They differ in what they make of white space and
of a binding that leads nowhere, but not in the text that comes out (`Context.renderings_agree`): what leads nowhere
is the empty text in one of them and null in the others, and null is shown as the empty text. Only an escaped dollar
sign sets them apart, which is a matter of display alone.
-/

namespace ViewEngine.Context

variable {c : Context} {fields : Fields} {key : String}

/-! ## Texts -/

/-- The text begins with an escaped dollar sign. -/
def IsEscaped (cs : List Char) : Prop := ['\\', '$'] <+: trim cs

instance (cs : List Char) : Decidable (IsEscaped cs) := inferInstanceAs (Decidable (_ <+: _))

theorem resolveString_eq_display {s : String} (h : ¬ IsEscaped s.toList) :
    c.resolveString s = (c.resolveValue (.string s)).map Value.display := by
  have hbinding := @isBinding_iff s.toList
  rw [resolveString, resolveValue, ← resolve_trim]
  split
  · rename_i rest htrim
    exact absurd ⟨rest, htrim.symm⟩ h
  · rename_i rest htrim
    rw [if_pos (hbinding.2 (by rw [htrim]; rfl)), htrim]
    cases c.resolve ('$' :: rest) with
    | error => rfl
    | ok found => cases found <;> rfl
  · rename_i hother
    have hplain : ¬ isBinding s.toList = true := by
      intro hdollar
      obtain ⟨rest, hrest⟩ := List.head?_eq_some_iff.1 (hbinding.1 hdollar)
      exact hother rest hrest
    rw [if_neg hplain]
    rfl

/-! ## Fields -/

/-- What has a text is shown as that text. -/
theorem paramText_eq_display (v : Value) : paramText v = v.display := by
  cases v <;> rfl

theorem get?_resolveTexts {texts : Table String} (h : c.resolveTexts fields = .ok texts) {v : Value}
    (hv : fields.get? key = some v) :
    ∃ w, c.resolveValue v = .ok w ∧ texts.get? key = some w.display := by
  obtain ⟨values, hvalues, rfl⟩ := exists_of_map_eq_ok h
  obtain ⟨w, hw, hkey⟩ := get?_resolveAll hvalues hv
  refine ⟨w, hw, ?_⟩
  rw [Table.get?_mapValues, hkey, Option.map_some, paramText_eq_display]

/-- Only texts can break off. -/
theorem resolveTexts_eq_error_iff {e : Fault} : c.resolveTexts fields = .error e ↔
    ∃ key s, (key, Value.string s) ∈ fields ∧ c.resolveValue (.string s) = .error e := by
  rw [resolveTexts, map_eq_error_iff, resolveAll_eq_error_iff]
  constructor
  · rintro ⟨⟨key, v⟩, hmem, hbreaks⟩
    cases v with
    | string s => exact ⟨key, s, hmem, resolveValue_eq_error_iff.2 hbreaks⟩
    | _ =>
      obtain ⟨p, hp, -⟩ := hbreaks
      cases hp
  · rintro ⟨key, s, hmem, hs⟩
    exact ⟨_, hmem, resolveValue_eq_error_iff.1 hs⟩

theorem resolveTexts_singleton (c : Context) (key : String) (v : Value) :
    c.resolveTexts [(key, v)] = (c.resolveValue v).map fun w => [(key, w.display)] := by
  rw [resolveTexts, resolveAll]
  cases c.resolveValue v with
  | error => rfl
  | ok w =>
    rw [← funext paramText_eq_display]
    rfl

/-- **An authored text is rendered alike wherever it stands**, unless it begins with an escaped dollar sign: for
display, as a value that is then shown, and in a field of parameters or of a payload, whatever other fields stand
beside it. A field that is authored as something other than a text receives what is shown for that. A table of
fields has its texts unless one of the texts in it breaks off. -/
theorem renderings_agree (c : Context) {s : String} (h : ¬ IsEscaped s.toList) :
    c.resolveString s = (c.resolveValue (.string s)).map Value.display ∧
    (∀ key, c.resolveTexts [(key, .string s)] = (c.resolveString s).map fun text => [(key, text)]) ∧
    (∀ (fields : Fields) (texts : Table String), c.resolveTexts fields = .ok texts →
      (∀ key, fields.get? key = some (.string s) →
        ∃ text, c.resolveString s = .ok text ∧ texts.get? key = some text) ∧
      ∀ key v, fields.get? key = some v → (∀ text, v ≠ .string text) → texts.get? key = some v.display) ∧
    ∀ (fields : Fields) (e : Fault), c.resolveTexts fields = .error e ↔
      ∃ key text, (key, Value.string text) ∈ fields ∧ c.resolveValue (.string text) = .error e := by
  have hdisplay := @resolveString_eq_display c s h
  refine ⟨hdisplay, fun key => ?_, fun fields texts htexts => ⟨fun key hkey => ?_, fun key v hkey hv => ?_⟩,
    fun fields e => resolveTexts_eq_error_iff⟩
  · rw [resolveTexts_singleton, hdisplay]
    cases c.resolveValue (.string s) <;> rfl
  · obtain ⟨w, hw, htext⟩ := get?_resolveTexts htexts hkey
    refine ⟨w.display, ?_, htext⟩
    rw [hdisplay, hw]
    rfl
  · obtain ⟨w, hw, htext⟩ := get?_resolveTexts htexts hkey
    have hsame : c.resolveValue v = .ok v := by
      cases v with
      | string text => exact absurd rfl (hv text)
      | _ => rfl
    obtain rfl := Except.ok.inj (hsame.symm.trans hw)
    exact htext

/-- A binding between blanks, and a list that is authored as such, with a text in it that is no binding there. -/
theorem renderings_agree_shown :
    let c : Context := ⟨[("a", .array [.int 1, .bool true])], []⟩
    let payload : Fields := [("left", .array [.string "$.a"]), ("read", .string " $.a ")]
    ¬ IsEscaped " $.a ".toList ∧ c.resolveString " $.a " = .ok "[1,true]" ∧
      ∃ texts, c.resolveTexts payload = .ok texts ∧ texts.get? "read" = some "[1,true]" ∧
        texts.get? "left" = some "[\"$.a\"]" := by
  intro c payload
  have hplain : ¬ IsEscaped " $.a ".toList := by decide
  have htext : c.resolveString " $.a " = .ok "[1,true]" := rfl
  have hvalue : c.resolveValue (.string " $.a ") = .ok (.array [.int 1, .bool true]) := rfl
  obtain ⟨-, -, hfields, hbreaks⟩ := c.renderings_agree hplain
  cases htexts : c.resolveTexts payload with
  | error e =>
    obtain ⟨key, text, hmem, hbreak⟩ := (hbreaks payload e).1 htexts
    obtain ⟨-, rfl⟩ : key = "read" ∧ text = " $.a " := by simpa [payload] using hmem
    rw [hvalue] at hbreak
    cases hbreak
  | ok texts =>
    obtain ⟨hread, hleft⟩ := hfields payload texts htexts
    obtain ⟨text, hshown, hkey⟩ := hread "read" rfl
    obtain rfl := Except.ok.inj (htext.symm.trans hshown)
    exact ⟨hplain, htext, texts, rfl, hkey, hleft "left" _ rfl nofun⟩

end ViewEngine.Context
