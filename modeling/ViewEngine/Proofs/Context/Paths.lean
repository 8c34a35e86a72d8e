import ViewEngine.Expansion
import ViewEngine.Proofs.Context.Faults
import ViewEngine.Proofs.Context.Flattening
import ViewEngine.Proofs.Context.Mentions
import ViewEngine.Proofs.Context.Pipelines
import ViewEngine.Proofs.Decimal.Numeral

/-!
# Paths

A path can be followed in two steps: what follows its beginning is looked for in the value that the beginning
leads to (`Context.resolve_reach`). So a key that holds such a value is as good as the path to it, however many
scopes lie between the two (`Context.Holds`); the keys of list items and of the arguments of components are of
this kind.

White space at the end of a path does not count, and a path of no components leads nowhere. Bare `$` is all data
though, so a point and white space after it is the one suffix that does not lead on from it.
-/

namespace ViewEngine

variable {path key q : List Char}

/-- A path without transforms: `$`, or `$.` and components, with no white space around it. -/
structure IsPlainPath (path : List Char) : Prop where
  begins : path = ['$'] ∨ ['$', '.'] <+: path
  trimmed : trim path = path
  pipeless : ¬ pipe <:+: path

/-- A text that is one component of a path and stays so wherever the path ends. -/
structure IsKey (key : List Char) : Prop where
  ne_nil : key ≠ []
  pointless : '.' ∉ key
  trimmed : trim key = key
  pipeless : ¬ pipe <:+: key

theorem isBlank_of_isDigit {c : Char} (h : c.isDigit = true) : isBlank c = false := by
  obtain ⟨hlow, hhigh⟩ : 48 ≤ c.toNat ∧ c.toNat ≤ 57 := by
    simpa [Char.isDigit, UInt32.le_iff_toNat_le] using h
  simp only [isBlank, Bool.or_eq_false_iff, Bool.and_eq_false_iff, decide_eq_false_iff_not]
  omega

/-- The digits of a number are a key. -/
theorem isKey_toDigits (i : Nat) : IsKey (Nat.toDigits 10 i) := by
  have hdigit := (DigitText.ofNat i).isDigit
  exact {
    ne_nil := Nat.toDigits_ne_nil
    pointless := fun h => absurd (hdigit '.' h) (by decide)
    trimmed := trim_of_unspaced fun c hc => isBlank_of_isDigit (hdigit c hc)
    pipeless := fun h => absurd (hdigit '|' (h.subset (by simp [pipe]))) (by decide) }

theorem IsKey.dropEndWhile_eq (h : IsKey key) : dropEndWhile isBlank key = key := by
  have htrim := h.trimmed
  obtain ⟨c, rest, rfl, hc⟩ := exists_head_of_trim h.ne_nil htrim
  rwa [trim, trimStart_cons hc] at htrim

/-- One component or more, with points between them. -/
structure IsSuffix (q : List Char) : Prop where
  ne_nil : ∀ component ∈ splitAt ['.'] q, component ≠ []
  pipeless : ¬ pipe <:+: q

/-! ## Components -/

theorem IsKey.pathComponents (h : IsKey key) : pathComponents key = [key] := by
  rw [ViewEngine.pathComponents, splitAt_of_not_isInfix fun hpoint => h.pointless (hpoint.subset (by simp))]
  exact List.filter_eq_self.2 (by simpa using h.ne_nil)

/-- Without the white space at its end a suffix still has a component, unless it is nothing else. -/
theorem IsSuffix.pathComponents_ne_nil (h : IsSuffix q) (hq : ∃ c ∈ q, isBlank c = false) :
    pathComponents (dropEndWhile isBlank q) ≠ [] := by
  obtain ⟨c, hc, hblank⟩ := hq
  obtain ⟨w, hw⟩ := dropEndWhile_isPrefix isBlank q
  have hne : dropEndWhile isBlank q ≠ [] := fun hnil =>
    absurd (dropEndWhile_eq_nil_iff.1 hnil c hc) (by simp [hblank])
  generalize dropEndWhile isBlank q = front at hw hne
  subst hw
  have hjoin := joinWith_splitAt (List.cons_ne_nil '.' []) front
  have hsplit := splitAt_weld (noneAcross_singleton '.' front w)
  -- The first part of the front is a component: it is the whole front, or the first one of the suffix.
  cases hparts : splitAt ['.'] front with
  | nil => exact absurd hparts (splitAt_ne_nil _ _)
  | cons part parts =>
    have hpart : part ≠ [] := by
      rintro rfl
      cases parts with
      | nil => exact hne (by rw [← hjoin, hparts]; rfl)
      | cons part' parts =>
        rw [hparts, weld] at hsplit
        exact h.ne_nil [] (hsplit ▸ List.mem_cons_self) rfl
    have hmem : part ∈ pathComponents front :=
      List.mem_filter.2 ⟨hparts ▸ List.mem_cons_self, by simpa using hpart⟩
    exact List.ne_nil_of_mem hmem

/-- A suffix with nothing to trim at its end is more than white space. -/
theorem IsSuffix.exists_not_blank (h : IsSuffix q) (hends : dropEndWhile isBlank q = q) :
    ∃ c ∈ q, isBlank c = false := by
  by_contra hblank
  have hnil : q = [] := hends.symm.trans (dropEndWhile_eq_nil_iff.2 (by simpa using hblank))
  subst hnil
  exact h.ne_nil [] (List.mem_singleton_self []) rfl

theorem Value.dig?_append (v : Value) (a b : List (List Char)) :
    v.dig? (a ++ b) = (v.dig? a).bind (·.dig? b) := by
  induction a generalizing v with
  | nil => rfl
  | cons key a ih =>
    cases v with
    | object fields =>
      simp only [List.cons_append, dig?, Option.bind_assoc, ih]
    | array items =>
      simp only [List.cons_append, dig?, ih, bind, Option.bind_assoc]
    | null | bool _ | int _ | double _ | string _ => rfl

namespace Context

variable {c d : Context} {v : Value}

theorem lookup?_append {a : List (List Char)} (h : a ≠ []) (b : List (List Char)) :
    c.lookup? (a ++ b) = (c.lookup? a).bind (·.dig? b) := by
  cases a with
  | nil => contradiction
  | cons key a => simp only [List.cons_append, lookup?, Value.dig?_append, Option.bind_assoc]

/-- All data is an object like any other. -/
theorem dig?_allData {components : List (List Char)} (h : components ≠ []) :
    (Value.object c.allData).dig? components = c.lookup? components := by
  cases components with
  | nil => contradiction
  | cons key components =>
    rw [Value.dig?, lookup?, findBinding?_eq_get?]
    rfl

/-! ## Resolution -/

theorem resolve_plain (h : IsPlainPath path) : c.resolve path = .ok (c.resolvePlain? path) := by
  rw [resolve_of_pipeless (h.trimmed.symm ▸ h.pipeless), h.trimmed]

end Context

theorem IsPlainPath.trim_append (h : IsPlainPath path) (q : List Char) :
    trim (path ++ '.' :: q) = path ++ '.' :: dropEndWhile isBlank q := by
  have hne : path ≠ [] := by
    rcases h.begins with rfl | ⟨rest, rfl⟩ <;> exact List.cons_ne_nil _ _
  obtain ⟨c, rest, rfl, hc⟩ := exists_head_of_trim hne h.trimmed
  rw [trim, List.cons_append, trimStart_cons hc, ← List.cons_append, dropEndWhile_append_cons (by decide)]

theorem IsPlainPath.pipeless_append (h : IsPlainPath path) (hq : ¬ pipe <:+: q) : ¬ pipe <:+: path ++ '.' :: q := by
  have hacross : NoneAcross pipe path ('.' :: q) :=
    noneAcross_pipe (fun _ hbar => by cases hbar) fun _ hspace => by cases hspace
  refine hacross.not_isInfix h.pipeless fun hoccurs => ?_
  rcases List.infix_cons_iff.1 hoccurs with ⟨rest, hrest⟩ | hlater
  · cases hrest
  · exact hq hlater

theorem IsPlainPath.append (h : IsPlainPath path) (hq : ¬ pipe <:+: q) (hends : dropEndWhile isBlank q = q) :
    IsPlainPath (path ++ '.' :: q) where
  begins := by
    rcases h.begins with rfl | hdot
    · exact .inr (List.prefix_append ['$', '.'] q)
    · exact .inr (hdot.trans (List.prefix_append path _))
  trimmed := by rw [h.trim_append, hends]
  pipeless := h.pipeless_append hq

theorem IsPlainPath.dropEndWhile_eq (h : IsPlainPath path) (hq : IsPlainPath (path ++ '.' :: q)) :
    dropEndWhile isBlank q = q := by
  have htrim := hq.trimmed
  rw [h.trim_append] at htrim
  exact List.cons.inj (List.append_cancel_left htrim) |>.2

theorem isPlainPath_bare : IsPlainPath ['$'] := ⟨.inl rfl, by decide, by decide⟩

/-- The path to a key. -/
def toKey (key : List Char) : List Char := ['$'] ++ '.' :: key

theorem IsKey.isPlainPath (h : IsKey key) : IsPlainPath (toKey key) where
  begins := .inr (List.prefix_append _ key)
  trimmed := trim_append (List.cons_ne_nil _ _) isPlainPath_bare.trimmed h.ne_nil h.trimmed ['.']
  pipeless := isPlainPath_bare.pipeless_append h.pipeless

namespace Context

variable {c d : Context} {v : Value}

theorem resolvePlain?_append (hpath : IsPlainPath path) (hv : c.resolvePlain? path = some v)
    (hq : path = ['$'] → pathComponents q ≠ []) :
    c.resolvePlain? (path ++ '.' :: q) = v.dig? (pathComponents q) := by
  rcases hpath.begins with rfl | ⟨rest, rfl⟩
  · obtain rfl : .object c.allData = v := Option.some.inj hv
    exact (dig?_allData (hq rfl)).symm
  · have hlookup : c.lookup? (pathComponents rest) = some v := hv
    have hne : pathComponents rest ≠ [] := fun hnil => by rw [hnil] at hlookup; cases hlookup
    calc c.resolvePlain? (['$', '.'] ++ rest ++ '.' :: q)
        = c.lookup? (pathComponents (rest ++ '.' :: q)) := rfl
      _ = v.dig? (pathComponents q) := by rw [pathComponents_append, lookup?_append hne, hlookup, Option.bind_some]

/-- **What follows the beginning of a path is looked for in what the beginning leads to.** -/
theorem resolve_reach (hpath : IsPlainPath path) (hv : c.resolve path = .ok (some v)) (hq : ¬ pipe <:+: q)
    (hne : path = ['$'] → pathComponents (dropEndWhile isBlank q) ≠ []) :
    c.resolve (path ++ '.' :: q) = .ok (v.dig? (pathComponents (dropEndWhile isBlank q))) := by
  have hplain : c.resolvePlain? path = some v := by simpa [resolve_plain hpath] using hv
  have hfront : ¬ pipe <:+: dropEndWhile isBlank q := fun hoccurs =>
    hq (hoccurs.trans (dropEndWhile_isPrefix isBlank q).isInfix)
  rw [resolve_of_pipeless (hpath.trim_append q ▸ hpath.pipeless_append hfront), hpath.trim_append,
    resolvePlain?_append hpath hplain hne]

/-! ## Keys that hold what a path leads to -/

theorem resolve_key (hkey : IsKey key) :
    d.resolve (toKey key) = .ok (findBinding? (String.ofList key) (d.own :: d.outer)) := by
  rw [resolve_plain hkey.isPlainPath]
  have hlookup : d.resolvePlain? (toKey key) = d.lookup? (pathComponents key) := rfl
  rw [hlookup, hkey.pathComponents, lookup?]
  simp [Value.dig?]

theorem resolve_underKey (hkey : IsKey key) (h : findBinding? (String.ofList key) (d.own :: d.outer) = some v)
    (hq : ¬ pipe <:+: q) : d.resolve (toKey key ++ '.' :: q) = .ok (v.dig? (pathComponents (dropEndWhile isBlank q))) :=
  resolve_reach hkey.isPlainPath (h ▸ resolve_key hkey) hq fun heq => by cases heq

theorem findBinding?_child {bindings : Fields} {key : String} (h : bindings.get? key = some v) :
    findBinding? key ((c.child bindings).own :: (c.child bindings).outer) = some v := by
  simp only [child, findBinding?, h]

/-- `key` holds in `d` what `path` leads to in `c`, further out: the innermost scope that binds the key binds it to
that, or to what another such key holds in a scope in between. -/
inductive Holds : Context → Context → List Char → List Char → Prop
  /-- A scope inside `c` binds the key. -/
  | bound {c : Context} {bindings : Fields} {key path : List Char} {v : Value} :
      IsPlainPath path → c.resolve path = .ok (some v) → bindings.get? (String.ofList key) = some v →
      Holds c (c.child bindings) key path
  /-- A further scope leaves the key alone. -/
  | kept {c d : Context} {bindings : Fields} {key path : List Char} :
      Holds c d key path → bindings.get? (String.ofList key) = none → Holds c (d.child bindings) key path
  /-- The key holds what the path to another one leads to. -/
  | through {c d e : Context} {key other path : List Char} :
      Holds c d key path → IsKey key → Holds d e other (toKey key) → Holds c e other path
  /-- The key holds something inside what another one holds. -/
  | within {c d e : Context} {key other path q : List Char} :
      Holds c d key path → IsKey key → IsSuffix q → Holds d e other (toKey key ++ '.' :: q) →
      Holds c e other (path ++ '.' :: q)

theorem resolve_eq_of_binding (hpath : IsPlainPath path) (hv : c.resolve path = .ok (some v)) (hkey : IsKey key)
    (hbinding : findBinding? (String.ofList key) (d.own :: d.outer) = some v) (hq : IsSuffix q)
    (hbare : path = ['$'] → ∃ c ∈ q, isBlank c = false) :
    d.resolve (toKey key ++ '.' :: q) = c.resolve (path ++ '.' :: q) := by
  rw [resolve_underKey hkey hbinding hq.pipeless,
    resolve_reach hpath hv hq.pipeless fun h => hq.pathComponents_ne_nil (hbare h)]

/-- What a key holds can be read at both ends: the scope finds the very value that the path leads to. -/
theorem Holds.found (h : Holds c d key path) :
    IsPlainPath path ∧ ∃ v, c.resolve path = .ok (some v) ∧
      findBinding? (String.ofList key) (d.own :: d.outer) = some v := by
  induction h with
  | bound hpath hv hbinding => exact ⟨hpath, _, hv, findBinding?_child hbinding⟩
  | kept _ hother ih =>
    obtain ⟨hpath, v, hv, hfound⟩ := ih
    exact ⟨hpath, v, hv, by simpa only [child, findBinding?, hother] using hfound⟩
  | through _ hkey _ ihouter ihinner =>
    obtain ⟨hpath, v, hv, hfound⟩ := ihouter
    obtain ⟨-, w, hw, hother⟩ := ihinner
    rw [resolve_key hkey, hfound] at hw
    obtain rfl := Option.some.inj (Except.ok.inj hw)
    exact ⟨hpath, v, hv, hother⟩
  | within _ hkey hq _ ihouter ihinner =>
    obtain ⟨hpath, v, hv, hfound⟩ := ihouter
    obtain ⟨hinner, w, hw, hother⟩ := ihinner
    have hends := hkey.isPlainPath.dropEndWhile_eq hinner
    rw [resolve_eq_of_binding hpath hv hkey hfound hq fun _ => hq.exists_not_blank hends] at hw
    exact ⟨hpath.append hq.pipeless hends, w, hw, hother⟩

theorem Holds.resolve (h : Holds c d key path) (hkey : IsKey key) (hq : IsSuffix q)
    (hbare : path = ['$'] → ∃ c ∈ q, isBlank c = false) :
    d.resolve (toKey key ++ '.' :: q) = c.resolve (path ++ '.' :: q) := by
  obtain ⟨hpath, v, hv, hfound⟩ := h.found
  exact resolve_eq_of_binding hpath hv hkey hfound hq hbare

/-! ## The scopes of items and components -/

/-- An item is found under its index. -/
theorem resolve_item {items : List Value} (hpath : IsPlainPath path) (hv : c.resolve path = .ok (some (.array items)))
    {i : Nat} (hi : i < UInt64.size) : c.resolve (path ++ '.' :: Nat.toDigits 10 i) = .ok items[i]? := by
  have hkey := isKey_toDigits i
  rw [resolve_reach hpath hv hkey.pipeless, hkey.dropEndWhile_eq, hkey.pathComponents]
  · simp [Value.dig?, DigitText.readNatBelow?_toDigits hi]
  · rw [hkey.dropEndWhile_eq, hkey.pathComponents]
    exact fun _ => List.cons_ne_nil _ _

/-- The scope of an item of a list holds the item under `item`. -/
theorem holds_item {n : Node} {path : String} {items : List Value} {i : Nat} {item : Value}
    (hprop : n.textProp? "items" = some path) (hpath : IsPlainPath path.toList) (hitems : n.listItems c = .ok items)
    (hitem : items[i]? = some item) (hi : i < UInt64.size) :
    Holds c (c.itemScope i item) "item".toList (path.toList ++ '.' :: Nat.toDigits 10 i) := by
  have hv : c.resolve path.toList = .ok (some (.array items)) := by
    rw [resolve_plain hpath]
    simp only [Node.listItems, hprop, resolve_plain hpath, Except.map, Except.ok.injEq] at hitems
    subst hitems
    -- Something other than an array has no items.
    cases hfound : c.resolvePlain? path.toList with
    | none => simp [hfound] at hitem
    | some v => cases v <;> simp_all [Value.array?]
  have hkey := isKey_toDigits i
  refine .bound (hpath.append hkey.pipeless hkey.dropEndWhile_eq) (v := item) ?_ rfl
  rw [resolve_item hpath hv hi, hitem]

/-- An argument that is a path reaches the body of a component as what the path leads to. -/
theorem get?_resolveAll {arguments bindings : Fields} (h : c.resolveAll arguments = .ok bindings) {key : String}
    {argument : Value} (hargument : arguments.get? key = some argument) :
    ∃ v, c.resolveValue argument = .ok v ∧ bindings.get? key = some v := by
  induction arguments generalizing bindings with
  | nil => cases hargument
  | cons e arguments ih =>
    obtain ⟨first, hfirst, h⟩ := exists_of_bind_eq_ok h
    obtain ⟨rest, hrest, h⟩ := exists_of_bind_eq_ok h
    obtain rfl := Except.ok.inj h
    rw [Table.get?] at hargument ⊢
    split at hargument
    next hkey =>
      obtain rfl := Option.some.inj hargument
      exact ⟨first, hfirst, if_pos hkey⟩
    next hkey =>
      obtain ⟨v, hv, hbinding⟩ := ih hrest hargument
      exact ⟨v, hv, (if_neg hkey).trans hbinding⟩

theorem IsPlainPath.isBinding (h : IsPlainPath path) : isBinding path = true := by
  rcases h.begins with rfl | ⟨rest, rfl⟩ <;> rfl

/-- The scope of the body of a component holds under the name of an argument what the argument leads to. -/
theorem holds_argument {arguments bindings : Fields} {key path : String} {v : Value}
    (h : c.resolveAll arguments = .ok bindings) (hargument : arguments.get? key = some (.string path))
    (hpath : IsPlainPath path.toList) (hv : c.resolve path.toList = .ok (some v)) :
    Holds c (c.child bindings) key.toList path.toList := by
  obtain ⟨w, hw, hbinding⟩ := get?_resolveAll h hargument
  rw [resolveValue_of_resolve (IsPlainPath.isBinding hpath) hv] at hw
  obtain rfl := Except.ok.inj hw
  exact .bound hpath hv (by rwa [String.ofList_toList])

theorem resolve_bare_blank (hq : ∀ a ∈ q, isBlank a = true) : c.resolve (['$'] ++ '.' :: q) = .ok none := by
  have htrim : trim (['$'] ++ '.' :: q) = ['$', '.'] := by
    rw [isPlainPath_bare.trim_append, dropEndWhile_eq_nil_iff.2 hq]
    rfl
  rw [resolve_of_pipeless (htrim ▸ by decide), htrim]
  rfl

/-- **Paths compose.** What a suffix leads to from a key is what it leads to from the path to the value that the
key holds, whether it leads anywhere or not: in a child scope that binds the key to the value, and in any scope to
which the value has come through list items and arguments. The one exception is a suffix of nothing but white space
after bare `$`: it leads nowhere, while after a key it does not count. -/
theorem paths_compose (c : Context) :
    (∀ (path key q : List Char) (v : Value), IsPlainPath path → c.resolve path = .ok (some v) → IsKey key →
      IsSuffix q → (path = ['$'] → ∃ a ∈ q, isBlank a = false) →
      (c.child [(String.ofList key, v)]).resolve (toKey key ++ '.' :: q) = c.resolve (path ++ '.' :: q)) ∧
    (∀ (d : Context) (path key q : List Char), Holds c d key path → IsKey key → IsSuffix q →
      (path = ['$'] → ∃ a ∈ q, isBlank a = false) →
      d.resolve (toKey key ++ '.' :: q) = c.resolve (path ++ '.' :: q)) ∧
    (∀ (n : Node) (path : String) (items : List Value) (i : Nat) (item : Value), n.textProp? "items" = some path →
      IsPlainPath path.toList → n.listItems c = .ok items → items[i]? = some item → i < UInt64.size →
      Holds c (c.itemScope i item) "item".toList (path.toList ++ '.' :: Nat.toDigits 10 i)) ∧
    (∀ (n : Node) (bindings : Fields) (key path : String) (v : Value), c.resolveAll n.arguments = .ok bindings →
      n.arguments.get? key = some (.string path) → IsPlainPath path.toList → c.resolve path.toList = .ok (some v) →
      Holds c (c.child bindings) key.toList path.toList) ∧
    (∀ q : List Char, (∀ a ∈ q, isBlank a = true) → c.resolve (['$'] ++ '.' :: q) = .ok none ∧
      ∀ (key : List Char) (v : Value), IsKey key →
        (c.child [(String.ofList key, v)]).resolve (toKey key ++ '.' :: q) = .ok (some v)) := by
  have hbound (key : List Char) (v : Value) : Table.get? [(String.ofList key, v)] (String.ofList key) = some v :=
    if_pos rfl
  refine ⟨fun path key q v hpath hv hkey => ?_, fun d path key q h => h.resolve,
    fun n path items i item => holds_item, fun n bindings key path v => holds_argument,
    fun q hq => ⟨resolve_bare_blank hq, fun key v hkey => ?_⟩⟩
  · exact Holds.resolve (.bound hpath hv (hbound key v)) hkey
  · rw [resolve_underKey hkey (findBinding?_child (hbound key v)) (not_pipe_isInfix_of_isBlank hq),
      dropEndWhile_eq_nil_iff.2 hq]
    rfl

theorem paths_compose_shown :
    let show₀ : Value := .object [("name", .string "$raw")]
    let c : Context := ⟨[("shows", .array [show₀])], []⟩
    let inner : Context := (c.itemScope 0 show₀).child [("podcast", show₀)]
    (c.child [("x", .array [show₀])]).resolve "$.x.0.name".toList = c.resolve "$.shows.0.name".toList ∧
      inner.resolve "$.podcast.name".toList = c.resolve "$.shows.0.name".toList ∧
      c.resolve "$.shows.0.name".toList = .ok (some (.string "$raw")) := by
  intro show₀ c inner
  obtain ⟨hchild, hholds, -⟩ := c.paths_compose
  have hshows : IsPlainPath "$.shows".toList := ⟨.inr ⟨"shows".toList, rfl⟩, by decide, by decide⟩
  have hshow : IsPlainPath "$.shows.0".toList := ⟨.inr ⟨"shows.0".toList, rfl⟩, by decide, by decide⟩
  have hitem : IsPlainPath "$.item".toList := ⟨.inr ⟨"item".toList, rfl⟩, by decide, by decide⟩
  have hinner : Holds c inner "podcast".toList "$.shows.0".toList :=
    .through (.bound hshow (v := show₀) rfl rfl) ⟨by decide, by decide, by decide, by decide⟩
      (.bound hitem (v := show₀) rfl rfl)
  refine ⟨?_, ?_, rfl⟩
  · exact hchild "$.shows".toList ['x'] "0.name".toList _ hshows rfl ⟨by decide, by decide, by decide, by decide⟩
      ⟨by decide, by decide⟩ nofun
  · exact hholds inner "$.shows.0".toList "podcast".toList "name".toList hinner
      ⟨by decide, by decide, by decide, by decide⟩ ⟨by decide, by decide⟩ nofun

/-- White space alone is a component, but at the end of a path it does not count, and `$.` leads nowhere. -/
theorem blank_suffix_of_bare :
    let c : Context := ⟨[("a", .int 1)], []⟩
    let v : Value := .object [("a", .int 1)]
    IsPlainPath ['$'] ∧ c.resolve ['$'] = .ok (some v) ∧ IsKey ['x'] ∧ IsSuffix [' '] ∧
      (c.child [("x", v)]).resolve "$.x. ".toList ≠ c.resolve "$. ".toList := by
  refine ⟨isPlainPath_bare, rfl, ⟨by decide, by decide, by decide, by decide⟩, ⟨by decide, by decide⟩, ?_⟩
  exact fun h => by cases h

end Context

end ViewEngine
