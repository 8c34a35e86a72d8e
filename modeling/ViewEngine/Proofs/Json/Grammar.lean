import ViewEngine.Proofs.Json.Reading
import ViewEngine.Proofs.Json.Scanning

/-!
# What is well formed

Whatever symbols are read as a datum without unreadable parts are the text of a spelling
(`exists_spelling`); with `Spelling.readSymbols?_text` the spellings are the grammar of what is read.

The builder keeps two invariants. What is unreadable stays in its frame and makes the datum unreadable
(`Builder.IsSpoiled`); and the text read so far is that of the open frames, each up to where the builder stands
(`Opened`).
-/

namespace ViewEngine.Json

/-! ## Unreadable parts -/

theorem normalItems?_eq_none {items : List Json} (h : ∃ j ∈ items, j.normal? = none) :
    normalItems? items = none := by
  induction items with
  | nil => simp at h
  | cons j rest ih =>
    rw [normalItems?]
    rcases List.or_exists_of_exists_mem_cons h with h | h
    · rw [h]
      rfl
    · rw [ih h]
      cases j.normal? <;> rfl

theorem normalMembers?_eq_none {members : List (String × Json)} (h : ∃ m ∈ members, m.2.normal? = none) :
    normalMembers? members = none := by
  induction members with
  | nil => simp at h
  | cons m rest ih =>
    obtain ⟨key, j⟩ := m
    rw [normalMembers?]
    rcases List.or_exists_of_exists_mem_cons h with h | h
    · rw [h]
      rfl
    · rw [ih h]
      cases j.normal? <;> rfl

/-- The frame holds something unreadable. -/
def Frame.IsSpoiled : Frame → Prop
  | .array items => ∃ j ∈ items, j.normal? = none
  | .object members isReadable | .member members isReadable _ =>
    isReadable = false ∨ ∃ m ∈ members, m.2.normal? = none

namespace Builder

/-- What has been built holds something unreadable. -/
def IsSpoiled (b : Builder) : Prop :=
  match b.expected with
  | .nothing j => j.normal? = none
  | _ => ∃ f ∈ b.frames, f.IsSpoiled

variable {b next : Builder} {frames : List Frame} {t : Token}

theorem isSpoiled_place? {j : Json} (h : j.normal? = none ∨ ∃ f ∈ frames, f.IsSpoiled)
    (hplace : place? j frames = some b) : b.IsSpoiled := by
  cases frames with
  | nil =>
    cases hplace
    exact h.resolve_right (by simp)
  | cons f outer =>
    rw [List.exists_mem_cons_iff] at h
    cases f with
    | object members isReadable => cases hplace
    | array items =>
      cases hplace
      refine (List.exists_mem_cons_iff _ _ _).2 ?_
      rcases h with hj | hf | houter
      · exact .inl ⟨j, List.mem_cons_self, hj⟩
      · exact .inl (List.exists_mem_cons_of_exists hf)
      · exact .inr houter
    | member members isReadable key =>
      cases hplace
      refine (List.exists_mem_cons_iff _ _ _).2 ?_
      rcases h with hj | hf | houter
      · exact .inl (.inr ⟨(key, j), List.mem_cons_self, hj⟩)
      · exact .inl (hf.imp_right fun hm => List.exists_mem_cons_of_exists hm)
      · exact .inr houter

theorem isSpoiled_close? {j : Json} (h : j.normal? = none ∨ ∃ f ∈ frames, f.IsSpoiled)
    (hclose : close? j frames = some b) : b.IsSpoiled := by
  refine isSpoiled_place? (h.imp_left fun hj => ?_) hclose
  split
  · exact hj
  · rfl

theorem isSpoiled_end? (h : t = .string none ∨ ∃ f ∈ frames, f.IsSpoiled) (hend : end? frames t = some b) :
    b.IsSpoiled := by
  unfold end? at hend
  split at hend
  · rename_i items outer
    refine isSpoiled_close? ((List.or_exists_of_exists_mem_cons (h.resolve_left nofun)).imp_left ?_) hend
    rintro ⟨j, hj, hnone⟩
    rw [normal?, normalItems?_eq_none ⟨j, List.mem_reverse.2 hj, hnone⟩]
    rfl
  · rename_i members isReadable outer
    refine isSpoiled_close? ((List.or_exists_of_exists_mem_cons (h.resolve_left nofun)).imp_left ?_) hend
    rintro (hkey | ⟨m, hm, hnone⟩)
    · rw [if_neg (by simp [hkey])]
      rfl
    · split
      · rw [normal?, normalMembers?_eq_none ⟨m, List.mem_reverse.2 hm, hnone⟩]
        rfl
      · rfl
  · cases hend

theorem isSpoiled_value? (h : t = .string none ∨ ∃ f ∈ frames, f.IsSpoiled) (hvalue : value? frames t = some b) :
    b.IsSpoiled := by
  unfold value? at hvalue
  split at hvalue
  · exact isSpoiled_place? (.inr (h.resolve_left nofun)) hvalue
  · exact isSpoiled_place? (.inr (h.resolve_left nofun)) hvalue
  · exact isSpoiled_place? (.inl rfl) hvalue
  · cases hvalue
    exact List.exists_mem_cons_of_exists (h.resolve_left nofun)
  · cases hvalue
    exact List.exists_mem_cons_of_exists (h.resolve_left nofun)
  · cases hvalue

theorem isSpoiled_key? (h : t = .string none ∨ ∃ f ∈ frames, f.IsSpoiled) (hkey : key? frames t = some b) :
    b.IsSpoiled := by
  unfold key? at hkey
  split at hkey
  · cases hkey
    have hframes := List.or_exists_of_exists_mem_cons (h.resolve_left nofun)
    exact (List.exists_mem_cons_iff _ _ _).2 hframes
  · cases hkey
    exact List.exists_mem_cons_of _ (.inl rfl)
  · cases hkey

/-- Where an item or the end of the array is expected, all else is the start of the item. -/
theorem step?_itemOrEnd (h : t ≠ .closeArray) : step? ⟨.itemOrEnd, frames⟩ t = value? frames t := by
  cases t <;> first | rfl | exact absurd rfl h

theorem step?_keyOrEnd (h : t ≠ .closeObject) : step? ⟨.keyOrEnd, frames⟩ t = key? frames t := by
  cases t <;> first | rfl | exact absurd rfl h

/-- **What is unreadable stays unreadable**, and a string that denotes no text is. -/
theorem isSpoiled_step? (h : t = .string none ∨ b.IsSpoiled) (hstep : b.step? t = some next) : next.IsSpoiled := by
  obtain ⟨e, frames⟩ := b
  by_cases hcomplete : ∃ j, e = .nothing j
  · obtain ⟨j, rfl⟩ := hcomplete
    cases hstep
  · have hframes : t = .string none ∨ ∃ f ∈ frames, f.IsSpoiled := h.imp_right fun h => by
      cases e with
      | nothing j => exact absurd ⟨j, rfl⟩ hcomplete
      | value | itemOrEnd | key | keyOrEnd | colon | commaOrEnd => exact h
    unfold step? at hstep
    split at hstep
    · exact isSpoiled_value? hframes hstep
    · exact isSpoiled_end? hframes hstep
    · exact isSpoiled_value? hframes hstep
    · exact isSpoiled_key? hframes hstep
    · exact isSpoiled_end? hframes hstep
    · exact isSpoiled_key? hframes hstep
    · cases hstep
      exact hframes.resolve_left nofun
    · cases hstep
    · split at hstep
      · cases hstep
        exact hframes.resolve_left nofun
      · cases hstep
        exact hframes.resolve_left nofun
      · cases hstep
    · exact isSpoiled_end? hframes hstep
    · cases hstep

theorem isSpoiled_foldlM {ts : List Token} (h : .string none ∈ ts ∨ b.IsSpoiled)
    (hfold : ts.foldlM step? b = some next) : next.IsSpoiled := by
  induction ts generalizing b with
  | nil =>
    cases hfold
    exact h.resolve_left (List.not_mem_nil)
  | cons t ts ih =>
    obtain ⟨mid, hstep, hrest⟩ := Option.bind_eq_some_iff.1 (List.foldlM_cons.symm.trans hfold)
    refine ih ?_ hrest
    rcases h with h | h
    · rcases List.mem_cons.1 h with h | h
      · exact .inr (isSpoiled_step? (.inl h.symm) hstep)
      · exact .inl h
    · exact .inr (isSpoiled_step? (.inr h) hstep)

end Builder

/-! ## Open arrays and objects -/

namespace Spelling

/-- An array up to the start of an item. -/
def itemLead (items : List Spelling) : List Char := '[' :: items.flatMap fun s => s.text ++ [',']

/-- An object up to the start of a member. -/
def memberLead (members : List (KeyText × Spelling)) : List Char :=
  '{' :: members.flatMap fun m => m.1.chars ++ ':' :: (m.2.text ++ [','])

theorem itemLead_append (items : List Spelling) (s : Spelling) (gap : Gap) :
    itemLead (items ++ [.spaced [] s gap]) = itemLead items ++ (s.text ++ (gap.chars ++ [','])) := by
  simp [itemLead, text, Gap.chars]

theorem memberLead_append (members : List (KeyText × Spelling)) (key : KeyText) (s : Spelling) (gap : Gap) :
    memberLead (members ++ [(key, .spaced [] s gap)]) =
      memberLead members ++ (key.chars ++ ':' :: (s.text ++ (gap.chars ++ [',']))) := by
  simp [memberLead, text, Gap.chars]

theorem itemsText_append (items : List Spelling) (s : Spelling) :
    itemsText (items ++ [s]) = ',' :: ((items.flatMap fun s => s.text ++ [',']) ++ s.text ++ [']']) := by
  induction items with
  | nil => simp [itemsText]
  | cons first rest ih => simp [itemsText, ih]

theorem membersText_append (members : List (KeyText × Spelling)) (key : KeyText) (s : Spelling) :
    membersText (members ++ [(key, s)]) =
      ',' :: ((members.flatMap fun m => m.1.chars ++ ':' :: (m.2.text ++ [','])) ++
        key.chars ++ ':' :: s.text ++ ['}']) := by
  induction members with
  | nil => simp [membersText]
  | cons first rest ih => simp [membersText, ih]

/-- The last item and the end of the array. -/
theorem exists_text_array (items : List Spelling) (s : Spelling) :
    ∃ a : Spelling, a.text = itemLead items ++ s.text ++ [']'] := by
  cases items with
  | nil => exact ⟨.array s [], by simp [text, itemsText, itemLead]⟩
  | cons first rest => exact ⟨.array first (rest ++ [s]), by simp [text, itemsText_append, itemLead]⟩

/-- The last member and the end of the object. -/
theorem exists_text_object (members : List (KeyText × Spelling)) (key : KeyText) (s : Spelling) :
    ∃ o : Spelling, o.text = memberLead members ++ (key.chars ++ ':' :: s.text) ++ ['}'] := by
  cases members with
  | nil => exact ⟨.object key s [], by simp [text, membersText, memberLead]⟩
  | cons first rest =>
    exact ⟨.object first.1 first.2 (rest ++ [(key, s)]), by simp [text, membersText_append, memberLead]⟩

end Spelling

open Spelling

/-- What has been read of an open array or object, up to where something is expected. -/
inductive Frame.Begun : Frame → Expected → List Char → Prop where
  | array {done : List Json} : Begun (.array done) .itemOrEnd ['[']
  | item {done : List Json} (items : List Spelling) (s : Spelling) :
      Begun (.array done) .commaOrEnd (itemLead items ++ s.text)
  | itemComma {done : List Json} (items : List Spelling) : Begun (.array done) .value (itemLead items)
  | object {done : List (String × Json)} {r : Bool} : Begun (.object done r) .keyOrEnd ['{']
  | key {done : List (String × Json)} {r : Bool} {name : String} (members : List (KeyText × Spelling))
      (key : KeyText) : Begun (.member done r name) .colon (memberLead members ++ key.chars)
  | colon {done : List (String × Json)} {r : Bool} {name : String} (members : List (KeyText × Spelling))
      (key : KeyText) : Begun (.member done r name) .value (memberLead members ++ (key.chars ++ [':']))
  | member {done : List (String × Json)} {r : Bool} (members : List (KeyText × Spelling)) (key : KeyText)
      (s : Spelling) : Begun (.object done r) .commaOrEnd (memberLead members ++ (key.chars ++ ':' :: s.text))
  | memberComma {done : List (String × Json)} {r : Bool} (members : List (KeyText × Spelling)) :
      Begun (.object done r) .key (memberLead members)

/-- A datum is expected. -/
def Expected.IsDatum (e : Expected) : Prop := e = .value ∨ e = .itemOrEnd

/-- The text up to where something is expected inside of the open frames: each frame stands where a datum was
expected in the one around it. -/
inductive Opened : List Frame → Expected → List Char → Prop where
  | start : Opened [] .value []
  | complete {j : Json} (s : Spelling) : Opened [] (.nothing j) s.text
  | frame {f : Frame} {outer : List Frame} {e around : Expected} {cs ds : List Char} (h : Opened outer around cs)
      (hdatum : around.IsDatum) (gap : Gap) (hbegun : f.Begun e ds) : Opened (f :: outer) e (cs ++ (gap.chars ++ ds))

namespace Opened

variable {frames : List Frame} {e : Expected} {b next : Builder} {cs word : List Char} {t : Token}

/-- A datum in its place. -/
theorem place (h : Opened frames e cs) (hdatum : e.IsDatum) (s : Spelling) {j : Json}
    (hplace : Builder.place? j frames = some b) : Opened b.frames b.expected (cs ++ s.text) := by
  cases h with
  | start =>
    cases hplace
    exact .complete s
  | complete => rcases hdatum with hdatum | hdatum <;> cases hdatum
  | frame houter haround gap hbegun =>
    cases hbegun with
    | array =>
      cases hplace
      simpa [itemLead] using houter.frame haround gap (.item [] s)
    | itemComma items =>
      cases hplace
      simpa using houter.frame haround gap (.item items s)
    | colon members key =>
      cases hplace
      simpa using houter.frame haround gap (.member members key s)
    | item | object | key | member | memberComma => rcases hdatum with hdatum | hdatum <;> cases hdatum

theorem place_after (h : Opened frames e cs) (hdatum : e.IsDatum) (gap : Gap) (s : Spelling) {j : Json}
    (hplace : Builder.place? j frames = some b) : Opened b.frames b.expected (cs ++ (gap.chars ++ s.text)) := by
  simpa [Spelling.text, Gap.chars] using h.place hdatum (.spaced gap s []) hplace

variable [NumberReader]

/-- The start of a datum. -/
theorem value (h : Opened frames e cs) (hdatum : e.IsDatum) (gap : Gap) (hword : t.Written word)
    (hvalue : Builder.value? frames t = some b) : Opened b.frames b.expected (cs ++ (gap.chars ++ word)) := by
  cases hword with
  | null => exact h.place_after hdatum gap .null hvalue
  | bool b => exact h.place_after hdatum gap (.bool b) hvalue
  | number n => exact h.place_after hdatum gap (.number n) hvalue
  | string s => exact h.place_after hdatum gap (.string s) hvalue
  | openArray =>
    cases hvalue
    exact h.frame hdatum gap .array
  | openObject =>
    cases hvalue
    exact h.frame hdatum gap .object
  | closeArray | closeObject | comma | colon => cases hvalue

/-- The key of a member. -/
theorem key {outer : List Frame} {around : Expected} {done : List (String × Json)} {r : Bool}
    (h : Opened outer around cs) (hdatum : around.IsDatum) (outerGap : Gap) (members : List (KeyText × Spelling))
    (gap : Gap) (hword : t.Written word) (hkey : Builder.key? (.object done r :: outer) t = some b) :
    Opened b.frames b.expected (cs ++ (outerGap.chars ++ memberLead members) ++ (gap.chars ++ word)) := by
  cases hword with
  | string s =>
    cases hkey
    simpa [KeyText.chars, Gap.chars] using h.frame hdatum outerGap (.key members ⟨gap, s, []⟩)
  | openArray | closeArray | openObject | closeObject | comma | colon | null | bool | number => cases hkey

/-- **One more token**, with white space before it. -/
theorem step (h : Opened b.frames b.expected cs) (gap : Gap) (hword : t.Written word)
    (hstep : b.step? t = some next) : Opened next.frames next.expected (cs ++ (gap.chars ++ word)) := by
  obtain ⟨e, frames⟩ := b
  cases h with
  | start => exact Opened.start.value (.inl rfl) gap hword hstep
  | complete s => cases hstep
  | frame houter haround outerGap hbegun =>
    have hopened := houter.frame haround outerGap hbegun
    -- The white space before a comma, a colon or a closing bracket belongs to what stands before it.
    cases hbegun with
    | array =>
      by_cases hclose : t = .closeArray
      · subst hclose
        cases hword
        simpa [Spelling.text] using houter.place_after haround outerGap (.emptyArray gap) hstep
      · rw [Builder.step?_itemOrEnd hclose] at hstep
        exact hopened.value (.inr rfl) gap hword hstep
    | itemComma items => exact hopened.value (.inl rfl) gap hword hstep
    | item items s =>
      cases hword with
      | comma =>
        cases hstep
        simp only [List.append_assoc]
        rw [← itemLead_append]
        exact houter.frame haround outerGap (.itemComma _)
      | closeArray =>
        obtain ⟨a, ha⟩ := exists_text_array items (.spaced [] s gap)
        simpa [ha, Spelling.text, Gap.chars] using houter.place_after haround outerGap a hstep
      | openArray | openObject | closeObject | colon | null | bool | number | string => cases hstep
    | object =>
      by_cases hclose : t = .closeObject
      · subst hclose
        cases hword
        simpa [Spelling.text] using houter.place_after haround outerGap (.emptyObject gap) hstep
      · rw [Builder.step?_keyOrEnd hclose] at hstep
        exact houter.key haround outerGap [] gap hword hstep
    | memberComma members => exact houter.key haround outerGap members gap hword hstep
    | key members key =>
      cases hword with
      | colon =>
        cases hstep
        simpa [KeyText.chars, Gap.chars] using
          houter.frame haround outerGap (.colon members { key with after := key.after ++ gap })
      | openArray | closeArray | openObject | closeObject | comma | null | bool | number | string => cases hstep
    | colon members key => exact hopened.value (.inl rfl) gap hword hstep
    | member members key s =>
      cases hword with
      | comma =>
        cases hstep
        simp only [List.append_assoc, List.cons_append]
        rw [← memberLead_append]
        exact houter.frame haround outerGap (.memberComma _)
      | closeObject =>
        obtain ⟨o, ho⟩ := exists_text_object members key (.spaced [] s gap)
        simpa [ho, Spelling.text, Gap.chars] using houter.place_after haround outerGap o hstep
      | openArray | closeArray | openObject | colon | null | bool | number | string => cases hstep

/-- The tokens of a text that is cut, and the white space after the last. -/
theorem foldlM {ds : List Char} {ts : List Token} (h : Opened b.frames b.expected cs)
    (hcut : Lexer.Cut ds ts .idle) (hfold : ts.foldlM Builder.step? b = some next) :
    ∃ (gap : Gap) (read : List Char), Opened next.frames next.expected read ∧ cs ++ ds = read ++ gap.chars := by
  generalize hl : Lexer.idle = l at hcut
  induction hcut generalizing b cs with
  | last gap hbegun =>
    subst hl
    cases hbegun
    cases hfold
    exact ⟨gap, cs, h, by rw [List.append_nil]⟩
  | token gap hword _ ih =>
    obtain ⟨mid, hstep, hrest⟩ := Option.bind_eq_some_iff.1 (List.foldlM_cons.symm.trans hfold)
    obtain ⟨gap', read, hread, htext⟩ := ih (h.step gap hword hstep) hrest hl
    exact ⟨gap', read, hread, by rw [← htext]; simp⟩

end Opened

/-! ## Both machines -/

variable [NumberReader]

/-- What has been read is unreadable, or it is cut into the tokens that the builder has taken. -/
def Scan.Follows (s : Scan) (symbols : List Symbol) : Prop :=
  (s.lexer.IsSpoiled ∨ s.builder.IsSpoiled) ∨ ∃ (cs : List Char) (ts : List Token), symbols = cs.map .char ∧
    Lexer.Cut cs ts s.lexer ∧ ts.foldlM Builder.step? {} = some s.builder

namespace Scan

theorem follows_start : Follows {} [] := .inr ⟨[], [], rfl, Lexer.Begun.cut rfl, rfl⟩

theorem Follows.step {s next : Scan} {symbols : List Symbol} {symbol : Symbol} (h : s.Follows symbols)
    (hstep : s.step? symbol = some next) : next.Follows (symbols ++ [symbol]) := by
  obtain ⟨tokens, hlexer, hbuilder⟩ := exists_tokens hstep
  have hspoils : Lexer.Spoils tokens next.lexer → next.Follows (symbols ++ [symbol]) := fun hspoils =>
    .inl (hspoils.symm.imp_right fun hmem => Builder.isSpoiled_foldlM (.inl hmem) hbuilder)
  rcases h with (hspoiled | hspoiled) | ⟨cs, ts, rfl, hcut, hfold⟩
  -- A spoiled string becomes a token without text, by which the builder is spoiled in turn.
  · exact hspoils (Lexer.spoils_step hspoiled hlexer)
  · exact .inl (.inr (Builder.isSpoiled_foldlM (.inr hspoiled) hbuilder))
  · cases symbol with
    | stray byte => exact hspoils (.inr (Lexer.isSpoiled_stray hlexer))
    | char c =>
      rcases hcut.step hlexer with hmore | hmore
      · exact hspoils hmore
      · refine .inr ⟨cs ++ [c], ts ++ tokens, by simp, hmore, ?_⟩
        rw [List.foldlM_append, hfold]
        exact hbuilder

theorem Follows.foldlM {s last : Scan} {done symbols : List Symbol} (h : s.Follows done)
    (hfold : symbols.foldlM step? s = some last) : last.Follows (done ++ symbols) := by
  induction symbols generalizing s done with
  | nil =>
    cases hfold
    rwa [List.append_nil]
  | cons symbol symbols ih =>
    obtain ⟨mid, hstep, hrest⟩ := Option.bind_eq_some_iff.1 (List.foldlM_cons.symm.trans hfold)
    simpa using ih (h.step hstep) hrest

end Scan

/-- **Whatever is read, and holds nothing unreadable, is the text of a spelling.** -/
theorem exists_spelling {symbols : List Symbol} {j : Json} (h : readSymbols? symbols = some j)
    (hnormal : j.normal? ≠ none) : ∃ s : Spelling, symbols = s.text.map .char := by
  obtain ⟨scan, tokens, ⟨e, frames⟩, hrun, htokens, hbuilder, hexpected⟩ := exists_run_of_readSymbols? h
  obtain rfl : e = .nothing j := hexpected
  rcases Scan.follows_start.foldlM hrun with (hspoiled | hspoiled) | ⟨cs, ts, hsymbols, hcut, hfold⟩
  · exact absurd htokens (Lexer.finish?_of_isSpoiled hspoiled ▸ nofun)
  · exact absurd (Builder.isSpoiled_foldlM (.inr hspoiled) hbuilder) hnormal
  · have hall : (ts ++ tokens).foldlM Builder.step? {} = some ⟨.nothing j, frames⟩ := by
      rw [List.foldlM_append, hfold]
      exact hbuilder
    obtain ⟨gap, read, hread, htext⟩ := Opened.start.foldlM (hcut.finish htokens) hall
    cases hread with
    | complete s => exact ⟨.spaced [] s gap, hsymbols.trans (congrArg _ htext)⟩
    | frame _ _ _ hbegun => cases hbegun

end ViewEngine.Json
