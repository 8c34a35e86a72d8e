import ViewEngine.Json.Reader
import ViewEngine.Proofs.Json.Numbers

/-!
# What reading can give

Whatever symbols a datum is read from, its numbers fit JSON text and it is not nested too deep. The
lexical machine lets no other number through; the builder keeps the invariant `Builder.Sound`: what
stands in an open array or object fits into the levels that are left.
-/

namespace ViewEngine.Json

/-- A datum that may stand inside `level` arrays and objects. -/
def FitsAt (level : Nat) (j : Json) : Prop := j.depth ≤ maxDepth - level ∧ j.NumbersFit

/-! ## Tokens -/

/-- A datum given by one token: it holds nothing else. -/
def IsScalar (j : Json) : Prop := j.depth = 0 ∧ j.NumbersFit

theorem IsScalar.fitsAt {j : Json} (h : j.IsScalar) (level : Nat) : j.FitsAt level :=
  ⟨by rw [h.1]; exact Nat.zero_le _, h.2⟩

theorem isScalar_leaf {j : Json} (hparts : j.parts = [j]) (hdepth : j.depth = 0) (hfits : j.Fits) :
    j.IsScalar :=
  ⟨hdepth, forall_parts_leaf hparts hfits⟩

theorem isScalar_string (s : String) : (string s).IsScalar := isScalar_leaf rfl rfl trivial

theorem isScalar_unreadable : unreadable.IsScalar := isScalar_leaf rfl rfl trivial

/-- **A numeral gives a number that fits**, or an unreadable datum. -/
theorem isScalar_ofNumeral [NumberReader] (numeral : List Char) : (ofNumeral numeral).IsScalar := by
  obtain ⟨i, hfits, h⟩ | h := ofNumeral_cases numeral
  · rw [h]
    exact isScalar_leaf rfl rfl hfits
  · obtain ⟨d, hfin, hd⟩ | hd := ofDecimal_cases numeral <;> rw [h, hd]
    · exact isScalar_leaf rfl rfl hfin
    · exact isScalar_unreadable

/-- A token that gives a datum gives a scalar. -/
def Token.Sound : Token → Prop
  | .scalar j => j.IsScalar
  | _ => True

namespace Lexer

/-- Whatever tokens a step completes are sound. -/
def Gives (step : Option (List Token × Lexer)) : Prop :=
  ∀ ts l, step = some (ts, l) → ∀ t ∈ ts, t.Sound

theorem gives_none : Gives none := nofun

theorem gives_some {ts : List Token} {l : Lexer} (h : ∀ t ∈ ts, t.Sound) : Gives (some (ts, l)) := by
  intro us m heq
  cases heq
  exact h

theorem gives_ite {p : Prop} [Decidable p] {a b : Option (List Token × Lexer)} (ha : Gives a)
    (hb : Gives b) : Gives (if p then a else b) := by
  split
  · exact ha
  · exact hb

theorem gives_start? (c : Char) : Gives (start? c) := by
  unfold start?
  repeat' apply gives_ite
  all_goals first | exact gives_none | exact gives_some (by simp [Token.Sound])

theorem sound_of_wordToken? {letters : List Char} {t : Token} (h : wordToken? letters = some t) :
    t.Sound := by
  unfold wordToken? at h
  split at h
  · cases h
    exact isScalar_leaf rfl rfl trivial
  split at h
  · cases h
    exact isScalar_leaf rfl rfl trivial
  split at h
  · cases h
    exact isScalar_leaf rfl rfl trivial
  · cases h

variable [NumberReader]

theorem sound_of_finish? {l : Lexer} {ts : List Token} (h : l.finish? = some ts) :
    ∀ t ∈ ts, t.Sound := by
  cases l with
  | idle =>
    cases h
    nofun
  | word letters =>
    obtain ⟨t, hword, rfl⟩ := Option.map_eq_some_iff.1 h
    exact List.forall_mem_singleton.2 (sound_of_wordToken? hword)
  | number phase chars =>
    rw [finish?] at h
    split at h
    · cases h
      exact List.forall_mem_singleton.2 (isScalar_ofNumeral chars.reverse)
    · cases h
  | quotation q | escape q | hex q count value => cases h

theorem gives_endAt? (l : Lexer) (c : Char) : Gives (l.endAt? c) := by
  intro ts last h
  obtain ⟨done, hdone, hrest⟩ := Option.bind_eq_some_iff.1 h
  obtain ⟨⟨tokens, next⟩, hstart, heq⟩ := Option.bind_eq_some_iff.1 hrest
  cases heq
  intro t ht
  rcases List.mem_append.1 ht with ht | ht
  · exact sound_of_finish? hdone t ht
  · exact gives_start? c tokens _ hstart t ht

/-- **Every token is sound**, whatever state and symbol it comes from. -/
theorem gives_step? (l : Lexer) (s : Symbol) : Gives (l.step? s) := by
  have hsilent {l : Lexer} : Gives (some ([], l)) := gives_some nofun
  cases s with
  | stray byte =>
    cases l with
    | quotation q => exact hsilent
    | idle | word letters | number phase chars | escape q | hex q count value => exact gives_none
  | char c =>
    cases l with
    | idle => exact gives_start? c
    | word letters => exact gives_ite hsilent (gives_endAt? _ c)
    | number phase chars =>
      rw [step?]
      split
      · exact hsilent
      · exact gives_endAt? _ c
    | quotation q =>
      exact gives_ite (gives_some (List.forall_mem_singleton.2 trivial))
        (gives_ite hsilent (gives_ite gives_none hsilent))
    | escape q =>
      refine gives_ite hsilent ?_
      cases escape? c
      · exact gives_none
      · exact hsilent
    | hex q count value =>
      rw [step?]
      cases hexValue? c with
      | none => exact gives_none
      | some digit =>
        simp only [Option.map_some]
        split
        · exact hsilent
        · exact hsilent

end Lexer

/-! ## Frames -/

/-- The data that a frame holds so far. -/
def Frame.contents : Frame → List Json
  | .array items => items
  | .object members _ => members.map (·.2)
  | .member members _ _ => members.map (·.2)

/-- What open frames hold fits at their level, and what is inside of them still may be as deep as the
levels that are left. -/
def FramesFit : List Frame → Prop
  | [] => True
  | f :: outer => (∀ j ∈ f.contents, j.FitsAt (outer.length + 1)) ∧ FramesFit outer

namespace Builder

/-- The invariant of the builder. -/
structure Sound (b : Builder) : Prop where
  frames : FramesFit b.frames
  result : ∀ j, b.expected = .nothing j → j.FitsAt 0

theorem sound_start : Sound {} := ⟨trivial, nofun⟩

theorem sound_place? {j : Json} {frames : List Frame} {b : Builder} (hframes : FramesFit frames)
    (hj : j.FitsAt frames.length) (h : place? j frames = some b) : b.Sound := by
  cases frames with
  | nil =>
    cases h
    exact ⟨trivial, fun i hi => by cases hi; exact hj⟩
  | cons f outer =>
    obtain ⟨hf, houter⟩ := hframes
    cases f with
    | array items =>
      cases h
      exact ⟨⟨List.forall_mem_cons.2 ⟨hj, hf⟩, houter⟩, nofun⟩
    | object members isReadable => cases h
    | member members isReadable key =>
      cases h
      exact ⟨⟨List.forall_mem_cons.2 ⟨hj, hf⟩, houter⟩, nofun⟩

theorem fitsAt_array {items : List Json} {level : Nat} (hlevel : level < maxDepth)
    (h : ∀ j ∈ items, j.FitsAt (level + 1)) : (array items).FitsAt level := by
  have hdepth := itemsDepth_le.2 fun j hj => (h j hj).1
  refine ⟨?_, numbersFit_array.2 fun j hj => (h j hj).2⟩
  rw [depth]
  omega

theorem fitsAt_object {members : List (String × Json)} {level : Nat} (hlevel : level < maxDepth)
    (h : ∀ m ∈ members, m.2.FitsAt (level + 1)) : (object members).FitsAt level := by
  have hdepth := membersDepth_le.2 fun m hm => (h m hm).1
  refine ⟨?_, numbersFit_object.2 fun m hm => (h m hm).2⟩
  rw [depth]
  omega

/-- What is closed fits, as it is unreadable where it is nested too deep. -/
theorem sound_close? {j : Json} {outer : List Frame} {b : Builder} (houter : FramesFit outer)
    (hj : outer.length < maxDepth → j.FitsAt outer.length) (h : close? j outer = some b) : b.Sound := by
  refine sound_place? houter ?_ h
  split
  · rename_i hlt
    exact hj hlt
  · exact isScalar_unreadable.fitsAt _

theorem sound_end? {frames : List Frame} {t : Token} {b : Builder} (hframes : FramesFit frames)
    (h : end? frames t = some b) : b.Sound := by
  unfold end? at h
  split at h
  · rename_i items outer
    obtain ⟨hf, houter⟩ := hframes
    exact sound_close? houter (fun hlt => fitsAt_array hlt fun j hj => hf j (List.mem_reverse.1 hj)) h
  · rename_i members isReadable outer
    obtain ⟨hf, houter⟩ := hframes
    refine sound_close? houter (fun hlt => ?_) h
    split
    · refine fitsAt_object hlt fun m hm => hf m.2 ?_
      exact List.mem_map_of_mem (List.mem_reverse.1 hm)
    · exact isScalar_unreadable.fitsAt _
  · cases h

theorem sound_value? {frames : List Frame} {t : Token} {b : Builder} (hframes : FramesFit frames)
    (ht : t.Sound) (h : value? frames t = some b) : b.Sound := by
  unfold value? at h
  split at h
  · exact sound_place? hframes (IsScalar.fitsAt ht _) h
  · exact sound_place? hframes ((isScalar_string _).fitsAt _) h
  · exact sound_place? hframes (isScalar_unreadable.fitsAt _) h
  · cases h
    exact ⟨⟨nofun, hframes⟩, nofun⟩
  · cases h
    exact ⟨⟨nofun, hframes⟩, nofun⟩
  · cases h

theorem sound_key? {frames : List Frame} {t : Token} {b : Builder} (hframes : FramesFit frames)
    (h : key? frames t = some b) : b.Sound := by
  unfold key? at h
  split at h
  · cases h
    exact ⟨hframes, nofun⟩
  · cases h
    exact ⟨hframes, nofun⟩
  · cases h

/-- **One token keeps the invariant.** -/
theorem Sound.step? {b next : Builder} {t : Token} (hb : b.Sound) (ht : t.Sound)
    (h : b.step? t = some next) : next.Sound := by
  obtain ⟨hframes, -⟩ := hb
  unfold Builder.step? at h
  split at h
  · exact sound_value? hframes ht h
  · exact sound_end? hframes h
  · exact sound_value? hframes ht h
  · exact sound_key? hframes h
  · exact sound_end? hframes h
  · exact sound_key? hframes h
  · cases h
    exact ⟨hframes, nofun⟩
  · cases h
  · split at h
    · cases h
      exact ⟨hframes, nofun⟩
    · cases h
      exact ⟨hframes, nofun⟩
    · cases h
  · exact sound_end? hframes h
  · cases h

theorem Sound.foldlM {b next : Builder} {ts : List Token} (hb : b.Sound) (hts : ∀ t ∈ ts, t.Sound)
    (h : ts.foldlM Builder.step? b = some next) : next.Sound := by
  induction ts generalizing b with
  | nil =>
    cases h
    exact hb
  | cons t ts ih =>
    obtain ⟨mid, hstep, hrest⟩ := Option.bind_eq_some_iff.1 (List.foldlM_cons.symm.trans h)
    obtain ⟨ht, hts⟩ := List.forall_mem_cons.1 hts
    exact ih (hb.step? ht hstep) hts hrest

end Builder

/-! ## Runs -/

variable [NumberReader]

/-- What one symbol does: the lexical machine completes tokens and the builder takes them. -/
theorem Scan.exists_tokens {s next : Scan} {symbol : Symbol} (h : s.step? symbol = some next) : ∃ tokens,
    s.lexer.step? symbol = some (tokens, next.lexer) ∧ tokens.foldlM Builder.step? s.builder = some next.builder := by
  obtain ⟨⟨tokens, lexer⟩, hlexer, hrest⟩ := Option.bind_eq_some_iff.1 h
  obtain ⟨builder, hbuilder, heq⟩ := Option.bind_eq_some_iff.1 hrest
  cases heq
  exact ⟨tokens, hlexer, hbuilder⟩

/-- What a text that is read goes through: its symbols, and the tokens that its end completes. -/
theorem exists_run_of_readSymbols? {symbols : List Symbol} {j : Json} (h : readSymbols? symbols = some j) :
    ∃ (s : Scan) (tokens : List Token) (b : Builder), symbols.foldlM Scan.step? {} = some s ∧
      s.lexer.finish? = some tokens ∧ tokens.foldlM Builder.step? s.builder = some b ∧ b.expected = .nothing j := by
  obtain ⟨s, hrun, hfinish⟩ := Option.bind_eq_some_iff.1 h
  obtain ⟨tokens, htokens, hrest⟩ := Option.bind_eq_some_iff.1 hfinish
  obtain ⟨b, hbuilder, hresult⟩ := Option.bind_eq_some_iff.1 hrest
  refine ⟨s, tokens, b, hrun, htokens, hbuilder, ?_⟩
  unfold Builder.result? at hresult
  split at hresult
  · rename_i heq
    cases hresult
    exact heq
  · cases hresult

theorem sound_foldlM_scan {symbols : List Symbol} {s last : Scan} (hs : s.builder.Sound)
    (h : symbols.foldlM Scan.step? s = some last) : last.builder.Sound := by
  induction symbols generalizing s with
  | nil =>
    cases h
    exact hs
  | cons symbol symbols ih =>
    obtain ⟨mid, hstep, hrest⟩ := Option.bind_eq_some_iff.1 (List.foldlM_cons.symm.trans h)
    obtain ⟨tokens, hlexer, hbuilder⟩ := Scan.exists_tokens hstep
    exact ih (hs.foldlM (Lexer.gives_step? _ _ tokens _ hlexer) hbuilder) hrest

/-- **What is read fits**: its numbers are of the kinds that text holds, and at most `maxDepth` arrays
and objects stand inside each other. -/
theorem fits_of_readSymbols? {symbols : List Symbol} {j : Json} (h : readSymbols? symbols = some j) :
    j.depth ≤ maxDepth ∧ j.NumbersFit := by
  obtain ⟨s, tokens, b, hrun, htokens, hbuilder, hexpected⟩ := exists_run_of_readSymbols? h
  have hs := sound_foldlM_scan Builder.sound_start hrun
  exact (hs.foldlM (Lexer.sound_of_finish? htokens) hbuilder).result j hexpected

end ViewEngine.Json
