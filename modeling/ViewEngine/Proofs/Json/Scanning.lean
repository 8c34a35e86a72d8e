import Mathlib.Data.List.Basic
import ViewEngine.Proofs.Json.Spelling

/-!
# What the lexical machine takes

The converse of lexing. Whatever characters lead the machine to a state, they are cut into tokens with white
space before each (`Cut`), every token written as a spelling would write it (`Token.Written`), and the start of
one more that the state keeps (`Lexer.Begun`). A string that denotes no text spoils this; it stays behind as a
token that holds none.
-/

namespace ViewEngine

/-! ## Numbers -/

namespace DigitText

def single (c : Char) (h : c.isDigit = true) : DigitText where
  chars := [c]
  ne_nil := List.cons_ne_nil c []
  isDigit := List.forall_mem_singleton.2 h

/-- One more digit. -/
def push (t : DigitText) (c : Char) (h : c.isDigit = true) : DigitText where
  chars := t.chars ++ [c]
  ne_nil := by simp
  isDigit := List.forall_mem_append.2 ⟨t.isDigit, List.forall_mem_singleton.2 h⟩

theorem head?_push (t : DigitText) (c : Char) (h : c.isDigit = true) : (t.push c h).chars.head? = t.chars.head? := by
  obtain ⟨d, ds, hchars⟩ := List.exists_cons_of_ne_nil t.ne_nil
  show (t.chars ++ [c]).head? = t.chars.head?
  rw [hchars]
  rfl

end DigitText

namespace Numeral

variable {n : Numeral}

theorem chars_of_whole (hfraction : n.fraction = none) (hexponent : n.exponent = none) :
    n.chars = n.signChars ++ n.whole.chars := by
  simp [chars, unsigned, fractionChars, exponentChars, hfraction, hexponent]

theorem chars_with_fraction (hfraction : n.fraction = none) (hexponent : n.exponent = none) (t : DigitText) :
    { n with fraction := some t }.chars = n.chars ++ '.' :: t.chars := by
  simp [chars, signChars, unsigned, fractionChars, exponentChars, hfraction, hexponent]

/-- The sign of an exponent, or none. -/
def IsSign (sign : List Char) : Prop := sign = [] ∨ sign = ['+'] ∨ sign = ['-']

/-- A numeral without exponent, and an exponent after it. -/
theorem exists_chars_with_exponent (hexponent : n.exponent = none) {mark : Char} (hmark : mark = 'e' ∨ mark = 'E')
    {sign : List Char} (hsign : IsSign sign) (t : DigitText) :
    ∃ m : Numeral, m.chars = n.chars ++ mark :: (sign ++ t.chars) := by
  let m : Numeral := { n with
    exponent := some (decide (sign = ['-']), t)
    isCapital := decide (mark = 'E')
    isPlusless := decide (sign = []) }
  have hwritten : m.exponentMark = mark := by rcases hmark with rfl | rfl <;> rfl
  have hsigned : m.exponentSign (decide (sign = ['-'])) = sign := by rcases hsign with rfl | rfl | rfl <;> rfl
  refine ⟨m, ?_⟩
  have hchars : m.chars = n.signChars ++ (n.whole.chars ++ (n.fractionChars ++
      m.exponentMark :: (m.exponentSign (decide (sign = ['-'])) ++ t.chars))) := rfl
  rw [hchars, hwritten, hsigned]
  simp [chars, unsigned, exponentChars, hexponent]

end Numeral

namespace Json

namespace NumberPhase

/-- What has been read of a number when it is in this phase. -/
def Begun (phase : NumberPhase) (cs : List Char) : Prop :=
  match phase with
  | minus => cs = ['-']
  | zero => ∃ n : Numeral, n.fraction = none ∧ n.exponent = none ∧ cs = n.chars
  | whole => ∃ n : Numeral, n.whole.chars.head? ≠ some '0' ∧ n.fraction = none ∧ n.exponent = none ∧
      cs = n.chars
  | point => ∃ n : Numeral, n.fraction = none ∧ n.exponent = none ∧ cs = n.chars ++ ['.']
  | fraction => ∃ (n : Numeral) (t : DigitText), n.fraction = none ∧ n.exponent = none ∧
      cs = n.chars ++ '.' :: t.chars
  | mark => ∃ (n : Numeral) (m : Char), n.exponent = none ∧ (m = 'e' ∨ m = 'E') ∧ cs = n.chars ++ [m]
  | markSign => ∃ (n : Numeral) (m c : Char), n.exponent = none ∧ (m = 'e' ∨ m = 'E') ∧ Numeral.IsSign [c] ∧
      cs = n.chars ++ [m, c]
  | exponent => ∃ (n : Numeral) (m : Char) (sign : List Char) (t : DigitText), n.exponent = none ∧
      (m = 'e' ∨ m = 'E') ∧ Numeral.IsSign sign ∧ cs = n.chars ++ m :: (sign ++ t.chars)

/-- The first digit of a number, after the sign if there is one. -/
theorem Begun.first (negative : Bool) {c : Char} {next : NumberPhase} (h : minus.step? c = some next) :
    next.Begun (if negative then ['-', c] else [c]) := by
  have hchars (n : Numeral) (hwhole : n.whole.chars = [c]) (hnegative : n.negative = negative)
      (hfraction : n.fraction = none) (hexponent : n.exponent = none) :
      (if negative then ['-', c] else [c]) = n.chars := by
    rw [n.chars_of_whole hfraction hexponent, hwhole, Numeral.signChars, hnegative]
    cases negative <;> rfl
  rw [step?] at h
  split at h
  next hzero =>
    cases h
    subst hzero
    exact ⟨{ negative, whole := .single '0' rfl, leading := .inl rfl }, rfl, rfl, hchars _ rfl rfl rfl rfl⟩
  next hzero =>
    split at h
    next hdigit =>
      cases h
      have hleading : (DigitText.single c hdigit).chars.head? ≠ some '0' := by simpa [DigitText.single] using hzero
      exact ⟨{ negative, whole := .single c hdigit, leading := .inr hleading }, hleading, rfl, rfl,
        hchars _ rfl rfl rfl rfl⟩
    next => cases h

/-- The point after a whole part, or the mark of an exponent. -/
theorem Begun.whole_end {n : Numeral} {c : Char} {next : NumberPhase} (hfraction : n.fraction = none)
    (hexponent : n.exponent = none)
    (h : (if c = '.' then some point else if (c = 'e' || c = 'E') = true then some mark else none) = some next) :
    next.Begun (n.chars ++ [c]) := by
  split at h
  next hpoint =>
    cases h
    subst hpoint
    exact ⟨n, hfraction, hexponent, rfl⟩
  next =>
    split at h
    next hmark =>
      cases h
      exact ⟨n, c, hexponent, by simpa using hmark, rfl⟩
    next => cases h

/-- **One more character of a number.** -/
theorem Begun.step {phase next : NumberPhase} {cs : List Char} {c : Char} (h : phase.Begun cs)
    (hstep : phase.step? c = some next) : next.Begun (cs ++ [c]) := by
  cases phase with
  | minus =>
    cases h
    exact Begun.first true hstep
  | zero =>
    obtain ⟨n, hfraction, hexponent, rfl⟩ := h
    exact Begun.whole_end hfraction hexponent hstep
  | whole =>
    obtain ⟨n, hleading, hfraction, hexponent, rfl⟩ := h
    rw [step?] at hstep
    split at hstep
    next hdigit =>
      cases hstep
      have hpushed : (n.whole.push c hdigit).chars.head? ≠ some '0' := by rwa [n.whole.head?_push c hdigit]
      let m : Numeral := { n with whole := n.whole.push c hdigit, leading := .inr hpushed }
      refine ⟨m, hpushed, hfraction, hexponent, ?_⟩
      rw [n.chars_of_whole hfraction hexponent, m.chars_of_whole hfraction hexponent, List.append_assoc]
      rfl
    next => exact Begun.whole_end hfraction hexponent hstep
  | point =>
    obtain ⟨n, hfraction, hexponent, rfl⟩ := h
    obtain ⟨hdigit, heq⟩ := Option.ite_none_right_eq_some.1 hstep
    cases heq
    exact ⟨n, .single c hdigit, hfraction, hexponent, by simp [DigitText.single]⟩
  | fraction =>
    obtain ⟨n, t, hfraction, hexponent, rfl⟩ := h
    rw [step?] at hstep
    split at hstep
    next hdigit =>
      cases hstep
      exact ⟨n, t.push c hdigit, hfraction, hexponent, by simp [DigitText.push]⟩
    next =>
      obtain ⟨hmark, heq⟩ := Option.ite_none_right_eq_some.1 hstep
      cases heq
      exact ⟨{ n with fraction := some t }, c, hexponent, by simpa using hmark,
        by rw [n.chars_with_fraction hfraction hexponent]⟩
  | mark =>
    obtain ⟨n, m, hexponent, hm, rfl⟩ := h
    rw [step?] at hstep
    split at hstep
    next hsign =>
      cases hstep
      exact ⟨n, m, c, hexponent, hm, .inr (by simpa using hsign), by simp⟩
    next =>
      obtain ⟨hdigit, heq⟩ := Option.ite_none_right_eq_some.1 hstep
      cases heq
      exact ⟨n, m, [], .single c hdigit, hexponent, hm, .inl rfl, by simp [DigitText.single]⟩
  | markSign =>
    obtain ⟨n, m, s, hexponent, hm, hs, rfl⟩ := h
    obtain ⟨hdigit, heq⟩ := Option.ite_none_right_eq_some.1 hstep
    cases heq
    exact ⟨n, m, [s], .single c hdigit, hexponent, hm, hs, by simp [DigitText.single]⟩
  | exponent =>
    obtain ⟨n, m, sign, t, hexponent, hm, hsign, rfl⟩ := h
    obtain ⟨hdigit, heq⟩ := Option.ite_none_right_eq_some.1 hstep
    cases heq
    exact ⟨n, m, sign, t.push c hdigit, hexponent, hm, hsign, by simp [DigitText.push]⟩

theorem Begun.exists_numeral {phase : NumberPhase} {cs : List Char} (h : phase.Begun cs)
    (hcomplete : phase.isComplete = true) : ∃ n : Numeral, cs = n.chars := by
  cases phase with
  | minus | point | mark | markSign => cases hcomplete
  | zero =>
    obtain ⟨n, -, -, hcs⟩ := h
    exact ⟨n, hcs⟩
  | whole =>
    obtain ⟨n, -, -, -, hcs⟩ := h
    exact ⟨n, hcs⟩
  | fraction =>
    obtain ⟨n, t, hfraction, hexponent, hcs⟩ := h
    exact ⟨_, hcs.trans (n.chars_with_fraction hfraction hexponent t).symm⟩
  | exponent =>
    obtain ⟨n, m, sign, t, hexponent, hm, hsign, hcs⟩ := h
    obtain ⟨written, hwritten⟩ := n.exists_chars_with_exponent hexponent hm hsign t
    exact ⟨written, hcs.trans hwritten.symm⟩

end NumberPhase

/-! ## Strings -/

open Lexer

namespace Quotation

variable {q : Quotation} {cs : List Char}

/-- What has been read of a string after its first quote: parts, and perhaps the first half of a pair. -/
def Begun (q : Quotation) (cs : List Char) : Prop :=
  ∃ s : StringText, q.chars = (s.map StringPart.char).reverse ∧
    ((q.high = none ∧ cs = s.flatMap StringPart.chars) ∨
      ∃ u : CodeUnit, q.high = some u.value ∧ (0xd800 ≤ u.value ∧ u.value < 0xdc00) ∧
        cs = s.flatMap StringPart.chars ++ u.chars)

theorem begun_nil : Begun {} [] := ⟨[], rfl, .inl ⟨rfl, rfl⟩⟩

theorem Begun.push (h : q.Begun cs) (p : StringPart) (hreadable : (q.push p.char).isReadable = true) :
    (q.push p.char).Begun (cs ++ p.chars) := by
  obtain ⟨-, hhigh⟩ := Bool.and_eq_true_iff.1 hreadable
  obtain ⟨s, hchars, ⟨-, rfl⟩ | ⟨u, hpending, -⟩⟩ := h
  · refine ⟨s ++ [p], ?_, .inl ⟨rfl, by simp⟩⟩
    show p.char :: q.chars = _
    rw [hchars, List.map_append, List.reverse_append]
    rfl
  · rw [hpending] at hhigh
    cases hhigh

theorem Begun.pushUnit (h : q.Begun cs) (u : CodeUnit) (hreadable : (q.pushUnit u.value).isReadable = true) :
    (q.pushUnit u.value).Begun (cs ++ u.chars) := by
  by_cases hfirst : 0xd800 ≤ u.value ∧ u.value < 0xdc00
  · rw [Quotation.pushUnit, if_pos hfirst] at hreadable ⊢
    obtain ⟨s, hchars, ⟨hhigh, rfl⟩ | ⟨v, hpending, -⟩⟩ := h
    · rw [hhigh]
      exact ⟨s, hchars, .inr ⟨u, rfl, hfirst, rfl⟩⟩
    · rw [hpending] at hreadable
      cases hreadable
  by_cases hsecond : 0xdc00 ≤ u.value ∧ u.value < 0xe000
  · rw [Quotation.pushUnit, if_neg hfirst, if_pos hsecond] at hreadable ⊢
    obtain ⟨s, hchars, ⟨hhigh, -⟩ | ⟨v, hpending, hrange, rfl⟩⟩ := h
    · rw [hhigh] at hreadable
      cases hreadable
    · rw [hpending]
      refine ⟨s ++ [.pair v u hrange hsecond], ?_, .inl ⟨rfl, by simp [StringPart.chars]⟩⟩
      rw [List.map_append, List.reverse_append, ← hchars]
      rfl
  · have hplain : q.pushUnit u.value = q.push (Char.ofNat u.value) := by
      rw [Quotation.pushUnit, if_neg hfirst, if_neg hsecond]
    rw [hplain] at hreadable ⊢
    exact h.push (.unit u (by omega)) hreadable

theorem Begun.text? (h : q.Begun cs) {text : String} (htext : q.text? = some text) :
    ∃ s : StringText, s.string = text ∧ cs = s.flatMap StringPart.chars := by
  obtain ⟨hreadable, heq⟩ := Option.ite_none_right_eq_some.1 htext
  obtain ⟨s, hchars, ⟨-, rfl⟩ | ⟨u, hpending, -⟩⟩ := h
  · refine ⟨s, ?_, rfl⟩
    rw [StringText.string, ← Option.some.inj heq, hchars, List.reverse_reverse]
  · rw [hpending, Option.isNone_some, Bool.and_false] at hreadable
    cases hreadable

theorem push_of_not_isReadable (h : q.isReadable = false) (c : Char) : (q.push c).isReadable = false := by
  rw [Quotation.push, h, Bool.false_and]

theorem pushUnit_of_not_isReadable (h : q.isReadable = false) (unit : Nat) :
    (q.pushUnit unit).isReadable = false := by
  unfold Quotation.pushUnit
  split
  · split
    · exact h
    · rfl
  · split
    · split
      · exact h
      · rfl
    · exact push_of_not_isReadable h _

end Quotation

/-! ## Tokens -/

variable [NumberReader]

/-- The characters are a token as it is written. -/
inductive Token.Written : Token → List Char → Prop where
  | openArray : Written .openArray ['[']
  | closeArray : Written .closeArray [']']
  | openObject : Written .openObject ['{']
  | closeObject : Written .closeObject ['}']
  | comma : Written .comma [',']
  | colon : Written .colon [':']
  | null : Written (.scalar .null) "null".toList
  | bool (b : Bool) : Written (.scalar (.bool b)) (if b then "true".toList else "false".toList)
  | number (n : Numeral) : Written (.scalar (ofNumeral n.chars)) n.chars
  | string (s : StringText) : Written (.string (some s.string)) s.chars

namespace Lexer

variable {l next : Lexer} {c : Char} {cs ds : List Char} {ts us : List Token}

/-- What has been read of the token that the state leaves unfinished. -/
def Begun (l : Lexer) (cs : List Char) : Prop :=
  match l with
  | idle => cs = []
  | word letters => cs = letters.reverse
  | number phase chars => cs = chars.reverse ∧ phase.Begun cs
  | quotation q => ∃ body, q.Begun body ∧ cs = '"' :: body
  | escape q => ∃ body, q.Begun body ∧ cs = '"' :: (body ++ ['\\'])
  | hex q count value => ∃ (body : List Char) (digits : List HexDigit), q.Begun body ∧ digits.length = count ∧
      digits.foldl (fun v d => 16 * v + d.value) 0 = value ∧
      cs = '"' :: (body ++ '\\' :: 'u' :: digits.map HexDigit.char)

/-- The characters are cut into the tokens, with white space before each, and the start of one more. -/
inductive Cut : List Char → List Token → Lexer → Prop where
  | last (gap : Gap) {l : Lexer} {cs : List Char} (h : l.Begun cs) : Cut (gap.chars ++ cs) [] l
  | token (gap : Gap) {t : Token} {word cs : List Char} {ts : List Token} {l : Lexer} (h : t.Written word)
      (rest : Cut cs ts l) : Cut (gap.chars ++ (word ++ cs)) (t :: ts) l

theorem Begun.cut (h : l.Begun cs) : Cut cs [] l := Cut.last [] h

theorem cut_token {t : Token} (h : t.Written cs) : Cut cs [t] idle := by
  have hcut := Cut.token [] h (Begun.cut (l := idle) rfl)
  rwa [List.append_nil] at hcut

theorem Cut.after_gap (h : Cut cs ts l) (g : Gap) : Cut (g.chars ++ cs) ts l := by
  cases h with
  | last gap h => simpa [Gap.chars] using Cut.last (g ++ gap) h
  | token gap h rest => simpa [Gap.chars] using Cut.token (g ++ gap) h rest

theorem Cut.append (h : Cut cs ts idle) (h' : Cut ds us l) : Cut (cs ++ ds) (ts ++ us) l := by
  generalize hl : idle = l' at h
  induction h with
  | last gap h =>
    subst hl
    cases h
    rw [List.append_nil]
    exact h'.after_gap gap
  | token gap h _ ih =>
    rw [List.append_assoc, List.append_assoc]
    exact Cut.token gap h (ih hl)

/-! ## Steps -/

/-- Whatever the step gives is a cut of the character. -/
def Cuts (c : Char) (step : Option (List Token × Lexer)) : Prop :=
  ∀ ts next, step = some (ts, next) → Cut [c] ts next

theorem cuts_some (h : Cut [c] ts next) : Cuts c (some (ts, next)) := by
  rintro _ _ ⟨⟩
  exact h

theorem cuts_char {d : Char} (h : Cut [d] ts next) (hc : c = d) : Cuts c (some (ts, next)) := cuts_some (hc ▸ h)

theorem cuts_ite {p : Prop} [Decidable p] {a b : Option (List Token × Lexer)} (ha : p → Cuts c a)
    (hb : ¬ p → Cuts c b) : Cuts c (if p then a else b) := by
  split
  next h => exact ha h
  next h => exact hb h

/-- **Where no token is unfinished** the character is white space, a token, or the start of one. -/
theorem cuts_start? (c : Char) : Cuts c (start? c) := by
  unfold start?
  refine cuts_ite (fun hspace => ?_) fun _ => cuts_ite (cuts_char (cut_token .openArray)) fun _ =>
    cuts_ite (cuts_char (cut_token .closeArray)) fun _ => cuts_ite (cuts_char (cut_token .openObject)) fun _ =>
    cuts_ite (cuts_char (cut_token .closeObject)) fun _ => cuts_ite (cuts_char (cut_token .comma)) fun _ =>
    cuts_ite (cuts_char (cut_token .colon)) fun _ => cuts_ite (cuts_char ?_) fun _ =>
    cuts_ite (cuts_char ?_) fun _ => cuts_ite (cuts_char ?_) fun hzero =>
    cuts_ite (fun hdigit => cuts_some ?_) fun _ => cuts_ite (fun _ => cuts_some ?_) fun _ => nofun
  · obtain ⟨s, rfl⟩ : ∃ s : Space, s.char = c := by
      simp only [Bool.or_eq_true, decide_eq_true_eq] at hspace
      obtain ((rfl | rfl) | rfl) | rfl := hspace
      · exact ⟨.blank, rfl⟩
      · exact ⟨.tab, rfl⟩
      · exact ⟨.lineFeed, rfl⟩
      · exact ⟨.carriageReturn, rfl⟩
    exact cuts_some (Cut.last [s] (l := idle) rfl)
  · exact Begun.cut ⟨[], Quotation.begun_nil, rfl⟩
  · exact Begun.cut ⟨rfl, rfl⟩
  · exact Begun.cut ⟨rfl, NumberPhase.Begun.first false rfl⟩
  · have hfirst : NumberPhase.minus.step? c = some .whole := by simp [NumberPhase.step?, hzero, hdigit]
    exact Begun.cut ⟨rfl, NumberPhase.Begun.first false hfirst⟩
  · exact Begun.cut rfl

theorem written_of_wordToken? {letters : List Char} {t : Token} (h : wordToken? letters = some t) :
    t.Written letters := by
  unfold wordToken? at h
  split at h
  next hnull =>
    cases h
    exact hnull ▸ .null
  next =>
  split at h
  next htrue =>
    cases h
    exact htrue ▸ .bool true
  next =>
    obtain ⟨hfalse, heq⟩ := Option.ite_none_right_eq_some.1 h
    cases heq
    exact hfalse ▸ .bool false

theorem Begun.finish (h : l.Begun cs) (hfinish : l.finish? = some ts) : Cut cs ts idle := by
  cases l with
  | idle =>
    cases hfinish
    exact h.cut
  | word letters =>
    obtain ⟨t, hword, rfl⟩ := Option.map_eq_some_iff.1 hfinish
    cases h
    exact cut_token (written_of_wordToken? hword)
  | number phase chars =>
    obtain ⟨hcomplete, heq⟩ := Option.ite_none_right_eq_some.1 hfinish
    obtain ⟨rfl, hphase⟩ := h
    obtain ⟨n, hn⟩ := hphase.exists_numeral hcomplete
    cases heq
    rw [hn]
    exact cut_token (.number n)
  | quotation q | escape q | hex q count value => cases hfinish

theorem Begun.endAt (h : l.Begun cs) (hend : l.endAt? c = some (ts, next)) : Cut (cs ++ [c]) ts next := by
  obtain ⟨done, hdone, hrest⟩ := Option.bind_eq_some_iff.1 hend
  obtain ⟨⟨tokens, last⟩, hstart, heq⟩ := Option.bind_eq_some_iff.1 hrest
  cases heq
  exact (h.finish hdone).append (cuts_start? c _ _ hstart)

/-- The string that the state is in denotes no text. -/
def IsSpoiled : Lexer → Prop
  | quotation q | escape q | hex q _ _ => q.isReadable = false
  | idle | word _ | number _ _ => False

/-- A string that denotes no text is among the tokens or under way. -/
def Spoils (ts : List Token) (l : Lexer) : Prop := .string none ∈ ts ∨ l.IsSpoiled

theorem spoils_quotation {q : Quotation} {cs : List Char} (h : q.isReadable = true → q.Begun cs) :
    Spoils [] (quotation q) ∨ Cut ('"' :: cs) [] (quotation q) := by
  cases hreadable : q.isReadable with
  | false => exact .inl (.inr hreadable)
  | true => exact .inr (Begun.cut ⟨cs, h hreadable, rfl⟩)

/-- **One more character.** -/
theorem Begun.step (h : l.Begun cs) (hstep : l.step? (.char c) = some (ts, next)) :
    Spoils ts next ∨ Cut (cs ++ [c]) ts next := by
  cases l with
  | idle =>
    cases h
    exact .inr (cuts_start? c _ _ hstep)
  | word letters =>
    rw [step?] at hstep
    split at hstep
    next =>
      cases hstep
      cases h
      exact .inr (Begun.cut (l := word (c :: letters)) (List.reverse_cons).symm)
    next => exact .inr (h.endAt hstep)
  | number phase chars =>
    rw [step?] at hstep
    split at hstep
    next phase hphase =>
      cases hstep
      obtain ⟨rfl, hbegun⟩ := h
      refine .inr (Begun.cut (l := number phase (c :: chars)) ⟨List.reverse_cons.symm, hbegun.step hphase⟩)
    next => exact .inr (h.endAt hstep)
  | quotation q =>
    obtain ⟨body, hbody, rfl⟩ := h
    rw [step?, inQuotation?] at hstep
    split at hstep
    next hquote =>
      cases hstep
      subst hquote
      cases htext : q.text? with
      | none => exact .inl (.inl List.mem_cons_self)
      | some text =>
        obtain ⟨s, rfl, rfl⟩ := hbody.text? htext
        exact .inr (cut_token (.string s))
    next hquote =>
    split at hstep
    next hslash =>
      cases hstep
      subst hslash
      exact .inr (Begun.cut (l := escape q) ⟨body, hbody, rfl⟩)
    next hslash =>
    split at hstep
    next => cases hstep
    next hcontrol =>
      cases hstep
      exact spoils_quotation (hbody.push (.plain c ⟨hquote, hslash, Nat.le_of_not_lt hcontrol⟩))
  | escape q =>
    obtain ⟨body, hbody, rfl⟩ := h
    rw [step?] at hstep
    split at hstep
    next hu =>
      cases hstep
      subst hu
      exact .inr (Begun.cut (l := hex q 0 0) ⟨body, [], hbody, rfl, rfl, by simp⟩)
    next =>
      obtain ⟨e, hescape, heq⟩ := Option.map_eq_some_iff.1 hstep
      cases heq
      have hpart := spoils_quotation (hbody.push (.letter c e hescape))
      simpa [StringPart.chars, StringPart.char] using hpart
  | hex q count value =>
    obtain ⟨body, digits, hbody, hcount, hvalue, rfl⟩ := h
    obtain ⟨digit, hdigit, heq⟩ := Option.map_eq_some_iff.1 hstep
    let d : HexDigit := ⟨c, digit, hdigit⟩
    have hpushed : (digits ++ [d]).foldl (fun v d => 16 * v + d.value) 0 = 16 * value + digit := by
      rw [List.foldl_append, hvalue]
      rfl
    by_cases hlast : count = 3
    · rw [if_pos hlast] at heq
      cases heq
      obtain ⟨d₁, d₂, d₃, rfl⟩ := List.length_eq_three.1 (hcount.trans hlast)
      let u : CodeUnit := ⟨d₁, d₂, d₃, d⟩
      have hunit : u.value = 16 * value + digit := by simpa [u, CodeUnit.value] using hpushed
      rw [← hunit]
      have hpart := spoils_quotation (hbody.pushUnit u)
      simpa [CodeUnit.chars] using hpart
    · rw [if_neg hlast] at heq
      cases heq
      exact .inr (Begun.cut (l := hex q (count + 1) (16 * value + digit)) ⟨body, digits ++ [d], hbody,
        by simp [hcount], hpushed, by simp [d]⟩)

theorem isSpoiled_stray {byte : UInt8} (hstep : l.step? (.stray byte) = some (ts, next)) : next.IsSpoiled := by
  cases l with
  | quotation q =>
    cases hstep
    exact rfl
  | idle | word letters | number phase chars | escape q | hex q count value => cases hstep

/-- Nothing that follows mends a string. -/
theorem spoils_step {s : Symbol} (h : l.IsSpoiled) (hstep : l.step? s = some (ts, next)) : Spoils ts next := by
  cases s with
  | stray byte => exact .inr (isSpoiled_stray hstep)
  | char c =>
    cases l with
    | idle | word letters | number phase chars => exact h.elim
    | quotation q =>
      have hreadable : q.isReadable = false := h
      rw [step?, inQuotation?] at hstep
      split at hstep
      next =>
        cases hstep
        have hnone : q.text? = none := if_neg (by rw [hreadable, Bool.false_and]; exact Bool.false_ne_true)
        exact .inl (List.mem_singleton.2 (congrArg _ hnone.symm))
      next =>
      split at hstep
      next =>
        cases hstep
        exact .inr hreadable
      next =>
      split at hstep
      next => cases hstep
      next =>
        cases hstep
        exact .inr (Quotation.push_of_not_isReadable hreadable c)
    | escape q =>
      rw [step?] at hstep
      split at hstep
      next =>
        cases hstep
        exact .inr h
      next =>
        obtain ⟨e, -, heq⟩ := Option.map_eq_some_iff.1 hstep
        cases heq
        exact .inr (Quotation.push_of_not_isReadable h e)
    | hex q count value =>
      obtain ⟨digit, -, heq⟩ := Option.map_eq_some_iff.1 hstep
      split at heq
      next =>
        cases heq
        exact .inr (Quotation.pushUnit_of_not_isReadable h _)
      next =>
        cases heq
        exact .inr h

theorem finish?_of_isSpoiled (h : l.IsSpoiled) : l.finish? = none := by
  cases l with
  | idle | word letters | number phase chars => exact h.elim
  | quotation q | escape q | hex q count value => rfl

/-- **One more character after a text that was cut.** -/
theorem Cut.step (h : Cut cs ts l) (hstep : l.step? (.char c) = some (us, next)) :
    Spoils us next ∨ Cut (cs ++ [c]) (ts ++ us) next := by
  induction h with
  | last gap h =>
    rw [List.append_assoc]
    exact (h.step hstep).imp_right fun h => h.after_gap gap
  | token gap h _ ih =>
    rw [List.append_assoc, List.append_assoc]
    exact (ih hstep).imp_right (Cut.token gap h)

theorem Cut.finish (h : Cut cs ts l) (hfinish : l.finish? = some us) : Cut cs (ts ++ us) idle := by
  induction h with
  | last gap h => exact (h.finish hfinish).after_gap gap
  | token gap h _ ih => exact Cut.token gap h (ih hfinish)

end Lexer
end Json
end ViewEngine
