import ViewEngine.Json.Printer
import ViewEngine.Json.Token

/-!
# Lexing what was printed

The lexical machine takes printed text apart into the tokens it was made of. A number or a word is
complete only when something else begins; so a piece of text is said to spell tokens (`Spells`) if the
machine has them once the text ends or a comma or closing bracket follows.
-/

namespace ViewEngine.Json

namespace Lexer

/-! ## Characters -/

/-- The characters that may follow a datum. -/
def IsMark (c : Char) : Prop := c ∈ [',', ']', '}', ' ', '\t', '\n', '\r']

theorem forall_isMark {p : Char → Prop}
    (h : p ',' ∧ p ']' ∧ p '}' ∧ p ' ' ∧ p '\t' ∧ p '\n' ∧ p '\r') : ∀ c, IsMark c → p c := by
  simpa [IsMark] using h

theorem hexValue?_hexDigit (n : Nat) : hexValue? (hexDigit n) = some (n % 16) := by
  have hall : ∀ i < 16, hexValue? (Nat.digitChar i) = some i := by decide
  exact hall (n % 16) (Nat.mod_lt n (by decide))

variable [NumberReader]

/-! ## Runs of the machine -/

/-- The characters lead the machine from one state to another and complete the tokens. -/
inductive Reads : Lexer → List Char → List Token → Lexer → Prop where
  | nil {l : Lexer} : Reads l [] [] l
  | cons {l next last : Lexer} {c : Char} {cs : List Char} {done more : List Token} :
      l.step? (.char c) = some (done, next) → Reads next cs more last →
      Reads l (c :: cs) (done ++ more) last

theorem Reads.append {l mid last : Lexer} {cs ds : List Char} {ts us : List Token}
    (h : Reads l cs ts mid) (h' : Reads mid ds us last) : Reads l (cs ++ ds) (ts ++ us) last := by
  induction h with
  | nil => exact h'
  | cons hstep _ ih =>
    rw [List.cons_append, List.append_assoc]
    exact Reads.cons hstep (ih h')

theorem Reads.single {l next : Lexer} {c : Char} {ts : List Token}
    (h : l.step? (.char c) = some (ts, next)) : Reads l [c] ts next := by
  have := Reads.cons h Reads.nil
  rwa [List.append_nil] at this

/-- A character that completes no token. -/
theorem Reads.silent {l last : Lexer} (next : Lexer) {c : Char} {cs : List Char} {ts : List Token}
    (h : l.step? (.char c) = some ([], next)) (h' : Reads next cs ts last) : Reads l (c :: cs) ts last :=
  Reads.cons h h'

/-- A character that completes one token. -/
theorem Reads.token {l next last : Lexer} {c : Char} {cs : List Char} {t : Token} {ts : List Token}
    (h : l.step? (.char c) = some ([t], next)) (h' : Reads next cs ts last) :
    Reads l (c :: cs) (t :: ts) last :=
  Reads.cons h h'

/-- The unfinished token ends with the text and at every mark; then the tokens are complete. -/
structure Ends (l : Lexer) (ts : List Token) : Prop where
  finish : l.finish? = some ts
  mark : ∀ c, IsMark c → l.step? (.char c) = l.endAt? c

theorem ends_idle : Ends idle [] := by
  refine ⟨rfl, fun c _ => ?_⟩
  show start? c = _
  unfold endAt?
  cases start? c <;> simp [finish?]

/-- The characters spell the tokens, wherever the text ends or a mark follows. -/
def Spells (cs : List Char) (ts : List Token) : Prop :=
  ∃ (l : Lexer) (done held : List Token), Reads idle cs done l ∧ l.Ends held ∧ done ++ held = ts

theorem Reads.spells {cs : List Char} {ts : List Token} (h : Reads idle cs ts idle) : Spells cs ts :=
  ⟨idle, ts, [], h, ends_idle, List.append_nil ts⟩

/-- A mark after a datum completes it. -/
theorem Spells.mark {cs : List Char} {ts us : List Token} {c : Char} (h : Spells cs ts)
    (hc : IsMark c) (hstart : start? c = some (us, idle)) : Reads idle (cs ++ [c]) (ts ++ us) idle := by
  obtain ⟨l, done, held, hreads, ⟨hfinish, hmark⟩, rfl⟩ := h
  rw [List.append_assoc]
  refine hreads.append (Reads.single ?_)
  rw [hmark c hc, endAt?, hfinish, hstart]
  rfl

/-! ## Words -/

theorem ends_word {letters : List Char} {t : Token} (h : wordToken? letters.reverse = some t) :
    Ends (word letters) [t] := by
  have hstop : ∀ c, IsMark c → c.isAlpha = false := forall_isMark ⟨rfl, rfl, rfl, rfl, rfl, rfl, rfl⟩
  refine ⟨by simp [finish?, h], fun c hc => ?_⟩
  simp [step?, hstop c hc]

theorem spells_null : Spells "null".toList [.scalar null] :=
  ⟨word ['l', 'l', 'u', 'n'], [], [.scalar null],
    .silent _ rfl (.silent _ rfl (.silent _ rfl (.silent _ rfl .nil))), ends_word rfl, rfl⟩

theorem spells_bool (b : Bool) :
    Spells (if b then "true".toList else "false".toList) [.scalar (bool b)] := by
  cases b
  · exact ⟨word ['e', 's', 'l', 'a', 'f'], [], [.scalar (bool false)],
      .silent _ rfl (.silent _ rfl (.silent _ rfl (.silent _ rfl (.silent _ rfl .nil)))),
      ends_word rfl, rfl⟩
  · exact ⟨word ['e', 'u', 'r', 't'], [], [.scalar (bool true)],
      .silent _ rfl (.silent _ rfl (.silent _ rfl (.silent _ rfl .nil))), ends_word rfl, rfl⟩

/-! ## Strings -/

/-- A one-letter escape. -/
theorem reads_escape {acc : List Char} {c letter : Char} (hu : letter ≠ 'u')
    (h : escape? letter = some c) :
    Reads (quotation ⟨acc, none, true⟩) ['\\', letter] [] (quotation ⟨c :: acc, none, true⟩) := by
  refine Reads.silent (escape ⟨acc, none, true⟩) rfl (Reads.single ?_)
  simp [step?, hu, h, Quotation.push]

/-- A hexadecimal digit and its value. -/
structure HexDigit where
  char : Char
  value : Nat
  reads : hexValue? char = some value

def HexDigit.ofNat (n : Nat) : HexDigit := ⟨hexDigit n, n % 16, hexValue?_hexDigit n⟩

/-- Four hexadecimal digits: a 16-bit unit of text. -/
structure CodeUnit where
  first : HexDigit
  second : HexDigit
  third : HexDigit
  fourth : HexDigit

namespace CodeUnit

def value (u : CodeUnit) : Nat :=
  16 * (16 * (16 * u.first.value + u.second.value) + u.third.value) + u.fourth.value

/-- The escape of the unit. -/
def chars (u : CodeUnit) : List Char :=
  ['\\', 'u', u.first.char, u.second.char, u.third.char, u.fourth.char]

end CodeUnit

theorem reads_unit (q : Quotation) (u : CodeUnit) :
    Reads (quotation q) u.chars [] (quotation (q.pushUnit u.value)) := by
  obtain ⟨⟨a, i, ha⟩, ⟨b, j, hb⟩, ⟨c, k, hc⟩, ⟨d, l, hd⟩⟩ := u
  refine Reads.silent (escape q) rfl (Reads.silent (hex q 0 0) rfl
    (Reads.silent (hex q 1 i) ?_ (Reads.silent (hex q 2 (16 * i + j)) ?_
    (Reads.silent (hex q 3 (16 * (16 * i + j) + k)) ?_ (Reads.single ?_)))))
  · simp [step?, ha]
  · simp [step?, hb]
  · simp [step?, hc]
  · simp [step?, hd, CodeUnit.value]

/-- A control character that has no letter. -/
theorem reads_hex {acc : List Char} {c : Char} (h : c.toNat < 32) :
    Reads (quotation ⟨acc, none, true⟩)
      ['\\', 'u', '0', '0', hexDigit (c.toNat / 16), hexDigit c.toNat] []
      (quotation ⟨c :: acc, none, true⟩) := by
  let u : CodeUnit := ⟨.ofNat 0, .ofNat 0, .ofNat (c.toNat / 16), .ofNat c.toNat⟩
  have hvalue : u.value = c.toNat := by
    simp only [u, CodeUnit.value, HexDigit.ofNat]
    omega
  have hunit : (Quotation.mk acc none true).pushUnit c.toNat = ⟨c :: acc, none, true⟩ := by
    rw [Quotation.pushUnit, if_neg (by omega), if_neg (by omega), Char.ofNat_toNat]
    rfl
  have hreads := reads_unit ⟨acc, none, true⟩ u
  rwa [hvalue, hunit] at hreads

/-- An escaped character adds that character to the string being read. -/
theorem reads_escaped (acc : List Char) (c : Char) :
    Reads (quotation ⟨acc, none, true⟩) (escaped c) [] (quotation ⟨c :: acc, none, true⟩) := by
  have hofNat {n : Nat} (h : c.toNat = n) : Char.ofNat n = c := h ▸ Char.ofNat_toNat c
  unfold escaped
  split
  · rename_i h
    subst h
    exact reads_escape (by decide) rfl
  split
  · rename_i h
    subst h
    exact reads_escape (by decide) rfl
  split
  · rename_i h
    rw [← hofNat h]
    exact reads_escape (by decide) rfl
  split
  · rename_i h
    rw [← hofNat h]
    exact reads_escape (by decide) rfl
  split
  · rename_i h
    subst h
    exact reads_escape (by decide) rfl
  split
  · rename_i h
    subst h
    exact reads_escape (by decide) rfl
  split
  · rename_i h
    subst h
    exact reads_escape (by decide) rfl
  split
  · rename_i h
    exact reads_hex h
  · rename_i hquote hslash _ _ _ _ _ hcontrol
    refine Reads.single ?_
    simp [step?, inQuotation?, hquote, hslash, hcontrol, Quotation.push]

theorem reads_flatMap_escaped (acc cs : List Char) :
    Reads (quotation ⟨acc, none, true⟩) (cs.flatMap escaped) []
      (quotation ⟨cs.reverse ++ acc, none, true⟩) := by
  induction cs generalizing acc with
  | nil => exact Reads.nil
  | cons c cs ih =>
    have := (reads_escaped acc c).append (ih (c :: acc))
    rw [List.flatMap_cons, List.reverse_cons, List.append_assoc]
    exact this

/-- **A quoted string is read as that string**, whatever characters it holds. -/
theorem reads_quoted (s : String) : Reads idle (quoted s) [.string (some s)] idle := by
  have hclose : (quotation ⟨s.toList.reverse ++ [], none, true⟩).step? (.char '"')
      = some ([.string (some s)], idle) := by
    simp [step?, inQuotation?, Quotation.text?]
  exact Reads.silent _ rfl ((reads_flatMap_escaped [] s.toList).append (Reads.single hclose))

end Lexer

end ViewEngine.Json
