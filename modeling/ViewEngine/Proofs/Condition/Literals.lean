import ViewEngine.Proofs.Condition.Algebra
import ViewEngine.Proofs.Condition.Grammar
import ViewEngine.Proofs.Context.Paths

/-!
# Literals in conditions

A key compared with a literal. The literal is read anew, and what counts is the text of the value that it is read
as, so a literal may stand for another text than its own.

A number literal of JSON is read as the value that it has in a document, but for `-0`: a document holds a negative
zero for it, which is a double, and a condition the integer zero (`literal_numeral`). A word, which has no digits,
stands for itself, unless it names infinity or what is not a number (`asText?_literal_word`).
-/

namespace ViewEngine

namespace Condition

variable {l before r after : List Char}

/-! ## A comparison with a literal -/

theorem sign_equal : Comparison.equal.sign = [' ', '=', '=', ' '] := rfl

theorem space_not_mem (hl : ∀ c ∈ l, isBlank c = false) : ' ' ∉ l := fun h => Bool.noConfusion (hl ' ' h)

theorem pipeless_equality (hl : ∀ c ∈ l, isBlank c = false) (hr : ¬ pipe <:+: ' ' :: r) :
    ¬ pipe <:+: l ++ Comparison.equal.sign ++ r := by
  -- No pipe begins before the last blank of the sign: the text has no blank, and the sign no bar.
  have hspace := space_not_mem hl
  have hfirst : NoneAcross pipe l [' ', '=', '='] :=
    noneAcross_pipe (fun h => absurd (List.mem_of_mem_getLast? h) hspace)
      fun h => absurd (h.subset List.mem_cons_self) hspace
  have hsecond : NoneAcross pipe (l ++ [' ', '=', '=']) (' ' :: r) :=
    noneAcross_pipe (by simp) fun ⟨front, hfront⟩ => by simpa using congrArg List.getLast? hfront
  have hpipe : ¬ pipe <:+: l ++ [' ', '=', '='] :=
    hfirst.not_isInfix (fun h => hspace (h.subset List.mem_cons_self)) (by decide)
  have htext : l ++ Comparison.equal.sign ++ r = l ++ [' ', '=', '='] ++ ' ' :: r := by simp [sign_equal]
  rw [htext]
  exact hsecond.not_isInfix hpipe hr

theorem cutsFirst_equality (hl : ∀ c ∈ l, isBlank c = false) (r : List Char) :
    CutsFirst Comparison.equal.sign l r := by
  rintro front back rfl hne ⟨rest, hrest⟩
  obtain ⟨c, back, rfl⟩ := List.exists_cons_of_ne_nil hne
  have hspace : ' ' = c := (List.cons.inj hrest).1
  exact space_not_mem hl (List.mem_append_right front (hspace ▸ List.mem_cons_self))

/-- A text without white space before the sign for equality is its first operand, and what follows it the other. -/
theorem read_equality (hlne : l ≠ []) (hl : ∀ c ∈ l, isBlank c = false) (hrne : r ≠ []) (hr : trim r = r)
    (hbefore : ∀ c ∈ before, isBlank c = true) (hafter : ∀ c ∈ after, isBlank c = true)
    (hpipe : ¬ pipe <:+: ' ' :: (before ++ r)) :
    read (l ++ Comparison.equal.sign ++ (before ++ r ++ after)) = compare .equal l r := by
  have hltrim : trim l = l := trim_of_unspaced hl
  have hnothing : ∀ c ∈ ([] : List Char), isBlank c = true := List.forall_mem_nil _
  have htrim : trim (l ++ Comparison.equal.sign ++ (before ++ r ++ after)) =
      l ++ Comparison.equal.sign ++ (before ++ r) := by
    have hpadded := trim_padded hnothing hafter (l ++ (Comparison.equal.sign ++ before) ++ r)
    rw [trim_append hlne hltrim hrne hr] at hpadded
    simpa using hpadded
  have hrtrim : trim (before ++ r) = r := by
    have hpadded := trim_padded hbefore hnothing r
    rwa [List.append_nil, hr] at hpadded
  have htest : readTest? (l ++ Comparison.equal.sign ++ (before ++ r)) = none := by
    rw [readTest?, splitAt_of_not_isInfix (pipeless_equality hl hpipe)]
  have hcomparison : readComparison? (l ++ Comparison.equal.sign ++ (before ++ r)) Comparison.all =
      some (compare .equal l r) := by
    rw [readComparison?, Comparison.all, List.findSome?_cons, splitFirst?_append (cutsFirst_equality hl _)]
    simp only [Option.map_some, hltrim, hrtrim]
  rw [read, htrim]
  simp only [htest, hcomparison]

/-! ## Numbers as literals -/

theorem chars_of_negative_zero {n : Numeral} (hreal : ¬ n.IsReal) (hsign : n.negative = true)
    (hzero : (digitsValue n.whole.chars : Int) = 0) : n.chars = ['-', '0'] := by
  have hwhole : n.whole.chars = ['0'] := n.leading.resolve_right fun hhead => by
    have := n.whole.digitsValue_pos hhead
    omega
  rw [Numeral.chars, n.unsigned_of_not_isReal hreal, hwhole, Numeral.signChars, hsign]
  rfl

section
variable [NumberReader]

/-- A number literal is read as the value that an exact reader gives it in a document, but for `-0`. -/
theorem literal_numeral (hreader : NumberReader.IsExact) {n : Numeral} (h : n.chars ≠ ['-', '0']) :
    literal n.chars = Value.ofNumeral n := by
  have hinteger : n.integer? = readInt64? n.chars := by
    by_cases hreal : n.IsReal
    · rw [readInt64?_of_isReal hreal]
      exact if_pos (hreal.imp_right Or.inl)
    · rw [readInt64?_of_not_isReal hreal, n.integer?_of_not_isReal hreal, if_neg]
      rintro ⟨hsign, hzero⟩
      exact h (chars_of_negative_zero hreal hsign hzero)
  rw [literal, quotedText?_eq_none (head?_chars_numeral n).2, Value.ofNumeral, hinteger]
  cases readInt64? n.chars with
  | some i => rfl
  | none => simp only [readBinary64?_chars, n.double_of_isExact hreader]

/-- In a document `-0` is a double. -/
theorem ofNumeral_negative_zero (hreader : NumberReader.IsExact) {n : Numeral} (h : n.chars = ['-', '0']) :
    Value.ofNumeral n = .double (.ofRank true 0) := by
  have hread := n.read?_chars
  rw [h] at hread
  have hdecimal : n.decimal = ⟨true, 0, 0⟩ := (Option.some.inj hread).symm
  obtain ⟨i, hdatum, -⟩ | ⟨-, hinteger, -⟩ := Value.ofNumeral_cases n
  · rw [h] at hdatum
    have hread : Json.ofNumeral ['-', '0'] = Json.ofDecimal ['-', '0'] := rfl
    obtain ⟨d, -, hd⟩ | hd := Json.ofDecimal_cases ['-', '0'] <;> rw [hread, hd] at hdatum <;> cases hdatum
  · rw [Value.ofNumeral, hinteger, n.double_of_isExact hreader, hdecimal]
    rfl

end

/-! ## Words as literals -/

/-- The text of the value of a word is the word, or the text shown for the double that it names. -/
theorem asText?_literal_word {w : List Char} (hdigit : ∀ c ∈ w, c.isDigit = false)
    (hquote : w.head? ≠ some '\'') : (literal w).asText? = some (String.ofList ((shownName? w).getD w)) := by
  have hname := readBinary64?_of_digitless hdigit
  rw [literal, quotedText?_eq_none hquote]
  simp only [readInt64?_of_digitless hdigit]
  cases hread : readBinary64? w with
  | some d =>
    rw [hread, Option.map_some] at hname
    obtain ⟨name, hshown, htext⟩ := Option.map_eq_some_iff.1 hname.symm
    simp only [Value.asText?, hshown, Option.getD_some, htext]
  | none =>
    rw [hread, Option.map_none] at hname
    rw [Option.map_eq_none_iff.1 hname.symm, Option.getD_none]
    simp only
    by_cases htrue : w = "true".toList
    · rw [if_pos htrue, htrue]
      rfl
    · by_cases hfalse : w = "false".toList
      · rw [if_neg htrue, if_pos hfalse, hfalse]
        rfl
      · rw [if_neg htrue, if_neg hfalse]
        rfl

end Condition

/-! ## A key and a literal -/

/-- A key that is one word: it is not empty and has neither points nor white space. -/
structure IsWord (key : String) : Prop where
  ne_empty : key ≠ ""
  pointless : '.' ∉ key.toList
  unspaced : ∀ c ∈ key.toList, isBlank c = false

theorem code_of_isAlpha {c : Char} (h : c.isAlpha = true) : 65 ≤ c.toNat ∧ c.toNat ≤ 122 := by
  have hcases : c.isUpper = true ∨ c.isLower = true := (Bool.or_eq_true _ _).mp h
  rcases hcases with hupper | hlower
  · have hcode : 'A'.val ≤ c.val ∧ c.val ≤ 'Z'.val := of_decide_eq_true hupper
    have hlow : 65 ≤ c.toNat := UInt32.le_iff_toNat_le.1 hcode.1
    have hhigh : c.toNat ≤ 90 := UInt32.le_iff_toNat_le.1 hcode.2
    omega
  · have hcode := (Bool.and_eq_true _ _).mp hlower
    have hlow : 97 ≤ c.toNat := UInt32.le_iff_toNat_le.1 (of_decide_eq_true hcode.1)
    have hhigh : c.toNat ≤ 122 := UInt32.le_iff_toNat_le.1 (of_decide_eq_true hcode.2)
    omega

theorem isBlank_of_isAlpha {c : Char} (h : c.isAlpha = true) : isBlank c = false := by
  have hcode := code_of_isAlpha h
  simp only [isBlank, Bool.or_eq_false_iff, Bool.and_eq_false_iff, decide_eq_false_iff_not]
  omega

theorem isDigit_of_isAlpha {c : Char} (h : c.isAlpha = true) : c.isDigit = false := by
  have hcode := code_of_isAlpha h
  refine Bool.eq_false_iff.2 fun hdigit => ?_
  have hnine : '9'.toNat = 57 := rfl
  have hhigh := (Char.isDigit_iff_toNat.1 hdigit).2
  omega

/-- Letters make a word. -/
theorem isWord_of_isAlpha {key : String} (hne : key ≠ "") (h : key.toList.all Char.isAlpha = true) :
    IsWord key where
  ne_empty := hne
  pointless hpoint := Bool.noConfusion (List.all_eq_true.1 h '.' hpoint)
  unspaced c hc := isBlank_of_isAlpha (List.all_eq_true.1 h c hc)

theorem IsWord.isKey {key : String} (h : IsWord key) : IsKey key.toList where
  ne_nil := by simpa using h.ne_empty
  pointless := h.pointless
  trimmed := trim_of_unspaced h.unspaced
  pipeless hpipe := Condition.space_not_mem h.unspaced (hpipe.subset List.mem_cons_self)

/-- A key compared with a literal, which may have white space around it. -/
theorem evaluate_equality {key t : String} {before r after : List Char} (hkey : IsWord key)
    (ht : t.toList = before ++ r ++ after) (hrne : r ≠ []) (hr : trim r = r) (hdollar : r.head? ≠ some '$')
    (hbefore : ∀ c ∈ before, isBlank c = true) (hafter : ∀ c ∈ after, isBlank c = true)
    (hpipe : ¬ pipe <:+: ' ' :: (before ++ r)) (v : Value) :
    evaluate ("$." ++ key ++ " == " ++ t) ⟨[(key, v)], []⟩ =
      .ok (Comparison.equal.holds (some v) (some (Condition.literal r))) := by
  have hunspaced : ∀ c ∈ toKey key.toList, isBlank c = false := by
    simpa [toKey] using ⟨by decide, by decide, hkey.unspaced⟩
  have hread := Condition.read_equality (l := toKey key.toList) (List.cons_ne_nil _ _) hunspaced hrne hr hbefore
    hafter hpipe
  have htext : ("$." ++ key ++ " == " ++ t).toList =
      toKey key.toList ++ Comparison.equal.sign ++ (before ++ r ++ after) := by
    simp [ht, toKey, Condition.sign_equal]
  have hleft : Condition.operand ⟨[(key, v)], []⟩ (toKey key.toList) = .ok (some v) := by
    have hdollar : (toKey key.toList).head? = some '$' := rfl
    rw [Condition.operand, if_pos hdollar, Context.resolve_key hkey.isKey]
    simp [findBinding?, Table.get?]
  have hright : Condition.operand ⟨[(key, v)], []⟩ r = .ok (some (Condition.literal r)) := if_neg hdollar
  rw [evaluate, htext, hread, Condition.holds, hleft, hright]
  rfl

/-! ## Numbers in a condition -/

theorem Json.Gap.isBlank_chars (g : Json.Gap) : ∀ c ∈ g.chars, isBlank c = true := by
  rintro c hc
  obtain ⟨s, -, rfl⟩ := List.mem_map.1 hc
  cases s <;> rfl

theorem Numeral.unspaced_chars (n : Numeral) : ∀ c ∈ n.chars, isBlank c = false := by
  intro c hc
  refine Bool.eq_false_iff.2 fun hblank => n.not_mem_chars ?_ ?_ hc
  · exact Bool.eq_false_iff.2 fun hdigit => by simp [isBlank_of_isDigit hdigit] at hblank
  · have hmarks : ['-', '+', '.', 'e', 'E'].all (!isBlank ·) = true := by decide
    exact fun hmem => by simpa [hblank] using List.all_eq_true.1 hmarks c hmem

/-- An integer or a double. -/
def Value.isNumber : Value → Bool
  | int _ | double _ => true
  | null | bool _ | string _ | array _ | object _ => false

/-- A spelling of a number is a numeral with white space around it. -/
theorem Json.Spelling.exists_numeral [NumberReader] : ∀ s : Json.Spelling, s.value.isNumber = true →
    ∃ before n after, s.text = before ++ n.chars ++ after ∧ s.value = .ofNumeral n ∧
      (∀ c ∈ before, isBlank c = true) ∧ ∀ c ∈ after, isBlank c = true
  | number n, _ => ⟨[], n, [], by simp [text], rfl, List.forall_mem_nil _, List.forall_mem_nil _⟩
  | spaced first inner last, h => by
    obtain ⟨before, n, after, htext, hvalue, hbefore, hafter⟩ := exists_numeral inner h
    refine ⟨first.chars ++ before, n, after ++ last.chars, by simp [text, htext], hvalue, ?_, ?_⟩
    · exact List.forall_mem_append.2 ⟨first.isBlank_chars, hbefore⟩
    · exact List.forall_mem_append.2 ⟨hafter, last.isBlank_chars⟩
  | null, h | bool _, h | string _, h | emptyArray _, h | array _ _, h | emptyObject _, h | object _ _ _, h =>
    nomatch h

/-- **A number literal means the same in a document and in a condition**, if the reader of documents is exact as
that of conditions is, but for `-0`. -/
theorem evaluate_number [NumberReader] (hreader : NumberReader.IsExact) {key t : String} {v : Value}
    (hkey : IsWord key) (hv : Value.decode? (Utf8.encode t) = some v) (hnumber : v.isNumber = true) :
    evaluate ("$." ++ key ++ " == " ++ t) ⟨[(key, v)], []⟩ = .ok (decide (trim t.toList ≠ ['-', '0'])) := by
  obtain ⟨s, hdecode, -, -, rfl⟩ := Value.decode?_eq_some.1 hv
  obtain rfl : t = String.ofList s.text :=
    Option.some.inj ((Utf8.decode?_eq_some.2 (Utf8.symbols_encode t)).symm.trans hdecode)
  obtain ⟨before, n, after, htext, hvalue, hbefore, hafter⟩ := s.exists_numeral hnumber
  have htrimmed : trim n.chars = n.chars := trim_of_unspaced n.unspaced_chars
  have htrim : trim s.text = n.chars := by rw [htext, trim_padded hbefore hafter, htrimmed]
  have hbar : '|' ∉ before ++ n.chars := by
    rw [List.mem_append, not_or]
    exact ⟨fun h => absurd (hbefore '|' h) (by decide), n.not_mem_chars (by decide) (by decide)⟩
  have hpipe : ¬ pipe <:+: ' ' :: (before ++ n.chars) := fun hoccurs =>
    hbar (by simpa using hoccurs.subset (a := '|') (by simp [pipe]))
  rw [evaluate_equality hkey (by rw [String.toList_ofList, htext]) n.chars_ne_nil htrimmed
    (Condition.head?_chars_numeral n).1 hbefore hafter hpipe, String.toList_ofList, htrim]
  rw [hvalue] at hnumber ⊢
  by_cases hzero : n.chars = ['-', '0']
  · -- The two zeros have different texts.
    rw [Condition.ofNumeral_negative_zero hreader hzero, hzero]
    rfl
  · have hself : Comparison.looselyEqual (some (.ofNumeral n)) (some (.ofNumeral n)) = true := by
      refine (Comparison.looselyEqual_self_iff _).2 ?_
      rintro v ⟨⟩ hcontainer
      cases hv : Value.ofNumeral n <;> rw [hv] at hnumber hcontainer <;> simp_all [Value.isNumber, Value.isContainer]
    rw [Condition.literal_numeral hreader hzero, Comparison.holds, hself, decide_eq_true hzero]

/-- An integer, and a zero that is a double in a condition as well, with the reader that gives the nearest
double. -/
theorem evaluate_number_shown :
    @Value.decode? .exact (Utf8.encode " -17\n") = some (.int (-17)) ∧
    evaluate "$.price ==  -17\n" ⟨[("price", .int (-17))], []⟩ = .ok true ∧
    @Value.decode? .exact (Utf8.encode "-0.0") = some (.double (.ofRank true 0)) ∧
    evaluate "$.price == -0.0" ⟨[("price", .double (.ofRank true 0))], []⟩ = .ok true := by
  have hkey : IsWord "price" := isWord_of_isAlpha (by decide) (by decide)
  have hint : @Value.decode? .exact (Utf8.encode " -17\n") = some (.int (-17)) := by
    unfold Value.decode? Json.read?
    rw [Utf8.symbols_encode]
    rfl
  have hzero : @Value.decode? .exact (Utf8.encode "-0.0") = some (.double (.ofRank true 0)) := by
    unfold Value.decode? Json.read?
    rw [Utf8.symbols_encode]
    rfl
  have hcount := @evaluate_number .exact NumberReader.isExact_exact _ _ _ hkey hint rfl
  have hprice := @evaluate_number .exact NumberReader.isExact_exact _ _ _ hkey hzero rfl
  simp only [String.reduceAppend] at hcount hprice
  rw [decide_eq_true (by decide)] at hcount hprice
  exact ⟨hint, hcount, hzero, hprice⟩

/-- In a document `-0` is a double, for the reader of the program and for an exact one; in a condition it is an
integer, and their texts differ. -/
theorem evaluate_negative_zero :
    Value.decode? (Utf8.encode "-0") = some (.double (.ofRank true 0)) ∧
    @Value.decode? .exact (Utf8.encode "-0") = some (.double (.ofRank true 0)) ∧
    evaluate "$.k == -0" ⟨[("k", .double (.ofRank true 0))], []⟩ = .ok false := by
  refine ⟨?_, ?_, rfl⟩
  · have hzero : Value.minusZero.double.isFinite = true := by rw [Value.double_minusZero]; decide
    refine Value.decode?_eq_some.2 ⟨.number Value.minusZero, ?_, by decide +kernel, .inr hzero, ?_⟩
    · exact Utf8.decode?_eq_some.2 (Utf8.symbols_encode _)
    · exact congrArg Value.double Value.double_minusZero.symm
  · unfold Value.decode? Json.read?
    rw [Utf8.symbols_encode]
    rfl

/-! ## Words in a condition -/

/-- A text without white space and digits that begins neither as a binding nor as a text in quotes. -/
structure IsBareWord (w : String) : Prop where
  ne_empty : w ≠ ""
  unspaced : ∀ c ∈ w.toList, isBlank c = false
  digitless : ∀ c ∈ w.toList, c.isDigit = false
  dollarless : w.toList.head? ≠ some '$'
  quoteless : w.toList.head? ≠ some '\''

/-- Letters and hyphens make a bare word. -/
theorem isBareWord_of_isAlpha {w : String} (hne : w ≠ "")
    (h : w.toList.all (fun c => c.isAlpha || c == '-') = true) : IsBareWord w := by
  have hletter {c : Char} (hc : c ∈ w.toList) : c.isAlpha = true ∨ c = '-' := by
    simpa using List.all_eq_true.1 h c hc
  refine ⟨hne, fun c hc => ?_, fun c hc => ?_, fun hhead => ?_, fun hhead => ?_⟩
  · rcases hletter hc with halpha | rfl
    · exact isBlank_of_isAlpha halpha
    · rfl
  · rcases hletter hc with halpha | rfl
    · exact isDigit_of_isAlpha halpha
    · rfl
  · exact absurd (hletter (List.mem_of_mem_head? hhead)) (by decide)
  · exact absurd (hletter (List.mem_of_mem_head? hhead)) (by decide)

/-- **A bare word is itself**, but for the names of infinity and of what is not a number: whatever its sign and the
case of its letters, such a name is a double, and stands for the text that is shown for it. -/
theorem evaluate_word {key w : String} (hkey : IsWord key) (hw : IsBareWord w) (s : String) :
    (shownName? w.toList = none ∨ w ∈ ["inf", "-inf", "nan"] →
      evaluate ("$." ++ key ++ " == " ++ w) ⟨[(key, .string s)], []⟩ = .ok (decide (s = w))) ∧
    (∀ name, shownName? w.toList = some name →
      evaluate ("$." ++ key ++ " == " ++ w) ⟨[(key, .string s)], []⟩ = .ok (decide (s = String.ofList name))) := by
  have htrim : trim w.toList = w.toList := trim_of_unspaced hw.unspaced
  have hpipe : ¬ pipe <:+: ' ' :: ([] ++ w.toList) := fun hoccurs => by
    refine Condition.space_not_mem hw.unspaced ?_
    rcases List.infix_cons_iff.1 hoccurs with hprefix | hinfix
    · have hbar : ['|', ' '] <+: w.toList := (List.cons_prefix_cons.1 hprefix).2
      exact hbar.subset (by simp)
    · exact hinfix.subset (by simp [pipe])
  have heval : evaluate ("$." ++ key ++ " == " ++ w) ⟨[(key, .string s)], []⟩ =
      .ok (decide (s = String.ofList ((shownName? w.toList).getD w.toList))) := by
    have htext : w.toList = [] ++ w.toList ++ [] := by simp
    have hnothing : ∀ c ∈ ([] : List Char), isBlank c = true := List.forall_mem_nil _
    rw [evaluate_equality hkey htext (by simpa using hw.ne_empty) htrim hw.dollarless hnothing hnothing hpipe,
      Comparison.holds, Comparison.looselyEqual, Condition.asText?_literal_word hw.digitless hw.quoteless]
    exact congrArg Except.ok (Bool.beq_eq_decide_eq _ _)
  constructor
  · rintro (hnone | hname)
    · rw [heval, hnone, Option.getD_none, String.ofList_toList]
    · have hshown : shownName? w.toList = some w.toList := by
        have hall : ∀ name ∈ ["inf", "-inf", "nan"], shownName? name.toList = some name.toList := by decide
        exact hall w hname
      rw [heval, hshown, Option.getD_some, String.ofList_toList]
  · intro name hname
    rw [heval, hname, Option.getD_some]

/-- A truth value is compared by its text, and so is a negative infinity. -/
theorem evaluate_word_shown :
    evaluate "$.k == true" ⟨[("k", .string "true")], []⟩ = .ok true ∧
    evaluate "$.k == -Infinity" ⟨[("k", .string "-inf")], []⟩ = .ok true := by
  have hkey : IsWord "k" := isWord_of_isAlpha (by decide) (by decide)
  have hword : IsBareWord "true" := isBareWord_of_isAlpha (by decide) (by decide)
  have hname : IsBareWord "-Infinity" := isBareWord_of_isAlpha (by decide) (by decide)
  have htrue := (evaluate_word hkey hword "true").1 (.inl rfl)
  have hinf := (evaluate_word hkey hname "-inf").2 _ rfl
  simp only [String.reduceAppend] at htrue hinf
  exact ⟨htrue, hinf⟩

/-- A longer name of infinity is not itself. -/
theorem evaluate_infinity : IsBareWord "infinity" ∧
    evaluate "$.k == infinity" ⟨[("k", .string "infinity")], []⟩ = .ok false :=
  ⟨isBareWord_of_isAlpha (by decide) (by decide), rfl⟩

end ViewEngine
