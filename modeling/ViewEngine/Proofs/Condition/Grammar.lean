import Mathlib.Algebra.GroupWithZero.Nat
import Mathlib.Algebra.Order.BigOperators.Group.List
import Mathlib.Algebra.Order.Group.Nat
import ViewEngine.Condition
import ViewEngine.Proofs.Context.Pipelines
import ViewEngine.Proofs.Decimal.Reading
import ViewEngine.Proofs.Json.Numbers

/-!
# The grammar of conditions

A condition is read by cuts that are tried in a fixed order: at the first pipe for the name of a test, then
at each sign for a comparison, and what is left is a binding or nothing. On a text that was put together
from a path and a test, or from two operands and a sign that occurs nowhere else, the cut that is meant is
the one that is found (`read_test`, `read_comparison`), whatever the paths and operands are.
-/

namespace ViewEngine

namespace Comparison

/-- How often a text holds a comparison sign, any of the six. -/
def count (cs : List Char) : Nat := (all.map fun comparison => occurrences comparison.sign cs).sum

theorem mem_all (comparison : Comparison) : comparison ∈ all := by
  cases comparison <;> decide

theorem occurrences_pos (comparison : Comparison) (l r : List Char) :
    0 < occurrences comparison.sign (l ++ comparison.sign ++ r) :=
  Nat.pos_of_ne_zero fun h => occurrences_eq_zero_iff.1 h ⟨l, r, rfl⟩

theorem not_isInfix_of_count {cs : List Char} (h : count cs = 0) (comparison : Comparison) :
    ¬ comparison.sign <:+: cs :=
  occurrences_eq_zero_iff.1 (List.sum_eq_zero_iff.1 h _ (List.mem_map_of_mem comparison.mem_all))

end Comparison

namespace Condition

variable {cs l p r : List Char}

/-! ## Tests -/

/-- The tests of a path, by name. -/
def tests (path : List Char) : List (String × Condition) :=
  [("exists", present path), ("empty", empty path), ("!empty", notEmpty path)]

/-- What follows the first pipe names a test, up to white space. -/
def namesTest (cs : List Char) : Bool :=
  match splitAt pipe cs with
  | path :: op :: _ => ((tests path).map Prod.fst).contains (String.ofList (trim op))
  | _ => false

/-- A path that can be tested: trimmed, without a pipe, and without a bar at its end that the blank after
it would make one. -/
structure IsTestable (p : List Char) : Prop where
  ne_nil : p ≠ []
  trimmed : trim p = p
  pipeless : ¬ pipe <:+: p
  barless : ¬ [' ', '|'] <:+ p

theorem IsTestable.cutsFirst (h : IsTestable p) (b : List Char) : CutsFirst pipe p b :=
  .of_noneAcross h.pipeless (noneAcross_pipe_append h.barless b)

theorem readTest?_eq_none (h : namesTest cs = false) : readTest? cs = none := by
  unfold namesTest at h
  unfold readTest?
  cases hparts : splitAt pipe cs with
  | nil => rfl
  | cons path parts =>
    cases parts with
    | nil => rfl
    | cons op parts =>
      rw [hparts] at h
      have hnames : String.ofList (trim op) ≠ "exists" ∧ String.ofList (trim op) ≠ "empty" ∧
          String.ofList (trim op) ≠ "!empty" := by
        simpa [tests] using h
      obtain ⟨hexists, hempty, hnotEmpty⟩ := hnames
      -- The alternatives of the match fall away one by one, by these three.
      simp only

/-- A path and the name of a test are read as that test of that path. -/
theorem read_test (h : IsTestable p) {name : String} {test : Condition} (htest : (name, test) ∈ tests p) :
    read (p ++ pipe ++ name.toList) = test := by
  obtain ⟨hne, htrim, hpipe⟩ : name.toList ≠ [] ∧ trim name.toList = name.toList ∧
      ¬ pipe <:+: name.toList := by
    revert htest
    simp only [tests, List.mem_cons, Prod.mk.injEq, List.not_mem_nil, or_false]
    rintro (⟨rfl, -⟩ | ⟨rfl, -⟩ | ⟨rfl, -⟩) <;> decide
  have hsplit : splitAt pipe (p ++ pipe ++ name.toList) = [p, name.toList] := by
    rw [splitAt_append pipe_ne_nil (h.cutsFirst _), splitAt_of_not_isInfix hpipe]
  have hread : readTest? (p ++ pipe ++ name.toList) = some test := by
    rw [readTest?, hsplit]
    simp only [htrim, h.trimmed, String.ofList_toList]
    revert htest
    simp only [tests, List.mem_cons, Prod.mk.injEq, List.not_mem_nil, or_false]
    rintro (⟨rfl, rfl⟩ | ⟨rfl, rfl⟩ | ⟨rfl, rfl⟩) <;> rfl
  rw [read, trim_append h.ne_nil h.trimmed hne htrim]
  simp only [hread]

/-! ## Comparisons -/

theorem readComparison?_append {op : Comparison} (h : Comparison.count (l ++ op.sign ++ r) = 1) :
    readComparison? (l ++ op.sign ++ r) Comparison.all = some (compare op (trim l) (trim r)) := by
  obtain ⟨before, after, hall⟩ := List.append_of_mem op.mem_all
  rw [Comparison.count, hall, List.map_append, List.map_cons, List.sum_append, List.sum_cons] at h
  have hpos := op.occurrences_pos l r
  have hbefore : (before.map fun other => occurrences other.sign (l ++ op.sign ++ r)).sum = 0 := by omega
  rw [readComparison?, hall, List.findSome?_eq_some_iff]
  refine ⟨before, op, after, rfl, ?_, fun other hother => ?_⟩
  · rw [splitFirst?_append (.of_occurrences (by omega))]
    rfl
  · -- A sign that is looked for earlier does not occur at all.
    have hzero := List.sum_eq_zero_iff.1 hbefore _ (List.mem_map_of_mem hother)
    rw [splitFirst?_eq_none (occurrences_eq_zero_iff.1 hzero)]
    rfl

theorem readComparison?_eq_none (h : Comparison.count cs = 0) : readComparison? cs Comparison.all = none := by
  refine List.findSome?_eq_none_iff.2 fun op _ => ?_
  rw [splitFirst?_eq_none (Comparison.not_isInfix_of_count h op)]
  rfl

/-- Two operands around a sign are read as that comparison of them, if the sign is the only one. -/
theorem read_comparison {op : Comparison} (hlne : l ≠ []) (hl : trim l = l) (hrne : r ≠ []) (hr : trim r = r)
    (hcount : Comparison.count (l ++ op.sign ++ r) = 1) (htest : namesTest (l ++ op.sign ++ r) = false) :
    read (l ++ op.sign ++ r) = compare op l r := by
  rw [read, trim_append hlne hl hrne hr]
  simp only [readTest?_eq_none htest, readComparison?_append hcount, hl, hr]

/-! ## What is left -/

theorem read_rest (htrim : trim cs = cs) (hcount : Comparison.count cs = 0) (htest : namesTest cs = false) :
    read cs = if cs.head? = some '$' then truthy cs else never := by
  rw [read, htrim]
  simp only [readTest?_eq_none htest, readComparison?_eq_none hcount]

/-! ## Operands -/

/-- A numeral begins neither as a binding nor as a text in quotes. -/
theorem head?_chars_numeral (n : Numeral) : n.chars.head? ≠ some '$' ∧ n.chars.head? ≠ some '\'' :=
  ⟨fun h => n.not_mem_chars (by decide) (by decide) (List.mem_of_mem_head? h),
    fun h => n.not_mem_chars (by decide) (by decide) (List.mem_of_mem_head? h)⟩

theorem quotedText?_eq_none {w : List Char} (h : w.head? ≠ some '\'') : quotedText? w = none := by
  unfold quotedText?
  split
  · exact absurd rfl h
  · rfl

/-- The text of an integer is read as that integer. -/
theorem readInt64?_intText (i : Int64) : readInt64? (Json.intText i.toInt) = some i := by
  have hvalue : (if (Numeral.ofInt i.toInt).negative then -(i.toInt.natAbs : Int) else i.toInt.natAbs) = i.toInt := by
    by_cases hneg : i.toInt < 0
    · have hsign : (Numeral.ofInt i.toInt).negative = true := decide_eq_true hneg
      rw [if_pos hsign]
      omega
    · have hsign : (Numeral.ofInt i.toInt).negative = false := decide_eq_false hneg
      rw [hsign, if_neg Bool.false_ne_true]
      omega
  have hfits : int64? i.toInt = some i := by
    rw [int64?, if_pos ⟨i.minValue_le_toInt, i.toInt_le⟩, Int64.ofInt_toInt]
  rw [← Json.chars_ofInt, readInt64?_of_not_isReal (Numeral.not_isReal_ofInt _), Numeral.digitsValue_whole_ofInt,
    hvalue, hfits]

theorem operand_binding (c : Context) (rest : List Char) :
    operand c ('$' :: rest) = c.resolve ('$' :: rest) := by
  simp [operand]

theorem operand_quoted (c : Context) (text : List Char) :
    operand c ('\'' :: (text ++ ['\''])) = .ok (some (.string (String.ofList text))) := by
  have hclosed : ('\'' :: (text ++ ['\''])).getLast? = some '\'' := by
    rw [← List.cons_append, List.getLast?_concat]
  have hquoted : quotedText? ('\'' :: (text ++ ['\''])) = some text := by
    rw [quotedText?, if_pos hclosed, List.dropLast_concat]
  rw [operand, if_neg (by simp), literal, hquoted]

theorem operand_int (c : Context) (i : Int64) :
    operand c (Json.intText i.toInt) = .ok (some (.int i)) := by
  obtain ⟨hbinding, hquoted⟩ := head?_chars_numeral (Numeral.ofInt i.toInt)
  rw [Json.chars_ofInt] at hbinding hquoted
  rw [operand, if_neg hbinding, literal, quotedText?_eq_none hquoted]
  simp only [readInt64?_intText]

theorem operand_bool (c : Context) (b : Bool) :
    operand c (Value.boolText b).toList = .ok (some (.bool b)) := by
  cases b <;> rfl

/-! ## Evaluation -/

theorem IsTestable.resolve (h : IsTestable p) (c : Context) : c.resolve p = .ok (c.resolvePlain? p) := by
  rw [Context.resolve, h.trimmed, splitAt_of_not_isInfix h.pipeless]

theorem IsTestable.evaluate (h : IsTestable p) {name : String} {test : Condition}
    (htest : (name, test) ∈ tests p) (c : Context) :
    ViewEngine.evaluate (String.ofList (p ++ (pipe ++ name.toList))) c = test.holds c := by
  rw [ViewEngine.evaluate, String.toList_ofList, ← List.append_assoc, read_test h htest]

end Condition

/-- **The grammar of conditions.** A path and the name of a test mean that test of what the path leads to.
Two operands around the only sign of a text mean that comparison of their values: of what a binding leads
to through its transforms, of the text between quotes, of the integer, of the truth value. A binding without
a sign means that its value is truthy, and any other text without a sign is false; the names of the tests
after a first pipe are kept for the tests. -/
theorem evaluate_grammar (c : Context) :
    (∀ p : List Char, Condition.IsTestable p → ∃ v, c.resolve p = .ok v ∧
      evaluate (String.ofList (p ++ " | exists".toList)) c = .ok (v.any fun w => !w.isNull) ∧
      evaluate (String.ofList (p ++ " | empty".toList)) c = .ok (Value.isEmpty v) ∧
      evaluate (String.ofList (p ++ " | !empty".toList)) c = .ok (!Value.isEmpty v)) ∧
    (∀ (op : Comparison) (l r : List Char), l ≠ [] → trim l = l → r ≠ [] → trim r = r →
      Comparison.count (l ++ op.sign ++ r) = 1 → Condition.namesTest (l ++ op.sign ++ r) = false →
      evaluate (String.ofList (l ++ op.sign ++ r)) c = do
        let a ← Condition.operand c l
        let b ← Condition.operand c r
        pure (op.holds a b)) ∧
    ((∀ rest, Condition.operand c ('$' :: rest) = c.resolve ('$' :: rest)) ∧
      (∀ text, Condition.operand c ('\'' :: (text ++ ['\''])) = .ok (some (.string (String.ofList text)))) ∧
      (∀ i : Int64, Condition.operand c (Json.intText i.toInt) = .ok (some (.int i))) ∧
      ∀ b, Condition.operand c (Value.boolText b).toList = .ok (some (.bool b))) ∧
    (∀ cs : List Char, trim cs = cs → Comparison.count cs = 0 → Condition.namesTest cs = false →
      evaluate (String.ofList cs) c =
        if cs.head? = some '$' then (c.resolve cs).map Value.isTruthy else .ok false) := by
  refine ⟨fun p hp => ?_, fun op l r hlne hl hrne hr hcount htest => ?_,
    ⟨Condition.operand_binding c, Condition.operand_quoted c, Condition.operand_int c,
      Condition.operand_bool c⟩, fun cs htrim hcount htest => ?_⟩
  · have hresolve := hp.resolve c
    have hpresent : ("exists", Condition.present p) ∈ Condition.tests p := by simp [Condition.tests]
    have hempty : ("empty", Condition.empty p) ∈ Condition.tests p := by simp [Condition.tests]
    have hnotEmpty : ("!empty", Condition.notEmpty p) ∈ Condition.tests p := by simp [Condition.tests]
    refine ⟨c.resolvePlain? p, hresolve, ?_, ?_, ?_⟩
    · rw [show " | exists".toList = pipe ++ "exists".toList from rfl, hp.evaluate hpresent,
        Condition.holds, hresolve]
      cases c.resolvePlain? p <;> rfl
    · rw [show " | empty".toList = pipe ++ "empty".toList from rfl, hp.evaluate hempty,
        Condition.holds, hresolve]
      rfl
    · rw [show " | !empty".toList = pipe ++ "!empty".toList from rfl, hp.evaluate hnotEmpty,
        Condition.holds, hresolve]
      rfl
  · rw [evaluate, String.toList_ofList, Condition.read_comparison hlne hl hrne hr hcount htest]
    rfl
  · rw [evaluate, String.toList_ofList, Condition.read_rest htrim hcount htest]
    split <;> rfl

theorem evaluate_grammar_shown :
    let c : Context := ⟨[("a", .string "x"), ("n", .int 3)], []⟩
    evaluate "$.a | exists" c = .ok true ∧ evaluate "$.n == 3" c = .ok true ∧
      evaluate "$.b | default:'y'" c = .ok true := by
  intro c
  obtain ⟨htests, hcompare, -, hrest⟩ := evaluate_grammar c
  refine ⟨?_, ?_, ?_⟩
  · obtain ⟨v, hv, hexists, -⟩ := htests "$.a".toList ⟨by decide, by decide, by decide, by decide⟩
    cases hv
    exact hexists
  · exact hcompare .equal "$.n".toList "3".toList (by decide) (by decide) (by decide) (by decide)
      (by decide) (by decide)
  · exact hrest "$.b | default:'y'".toList (by decide) (by decide) (by decide)

end ViewEngine
