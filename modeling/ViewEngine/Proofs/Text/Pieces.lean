import ViewEngine.Text.Blank
import ViewEngine.Text.Split
import Mathlib.Data.List.DropRight

/-!
# Pieces of a text

What cutting and trimming leave of a text: a piece, which stands in the text and is followed by a character
at which it was cut off, or by nothing. The parts of a split end at the first character of the separator,
and what is trimmed ends at white space. Where characters of one kind are dropped from both ends, what is left is
the core of the text (`IsCore`), and there is one only (`IsCore.dropEndWhile_dropWhile`).
-/

namespace ViewEngine

/-- The text is empty or starts with a character at which pieces end. -/
def EndsAt (stop : Char → Prop) (after : List Char) : Prop := ∀ c ∈ after.head?, stop c

/-- `p` stands in `cs` and ends there at a stop or at the end. -/
def IsPiece (stop : Char → Prop) (p cs : List Char) : Prop :=
  ∃ before after, cs = before ++ p ++ after ∧ EndsAt stop after

variable {stop : Char → Prop} {p q cs : List Char}

theorem endsAt_nil : EndsAt stop [] := nofun

theorem EndsAt.append {a b : List Char} (ha : EndsAt stop a) (hb : EndsAt stop b) : EndsAt stop (a ++ b) := by
  cases a with
  | nil => exact hb
  | cons c a => exact ha

theorem IsPiece.refl (cs : List Char) : IsPiece stop cs cs := ⟨[], [], by simp, endsAt_nil⟩

theorem IsPiece.trans (hp : IsPiece stop p q) (hq : IsPiece stop q cs) : IsPiece stop p cs := by
  obtain ⟨before, after, rfl, hafter⟩ := hp
  obtain ⟨front, back, rfl, hback⟩ := hq
  exact ⟨front ++ before, after ++ back, by simp, hafter.append hback⟩

theorem IsPiece.cons (c : Char) (h : IsPiece stop p cs) : IsPiece stop p (c :: cs) := by
  obtain ⟨before, after, rfl, hafter⟩ := h
  exact ⟨c :: before, after, rfl, hafter⟩

theorem IsPiece.isInfix (h : IsPiece stop p cs) : p <:+: cs := by
  obtain ⟨before, after, rfl, -⟩ := h
  exact ⟨before, after, rfl⟩

/-! ## Trimming -/

theorem isPiece_trimStart (cs : List Char) : IsPiece stop (trimStart cs) cs :=
  ⟨cs.takeWhile isBlank, [], by simp [trimStart], endsAt_nil⟩

theorem isPiece_dropEndWhile (b : Char → Bool) (cs : List Char) :
    IsPiece (fun c => b c = true) (dropEndWhile b cs) cs := by
  refine ⟨[], (cs.reverse.takeWhile b).reverse, ?_, fun c hc => ?_⟩
  · rw [dropEndWhile, List.nil_append, ← List.reverse_append, List.takeWhile_append_dropWhile,
      List.reverse_reverse]
  · have hmem : c ∈ cs.reverse.takeWhile b := List.mem_reverse.1 (List.mem_of_mem_head? hc)
    exact List.mem_takeWhile_imp hmem

theorem isPiece_trim (cs : List Char) : IsPiece (fun c => isBlank c = true) (trim cs) cs :=
  (isPiece_dropEndWhile isBlank _).trans (isPiece_trimStart cs)

theorem not_isInfix_trim (h : ¬ p <:+: cs) : ¬ p <:+: trim cs := fun hoccurs =>
  h (hoccurs.trans (isPiece_trim cs).isInfix)

theorem dropEndWhile_isPrefix (b : Char → Bool) (cs : List Char) : dropEndWhile b cs <+: cs :=
  List.rdropWhile_prefix b cs

theorem dropEndWhile_eq_nil_iff {b : Char → Bool} : dropEndWhile b cs = [] ↔ ∀ c ∈ cs, b c = true :=
  List.rdropWhile_eq_nil_iff

theorem dropEndWhile_append_cons {b : Char → Bool} {c : Char} (h : b c = false) (cs ds : List Char) :
    dropEndWhile b (cs ++ c :: ds) = cs ++ c :: dropEndWhile b ds := by
  simp only [dropEndWhile, List.reverse_append, List.reverse_cons, List.append_assoc, List.dropWhile_append]
  split
  · rename_i hempty
    simp [h, List.isEmpty_iff.1 hempty]
  · simp

theorem dropEndWhile_cons {b : Char → Bool} {c : Char} (h : b c = false) (cs : List Char) :
    dropEndWhile b (c :: cs) = c :: dropEndWhile b cs := dropEndWhile_append_cons h [] cs

/-- What is left of a text when the characters with a property are dropped from both ends. -/
structure IsCore (b : Char → Bool) (core cs : List Char) : Prop where
  ends : ∃ front back, cs = front ++ core ++ back ∧ (∀ c ∈ front, b c = true) ∧ ∀ c ∈ back, b c = true
  head : ∀ c ∈ core.head?, b c = false
  last : ∀ c ∈ core.getLast?, b c = false

theorem dropEndWhile_append {b : Char → Bool} {w : List Char} (hw : ∀ c ∈ w, b c = true) (cs : List Char) :
    dropEndWhile b (cs ++ w) = dropEndWhile b cs := by
  rw [dropEndWhile, List.reverse_append, List.dropWhile_append_of_pos fun c hc => hw c (List.mem_reverse.1 hc)]
  rfl

theorem isCore_dropEndWhile_dropWhile (b : Char → Bool) (cs : List Char) :
    IsCore b (dropEndWhile b (cs.dropWhile b)) cs := by
  refine ⟨?_, fun c hc => ?_, fun c hc => ?_⟩
  · refine ⟨cs.takeWhile b, ((cs.dropWhile b).reverse.takeWhile b).reverse, ?_, fun c => List.mem_takeWhile_imp,
      fun c hc => List.mem_takeWhile_imp (List.mem_reverse.1 hc)⟩
    rw [dropEndWhile, List.append_assoc, ← List.reverse_append, List.takeWhile_append_dropWhile,
      List.reverse_reverse, List.takeWhile_append_dropWhile]
  · obtain ⟨back, hback⟩ := dropEndWhile_isPrefix b (cs.dropWhile b)
    have hhead : (cs.dropWhile b).head? = some c := by rw [← hback, List.head?_append, hc, Option.some_or]
    have hnot := List.head?_dropWhile_not b cs
    rw [hhead] at hnot
    simpa using hnot
  · have hne := List.ne_nil_of_mem (List.mem_of_mem_getLast? hc)
    rw [List.getLast?_eq_some_getLast hne] at hc
    cases hc
    exact Bool.eq_false_iff.2 (List.rdropWhile_last_not b (cs.dropWhile b) hne)

theorem IsCore.dropEndWhile_dropWhile {b : Char → Bool} {core : List Char} (h : IsCore b core cs) :
    dropEndWhile b (cs.dropWhile b) = core := by
  obtain ⟨⟨front, back, rfl, hfront, hback⟩, hhead, hlast⟩ := h
  rw [List.append_assoc, List.dropWhile_append_of_pos hfront]
  cases core with
  | nil =>
    rw [List.nil_append, List.dropWhile_eq_nil_iff.2 hback]
    rfl
  | cons c rest =>
    have hstays : (c :: rest ++ back).dropWhile b = c :: rest ++ back := by simp [hhead c rfl]
    rw [hstays, dropEndWhile_append hback]
    refine List.rdropWhile_eq_self_iff.2 fun hne => ?_
    rw [hlast _ (List.getLast?_eq_some_getLast hne)]
    exact Bool.false_ne_true

theorem trimStart_cons {c : Char} (h : isBlank c = false) (cs : List Char) :
    trimStart (c :: cs) = c :: cs := by
  simp [trimStart, h]

/-- Nothing is left of a text, or it starts with a character that is not white space. -/
theorem trim_eq (cs : List Char) :
    (trimStart cs = [] ∧ trim cs = []) ∨
      ∃ c rest, isBlank c = false ∧ trimStart cs = c :: rest ∧ trim cs = c :: dropEndWhile isBlank rest := by
  cases hstart : trimStart cs with
  | nil => exact .inl ⟨rfl, by rw [trim, hstart]; rfl⟩
  | cons c rest =>
    have hc : isBlank c = false := by
      have hhead := List.head?_dropWhile_not isBlank cs
      rw [show cs.dropWhile isBlank = c :: rest from hstart] at hhead
      simpa using hhead
    exact .inr ⟨c, rest, hc, rfl, by rw [trim, hstart, dropEndWhile_cons hc]⟩

theorem isCore_trim (cs : List Char) : IsCore isBlank (trim cs) cs := isCore_dropEndWhile_dropWhile isBlank cs

theorem IsCore.trim_eq {core : List Char} (h : IsCore isBlank core cs) : trim cs = core := h.dropEndWhile_dropWhile

theorem isBlank_head?_trim (cs : List Char) : ∀ c ∈ (trim cs).head?, isBlank c = false := (isCore_trim cs).head

theorem isBlank_getLast?_trim (cs : List Char) : ∀ c ∈ (trim cs).getLast?, isBlank c = false := (isCore_trim cs).last

theorem trim_eq_self {cs : List Char} (hhead : ∀ c ∈ cs.head?, isBlank c = false)
    (hlast : ∀ c ∈ cs.getLast?, isBlank c = false) : trim cs = cs :=
  IsCore.trim_eq ⟨⟨[], [], by simp, List.forall_mem_nil _, List.forall_mem_nil _⟩, hhead, hlast⟩

theorem trim_trim (cs : List Char) : trim (trim cs) = trim cs :=
  trim_eq_self (isBlank_head?_trim cs) (isBlank_getLast?_trim cs)

theorem exists_head_of_trim {cs : List Char} (hne : cs ≠ []) (h : trim cs = cs) :
    ∃ c rest, cs = c :: rest ∧ isBlank c = false := by
  obtain ⟨c, rest, rfl⟩ := List.exists_cons_of_ne_nil hne
  exact ⟨c, rest, rfl, isBlank_head?_trim (c :: rest) c (by rw [h]; rfl)⟩

theorem trim_of_unspaced {cs : List Char} (h : ∀ c ∈ cs, isBlank c = false) : trim cs = cs :=
  trim_eq_self (fun c hc => h c (List.mem_of_mem_head? hc)) fun c hc => h c (List.mem_of_mem_getLast? hc)

theorem trim_between {a b : List Char} (hane : a ≠ []) (ha : ∀ c ∈ a.head?, isBlank c = false) (hbne : b ≠ [])
    (hb : ∀ c ∈ b.getLast?, isBlank c = false) (m : List Char) : trim (a ++ m ++ b) = a ++ m ++ b := by
  refine trim_eq_self (fun c hc => ha c ?_) fun c hc => hb c ?_
  · rwa [List.append_assoc, List.head?_append_of_ne_nil _ hane] at hc
  · rwa [List.getLast?_append_of_ne_nil _ hbne] at hc

/-- What begins and ends with a trimmed text is trimmed. -/
theorem trim_append {a b : List Char} (hane : a ≠ []) (ha : trim a = a) (hbne : b ≠ []) (hb : trim b = b)
    (m : List Char) : trim (a ++ m ++ b) = a ++ m ++ b :=
  trim_between hane (ha ▸ isBlank_head?_trim a) hbne (hb ▸ isBlank_getLast?_trim b) m

/-- White space around a text is trimmed off with what the text has of its own. -/
theorem trim_padded {w w' : List Char} (hw : ∀ c ∈ w, isBlank c = true) (hw' : ∀ c ∈ w', isBlank c = true)
    (cs : List Char) : trim (w ++ cs ++ w') = trim cs := by
  obtain ⟨⟨front, back, hcs, hfront, hback⟩, hhead, hlast⟩ := isCore_trim cs
  refine IsCore.trim_eq ⟨⟨w ++ front, back ++ w', ?_, ?_, ?_⟩, hhead, hlast⟩
  · conv_lhs => rw [hcs]
    simp only [List.append_assoc]
  · exact List.forall_mem_append.2 ⟨hw, hfront⟩
  · exact List.forall_mem_append.2 ⟨hback, hw'⟩

/-! ## Cutting -/

section

variable {first : Char} {sep : List Char}

theorem splitFrom_ne_nil (separator : List Char) (skip : Nat) (cs : List Char) :
    splitFrom separator skip cs ≠ [] := by
  fun_induction splitFrom separator skip cs with
  | case2 skip c rest ih => exact ih
  | _ => exact List.cons_ne_nil _ _

theorem endsAt_of_isPrefixOf (hstop : stop first) (h : (first :: sep).isPrefixOf cs = true) :
    EndsAt stop cs := by
  obtain ⟨rest, rfl⟩ := List.isPrefixOf_iff_prefix.1 h
  rintro c ⟨⟩
  exact hstop

/-- The parts of a text are pieces of it; the first stands at the start unless characters are still to be
dropped. -/
theorem isPiece_of_mem_splitFrom (hstop : stop first) (skip : Nat) (cs : List Char) :
    (∀ p ∈ splitFrom (first :: sep) skip cs, IsPiece stop p cs) ∧
      (skip = 0 → ∀ p ∈ (splitFrom (first :: sep) skip cs).head?,
        ∃ after, cs = p ++ after ∧ EndsAt stop after) := by
  fun_induction splitFrom (first :: sep) skip cs with
  | case1 skip =>
    refine ⟨fun p hp => ?_, fun _ p hp => ⟨[], ?_, endsAt_nil⟩⟩
    · obtain rfl := List.mem_singleton.1 hp
      exact .refl []
    · cases hp
      rfl
  | case2 skip c rest ih => exact ⟨fun p hp => (ih.1 p hp).cons c, nofun⟩
  | case3 c rest hprefix ih =>
    have hends := endsAt_of_isPrefixOf hstop hprefix
    refine ⟨List.forall_mem_cons.2 ⟨⟨[], c :: rest, rfl, hends⟩, fun p hp => (ih.1 p hp).cons c⟩, ?_⟩
    rintro - p ⟨⟩
    exact ⟨c :: rest, rfl, hends⟩
  | case4 c rest _ part parts hparts ih =>
    rw [hparts] at ih
    obtain ⟨after, rfl, hends⟩ := ih.2 rfl part rfl
    refine ⟨List.forall_mem_cons.2 ⟨⟨[], after, rfl, hends⟩, fun p hp => ?_⟩, ?_⟩
    · exact (ih.1 p (List.mem_cons_of_mem _ hp)).cons c
    · rintro - p ⟨⟩
      exact ⟨after, rfl, hends⟩
  | case5 c rest _ hparts => exact absurd hparts (splitFrom_ne_nil _ _ _)

theorem isPiece_of_mem_splitAt (hstop : stop first) (h : p ∈ splitAt (first :: sep) cs) : IsPiece stop p cs :=
  (isPiece_of_mem_splitFrom hstop 0 cs).1 p h

theorem dropStart?_eq_some {start rest : List Char} (h : dropStart? start cs = some rest) : cs = start ++ rest := by
  fun_induction dropStart? start cs with
  | case1 cs => exact Option.some.inj h
  | case2 => cases h
  | case3 start c cs ih => rw [ih h, List.cons_append]
  | case4 => cases h

theorem splitFirst?_eq_some {sep before after : List Char} (h : splitFirst? sep cs = some (before, after)) :
    cs = before ++ sep ++ after := by
  induction cs generalizing before after with
  | nil =>
    rw [splitFirst?] at h
    split at h
    case isTrue hsep =>
      cases h
      simp [hsep]
    case isFalse => cases h
  | cons c rest ih =>
    rw [splitFirst?] at h
    split at h
    case isTrue hprefix =>
      obtain ⟨tail, htail⟩ := List.isPrefixOf_iff_prefix.1 hprefix
      rw [← htail] at h ⊢
      cases h
      simp
    case isFalse =>
      obtain ⟨⟨before', after'⟩, hrest, heq⟩ := Option.map_eq_some_iff.1 h
      cases heq
      rw [ih hrest]
      rfl

theorem isPiece_of_splitFirst? {before after : List Char} (hstop : stop first)
    (h : splitFirst? (first :: sep) cs = some (before, after)) :
    IsPiece stop before cs ∧ IsPiece stop after cs := by
  have hcs := splitFirst?_eq_some h
  constructor
  · refine ⟨[], first :: sep ++ after, by simp [hcs], ?_⟩
    rintro c ⟨⟩
    exact hstop
  · exact ⟨before ++ first :: sep, [], by simp [hcs], endsAt_nil⟩

end

end ViewEngine
