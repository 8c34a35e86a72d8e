import Mathlib.Data.List.Infix
import ViewEngine.Proofs.Text.Pieces

/-!
# Where a text is cut

A text is cut at the first occurrence of a separator and nowhere before: what stands before it comes out
whole, and cutting everywhere goes on with what stands after it (`splitFirst?_append`, `splitAt_append`).
A text without an occurrence is not cut, and no part of a split has one. Where a separator occurs only
once, its one occurrence is the first (`CutsFirst.of_occurrences`).

Cutting everywhere depends on nothing but what lies on the borders: two texts that follow each other are cut
each for itself unless a separator lies across (`splitAt_weld`). So cutting undoes putting together and
putting together undoes cutting (`splitAt_joinWith`, `joinWith_splitAt`).
-/

namespace ViewEngine

variable {sep cs a b p : List Char}

/-- The separator between `a` and `b` is the first one in `a ++ sep ++ b`: none begins inside `a`. -/
def CutsFirst (sep a b : List Char) : Prop :=
  ∀ before after, a = before ++ after → after ≠ [] → ¬ sep <+: after ++ sep ++ b

theorem CutsFirst.tail {c : Char} (h : CutsFirst sep (c :: a) b) : CutsFirst sep a b :=
  fun before after ha => h (c :: before) after (congrArg (c :: ·) ha)

theorem CutsFirst.not_isPrefixOf {c : Char} (h : CutsFirst sep (c :: a) b) :
    ¬ sep.isPrefixOf (c :: (a ++ sep ++ b)) = true := fun hbegins =>
  h [] (c :: a) rfl (List.cons_ne_nil c a) (List.isPrefixOf_iff_prefix.1 hbegins)

theorem not_isPrefixOf_of_not_isInfix {c : Char} (h : ¬ sep <:+: c :: cs) : ¬ sep.isPrefixOf (c :: cs) = true :=
  fun hbegins => h (List.isPrefixOf_iff_prefix.1 hbegins).isInfix

theorem not_isInfix_tail {c : Char} (h : ¬ sep <:+: c :: cs) : ¬ sep <:+: cs :=
  fun hcs => h (hcs.trans (List.suffix_cons c cs).isInfix)

/-! ## At the first occurrence -/

theorem splitFirst?_eq_none (h : ¬ sep <:+: cs) : splitFirst? sep cs = none := by
  induction cs with
  | nil =>
    rw [splitFirst?, if_neg]
    rintro rfl
    exact h List.nil_infix
  | cons c rest ih =>
    rw [splitFirst?, if_neg (not_isPrefixOf_of_not_isInfix h), ih (not_isInfix_tail h)]
    rfl

/-- There is a first occurrence where there is one at all. -/
theorem isSome_splitFirst?_iff : (splitFirst? sep cs).isSome = true ↔ sep <:+: cs := by
  constructor
  · intro h
    obtain ⟨⟨before, after⟩, hfound⟩ := Option.isSome_iff_exists.1 h
    rw [splitFirst?_eq_some hfound]
    exact ⟨before, after, rfl⟩
  · intro h
    induction cs with
    | nil => simp [splitFirst?, List.infix_nil.1 h]
    | cons c rest ih =>
      by_cases hbegins : sep.isPrefixOf (c :: rest) = true
      · simp [splitFirst?, hbegins]
      · rcases List.infix_cons_iff.1 h with hstart | hlater
        · exact absurd (List.isPrefixOf_iff_prefix.2 hstart) hbegins
        · simp [splitFirst?, hbegins, ih hlater]

theorem splitFirst?_append (h : CutsFirst sep a b) : splitFirst? sep (a ++ sep ++ b) = some (a, b) := by
  induction a with
  | nil =>
    cases sep with
    | nil => cases b <;> simp [splitFirst?]
    | cons s sep => simp [splitFirst?]
  | cons c a ih =>
    rw [List.cons_append, List.cons_append, splitFirst?, if_neg h.not_isPrefixOf, ih h.tail]
    rfl

/-! ## Counting -/

/-- How often `sep` stands in a text; occurrences that overlap count each. -/
def occurrences (sep cs : List Char) : Nat := cs.tails.countP (sep.isPrefixOf ·)

theorem occurrences_cons (sep : List Char) (c : Char) (cs : List Char) :
    occurrences sep (c :: cs) = occurrences sep cs + if sep.isPrefixOf (c :: cs) then 1 else 0 := by
  rw [occurrences, List.tails, List.countP_cons]
  rfl

theorem occurrences_eq_zero_iff : occurrences sep cs = 0 ↔ ¬ sep <:+: cs := by
  simp only [occurrences, List.countP_eq_zero, List.mem_tails, List.isPrefixOf_iff_prefix]
  constructor
  · intro h hoccurs
    obtain ⟨rest, hbegins, hends⟩ := List.infix_iff_prefix_suffix.1 hoccurs
    exact h rest hends hbegins
  · intro h rest hends hbegins
    exact h (hbegins.isInfix.trans hends.isInfix)

theorem occurrences_le_append (sep a b : List Char) : occurrences sep b ≤ occurrences sep (a ++ b) := by
  induction a with
  | nil => exact le_refl _
  | cons c a ih =>
    rw [List.cons_append, occurrences_cons]
    omega

/-- A separator that occurs once occurs first where it occurs. -/
theorem CutsFirst.of_occurrences (h : occurrences sep (a ++ sep ++ b) ≤ 1) : CutsFirst sep a b := by
  rintro before after rfl hne hbegins
  obtain ⟨c, after, rfl⟩ := List.exists_cons_of_ne_nil hne
  have hlater : 0 < occurrences sep (after ++ sep ++ b) :=
    Nat.pos_of_ne_zero fun hzero => occurrences_eq_zero_iff.1 hzero ⟨after, b, rfl⟩
  rw [List.cons_append, List.cons_append] at hbegins
  have htwo : occurrences sep (c :: (after ++ sep ++ b)) = occurrences sep (after ++ sep ++ b) + 1 := by
    rw [occurrences_cons, if_pos (List.isPrefixOf_iff_prefix.2 hbegins)]
  have hle := occurrences_le_append sep before (c :: (after ++ sep ++ b))
  simp only [List.append_assoc, List.cons_append] at h hle htwo hlater
  omega

/-! ## Everywhere -/

theorem splitAt_ne_nil (sep cs : List Char) : splitAt sep cs ≠ [] := splitFrom_ne_nil _ _ _

theorem splitAt_of_not_isInfix (h : ¬ sep <:+: cs) : splitAt sep cs = [cs] := by
  unfold splitAt
  induction cs with
  | nil => rfl
  | cons c rest ih => rw [splitFrom, if_neg (not_isPrefixOf_of_not_isInfix h), ih (not_isInfix_tail h)]

theorem splitFrom_append_of_length (xs b : List Char) :
    splitFrom sep xs.length (xs ++ b) = splitFrom sep 0 b := by
  induction xs with
  | nil => rfl
  | cons x xs ih => exact ih

/-- A separator at the start begins a part. -/
theorem splitAt_separator (hsep : sep ≠ []) (b : List Char) : splitAt sep (sep ++ b) = [] :: splitAt sep b := by
  obtain ⟨s, tail, rfl⟩ := List.exists_cons_of_ne_nil hsep
  have hbegins : (s :: tail).isPrefixOf (s :: (tail ++ b)) = true := by simp
  rw [List.cons_append, splitAt, splitFrom, if_pos hbegins]
  exact congrArg ([] :: ·) (splitFrom_append_of_length tail b)

/-! ## Two texts, one after the other -/

/-- An occurrence of the separator that begins inside `a` does not reach into `b`, which follows. -/
def NoneAcross (sep a b : List Char) : Prop :=
  ∀ before after, a = before ++ after → after ≠ [] → sep <+: after ++ b → sep <+: after

theorem NoneAcross.tail {c : Char} (h : NoneAcross sep (c :: a) b) : NoneAcross sep a b :=
  fun before after ha => h (c :: before) after (congrArg (c :: ·) ha)

/-- A separator of one character lies across nothing. -/
theorem noneAcross_singleton (s : Char) (a b : List Char) : NoneAcross [s] a b := by
  rintro before after rfl hne hbegins
  obtain ⟨c, after, rfl⟩ := List.exists_cons_of_ne_nil hne
  obtain ⟨rest, hrest⟩ := hbegins
  cases hrest
  exact List.prefix_append [s] after

theorem NoneAcross.isPrefixOf_eq {c : Char} (h : NoneAcross sep (c :: a) b) :
    sep.isPrefixOf (c :: (a ++ b)) = sep.isPrefixOf (c :: a) := by
  rw [Bool.eq_iff_iff, List.isPrefixOf_iff_prefix, List.isPrefixOf_iff_prefix]
  exact ⟨h [] (c :: a) rfl (List.cons_ne_nil c a), fun hbegins => hbegins.trans (List.prefix_append (c :: a) b)⟩

theorem NoneAcross.not_isInfix (h : NoneAcross sep a b) (ha : ¬ sep <:+: a) (hb : ¬ sep <:+: b) :
    ¬ sep <:+: a ++ b := by
  induction a with
  | nil => exact hb
  | cons c a ih =>
    intro hoccurs
    rcases List.infix_cons_iff.1 hoccurs with hstart | hlater
    · exact ha (h [] (c :: a) rfl (List.cons_ne_nil c a) hstart).isInfix
    · exact ih h.tail (not_isInfix_tail ha) hlater

/-- Two lists of parts put together: the first part of the second goes on where the last of the first ends. -/
def weld : List (List Char) → List (List Char) → List (List Char)
  | [], qs => qs
  | [p], [] => [p]
  | [p], q :: qs => (p ++ q) :: qs
  | p :: p' :: ps, qs => p :: weld (p' :: ps) qs

theorem weld_cons {ps : List (List Char)} (h : ps ≠ []) (p : List Char) (qs : List (List Char)) :
    weld (p :: ps) qs = p :: weld ps qs := by
  cases ps with
  | nil => contradiction
  | cons p' ps => rfl

theorem weld_nil_left {qs : List (List Char)} (h : qs ≠ []) : weld [[]] qs = qs := by
  cases qs with
  | nil => contradiction
  | cons q qs => rfl

theorem weld_nil_right {ps : List (List Char)} (h : ps ≠ []) (qs : List (List Char)) :
    weld ps ([] :: qs) = ps ++ qs := by
  induction ps with
  | nil => contradiction
  | cons p ps ih =>
    cases ps with
    | nil => simp [weld]
    | cons p' ps => rw [weld, ih (List.cons_ne_nil p' ps), List.cons_append, List.cons_append, List.cons_append]

/-- What is put in front of the first part stays in front. -/
theorem weld_cons_cons (c : Char) (p : List Char) (ps : List (List Char)) {qs : List (List Char)} (h : qs ≠ []) :
    ∃ r rs, weld (p :: ps) qs = r :: rs ∧ weld ((c :: p) :: ps) qs = (c :: r) :: rs := by
  cases ps with
  | cons p' ps => exact ⟨p, _, rfl, rfl⟩
  | nil =>
    cases qs with
    | nil => contradiction
    | cons q qs => exact ⟨p ++ q, qs, rfl, rfl⟩

theorem splitFrom_append (skip : Nat) (h : NoneAcross sep a b) (hskip : skip ≤ a.length) :
    splitFrom sep skip (a ++ b) = weld (splitFrom sep skip a) (splitAt sep b) := by
  fun_induction splitFrom sep skip a with
  | case1 skip =>
    obtain rfl : skip = 0 := Nat.le_zero.1 hskip
    exact (weld_nil_left (splitAt_ne_nil sep b)).symm
  | case2 skip c rest ih => exact ih h.tail (Nat.le_of_succ_le_succ hskip)
  | case3 c rest hbegins ih =>
    have hlength : sep.length - 1 ≤ rest.length := by
      have := (List.isPrefixOf_iff_prefix.1 hbegins).length_le
      rw [List.length_cons] at this
      omega
    rw [List.cons_append, splitFrom, if_pos (h.isPrefixOf_eq.trans hbegins), ih h.tail hlength,
      weld_cons (splitFrom_ne_nil _ _ _)]
  | case4 c rest hbegins part parts hparts ih =>
    obtain ⟨r, rs, hweld, hcons⟩ := weld_cons_cons c part parts (splitAt_ne_nil sep b)
    rw [List.cons_append, splitFrom, if_neg (by rwa [h.isPrefixOf_eq]), ih h.tail (Nat.zero_le _), hparts,
      hweld, hcons]
  | case5 c rest _ hparts => exact absurd hparts (splitFrom_ne_nil _ _ _)

/-- **Where no separator lies across the border, two texts are cut each for itself.** -/
theorem splitAt_weld (h : NoneAcross sep a b) : splitAt sep (a ++ b) = weld (splitAt sep a) (splitAt sep b) :=
  splitFrom_append 0 h (Nat.zero_le _)

theorem splitAt_append_separator (hsep : sep ≠ []) (h : NoneAcross sep a (sep ++ b)) :
    splitAt sep (a ++ sep ++ b) = splitAt sep a ++ splitAt sep b := by
  rw [List.append_assoc, splitAt_weld h, splitAt_separator hsep, weld_nil_right (splitAt_ne_nil sep a)]

theorem CutsFirst.noneAcross (h : CutsFirst sep a b) : NoneAcross sep a (sep ++ b) := by
  intro before after ha hne hbegins
  rw [← List.append_assoc] at hbegins
  exact absurd hbegins (h before after ha hne)

theorem CutsFirst.not_isInfix (hsep : sep ≠ []) (h : CutsFirst sep a b) : ¬ sep <:+: a := by
  rintro ⟨before, after, rfl⟩
  refine h before (sep ++ after) (List.append_assoc ..) (by simp [hsep]) ?_
  rw [List.append_assoc, List.append_assoc]
  exact List.prefix_append sep _

theorem CutsFirst.of_noneAcross (hfree : ¬ sep <:+: a) (h : NoneAcross sep a (sep ++ b)) : CutsFirst sep a b := by
  intro before after ha hne hbegins
  rw [List.append_assoc] at hbegins
  exact hfree ((h before after ha hne hbegins).isInfix.trans (ha ▸ (List.suffix_append before after).isInfix))

theorem splitAt_append (hsep : sep ≠ []) (h : CutsFirst sep a b) :
    splitAt sep (a ++ sep ++ b) = a :: splitAt sep b := by
  rw [splitAt_append_separator hsep h.noneAcross, splitAt_of_not_isInfix (h.not_isInfix hsep)]
  rfl

/-! ## Put together again -/

theorem joinWith_cons {ps : List (List Char)} (h : ps ≠ []) (p : List Char) :
    joinWith sep (p :: ps) = p ++ sep ++ joinWith sep ps := by
  cases ps with
  | nil => contradiction
  | cons p' ps => rfl

theorem joinWith_splitFrom (hsep : sep ≠ []) (skip : Nat) (cs : List Char) :
    joinWith sep (splitFrom sep skip cs) = cs.drop skip := by
  fun_induction splitFrom sep skip cs with
  | case1 skip => rw [joinWith, List.drop_nil]
  | case2 skip c rest ih => exact ih
  | case3 c rest hbegins ih =>
    obtain ⟨s, tail, rfl⟩ := List.exists_cons_of_ne_nil hsep
    obtain ⟨after, hafter⟩ := List.isPrefixOf_iff_prefix.1 hbegins
    cases hafter
    rw [joinWith_cons (splitFrom_ne_nil _ _ _), ih]
    simp
  | case4 c rest hbegins part parts hparts ih =>
    have hfront : joinWith sep ((c :: part) :: parts) = c :: joinWith sep (part :: parts) := by
      cases parts <;> rfl
    rw [hfront, ← hparts, ih]
    rfl
  | case5 c rest _ hparts => exact absurd hparts (splitFrom_ne_nil _ _ _)

/-- Cutting loses nothing but the separators. -/
theorem joinWith_splitAt (hsep : sep ≠ []) (cs : List Char) : joinWith sep (splitAt sep cs) = cs :=
  joinWith_splitFrom hsep 0 cs

/-- Put together from several parts, a text begins with the first, ends with the last and has a separator after
the one and before the other. -/
theorem exists_joinWith_cons {ps : List (List Char)} (h : ps ≠ []) (p : List Char) :
    ∃ m, joinWith sep (p :: ps) = p ++ m ++ ps.getLast h ∧ sep <+: m ∧ sep <:+ m := by
  induction ps generalizing p with
  | nil => contradiction
  | cons q ps ih =>
    cases ps with
    | nil => exact ⟨sep, rfl, List.prefix_rfl, List.suffix_rfl⟩
    | cons q' ps =>
      obtain ⟨m, hm, -, hends⟩ := ih (List.cons_ne_nil q' ps) q
      refine ⟨sep ++ q ++ m, ?_, List.append_assoc sep q m ▸ List.prefix_append sep _,
        hends.trans (List.suffix_append _ m)⟩
      rw [joinWith_cons h, hm, List.getLast_cons (List.cons_ne_nil q' ps)]
      simp only [List.append_assoc]

/-- Parts are found again where no separator stands in one, nor across the end of one that is followed by
another. -/
theorem splitAt_joinWith (hsep : sep ≠ []) {parts : List (List Char)} (hne : parts ≠ [])
    (hfree : ∀ p ∈ parts, ¬ sep <:+: p) (hends : ∀ p ∈ parts.dropLast, ∀ b, NoneAcross sep p (sep ++ b)) :
    splitAt sep (joinWith sep parts) = parts := by
  induction parts with
  | nil => contradiction
  | cons p parts ih =>
    obtain ⟨hp, hparts⟩ := List.forall_mem_cons.1 hfree
    cases parts with
    | nil => exact splitAt_of_not_isInfix hp
    | cons q parts =>
      rw [List.dropLast_cons_cons] at hends
      obtain ⟨hpend, hpartsend⟩ := List.forall_mem_cons.1 hends
      rw [joinWith_cons (List.cons_ne_nil q parts), splitAt_append hsep (.of_noneAcross hp (hpend _)),
        ih (List.cons_ne_nil q parts) hparts hpartsend]

/-- The parts of a split hold no separator. -/
theorem not_isInfix_of_mem_splitAt (hsep : sep ≠ []) (h : p ∈ splitAt sep cs) : ¬ sep <:+: p := by
  unfold splitAt at h
  obtain ⟨first, tail, rfl⟩ := List.exists_cons_of_ne_nil hsep
  have hnil : ¬ first :: tail <:+: [] := fun hoccurs => hsep (List.infix_nil.1 hoccurs)
  generalize 0 = skip at h
  fun_induction splitFrom (first :: tail) skip cs generalizing p with
  | case1 skip =>
    rw [List.mem_singleton.1 h]
    exact hnil
  | case2 skip c rest ih => exact ih h
  | case3 c rest hbegins ih =>
    rcases List.mem_cons.1 h with rfl | h
    · exact hnil
    · exact ih h
  | case4 c rest hbegins part parts hparts ih =>
    rw [hparts] at ih
    rcases List.mem_cons.1 h with rfl | h
    · -- An occurrence at the start of the part would be one at the start of the text.
      obtain ⟨after, rfl, -⟩ :=
        (@isPiece_of_mem_splitFrom (fun _ => True) first tail trivial 0 rest).2 rfl part (by rw [hparts]; rfl)
      intro hoccurs
      rcases List.infix_cons_iff.1 hoccurs with hstart | hlater
      · exact hbegins (List.isPrefixOf_iff_prefix.2 (hstart.trans (List.prefix_append (c :: part) after)))
      · exact ih List.mem_cons_self hlater
    · exact ih (List.mem_cons_of_mem _ h)
  | case5 c rest _ hparts => exact absurd hparts (splitFrom_ne_nil _ _ _)

end ViewEngine
