import ViewEngine.Calendar.Pattern

/-!
# Patterns, one after the other

All that the scan of a pattern leaves to what follows is whether a quote is open (`isOpenAfter`). What follows
is read as if it stood alone, unless the border cuts something in two: two quotes that stand for one, or a run
of one letter (`itemsFrom_append`). So a pattern can be put together from parts, and quoting makes any text a
part that stands for itself (`format_parts`).
-/

namespace ViewEngine.Calendar

namespace Pattern

variable {isOpen : Bool} {p q rest : List Char} {c : Char}

/-! ## The scan -/

theorem head?_ne_some_iff : rest.head? ≠ some c ↔ ∀ tail, rest = c :: tail → False := by
  rw [Ne, List.head?_eq_some_iff, not_exists]

/-- Whether a quote is open after a pattern that is read with a quote open or not. -/
def isOpenAfter : (isOpen : Bool) → List Char → Bool
  | isOpen, [] => isOpen
  | isOpen, '\'' :: '\'' :: rest => isOpenAfter isOpen rest
  | isOpen, '\'' :: rest => isOpenAfter (!isOpen) rest
  | isOpen, _ :: rest => isOpenAfter isOpen rest

theorem isOpenAfter_char (isOpen : Bool) (h : c ≠ '\'') (rest : List Char) :
    isOpenAfter isOpen (c :: rest) = isOpenAfter isOpen rest :=
  isOpenAfter.eq_4 isOpen c rest (fun _ hc => absurd hc h) h

/-- The items of a pattern that is read with a quote open or not. -/
def itemsFrom (isOpen : Bool) : List Char → List Item := if isOpen then quotedItems else items

@[simp] theorem itemsFrom_nil (isOpen : Bool) : itemsFrom isOpen [] = [] := by
  cases isOpen <;> simp [itemsFrom, items, quotedItems]

@[simp] theorem itemsFrom_doubled (isOpen : Bool) (rest : List Char) :
    itemsFrom isOpen ('\'' :: '\'' :: rest) = .literal '\'' :: itemsFrom isOpen rest := by
  cases isOpen <;> simp [itemsFrom, items, quotedItems]

theorem itemsFrom_quote (isOpen : Bool) (h : rest.head? ≠ some '\'') :
    itemsFrom isOpen ('\'' :: rest) = itemsFrom (!isOpen) rest := by
  have hsingle := head?_ne_some_iff.1 h
  cases isOpen
  · exact items.eq_3 rest hsingle
  · exact quotedItems.eq_3 rest hsingle

theorem itemsFrom_char (isOpen : Bool) (h : c ≠ '\'') (rest : List Char) :
    itemsFrom isOpen (c :: rest) =
      if isOpen = false ∧ c.isAlpha then consLetter c (itemsFrom isOpen rest)
      else .literal c :: itemsFrom isOpen rest := by
  cases isOpen
  · simp [itemsFrom, items.eq_4 c rest (fun _ hc => absurd hc h) h]
  · simp [itemsFrom, quotedItems.eq_4 c rest (fun _ hc => absurd hc h) h]

/-! ## Runs of letters -/

theorem head?_consLetter (c : Char) (is : List Item) : ∃ run, (consLetter c is).head? = some (.field c run) := by
  unfold consLetter
  split
  · split
    · exact ⟨_, rfl⟩
    · exact ⟨1, rfl⟩
  · exact ⟨1, rfl⟩

/-- A letter goes on with the run at the front, whatever follows that. -/
theorem consLetter_append {is : List Item} (h : is ≠ []) (c : Char) (js : List Item) :
    consLetter c (is ++ js) = consLetter c is ++ js := by
  cases is with
  | nil => contradiction
  | cons i is =>
    cases i with
    | literal d => rfl
    | field d run =>
      simp only [List.cons_append, consLetter]
      split <;> rfl

theorem consLetter_ne_nil (c : Char) (is : List Item) : consLetter c is ≠ [] := by
  obtain ⟨run, hhead⟩ := head?_consLetter c is
  exact List.ne_nil_of_mem (List.mem_of_mem_head? hhead)

theorem consLetter_of_head?_ne {is : List Item} (h : ∀ run, is.head? ≠ some (.field c run)) :
    consLetter c is = .field c 1 :: is := by
  unfold consLetter
  split
  · rename_i d run is
    by_cases hd : d = c
    · subst hd
      exact absurd rfl (h run)
    · rw [if_neg hd]
  · rfl

/-- Without items there is no pattern, or nothing but a quote that opens. -/
theorem eq_of_itemsFrom_eq_nil (h : itemsFrom false p = []) : p = [] ∨ p = ['\''] := by
  rcases p with _ | ⟨c, rest⟩
  · exact .inl rfl
  · by_cases hc : c = '\''
    · subst hc
      rcases rest with _ | ⟨d, rest⟩
      · exact .inr rfl
      · by_cases hd : d = '\''
        · simp [hd] at h
        · rw [itemsFrom_quote false (by simpa using hd), itemsFrom_char _ hd] at h
          simp at h
    · rw [itemsFrom_char false hc] at h
      split at h
      · exact absurd h (consLetter_ne_nil _ _)
      · cases h

/-- A field that is read first begins at once, or right after the quote that closes. -/
theorem head?_of_field {run : Nat} (h : (itemsFrom isOpen q).head? = some (.field c run)) :
    q.head? = some (if isOpen then '\'' else c) := by
  fun_induction isOpenAfter isOpen q with
  | case1 isOpen => simp at h
  | case2 isOpen rest _ => simp at h
  | case3 isOpen rest hsingle ih =>
    have hrest := head?_ne_some_iff.2 hsingle
    rw [itemsFrom_quote isOpen hrest] at h
    cases isOpen
    · -- The quote that opens is not the one that closes.
      exact absurd (ih h) hrest
    · rfl
  | case4 isOpen d rest _ hd _ =>
    rw [itemsFrom_char isOpen hd] at h
    split at h
    · rename_i hletter
      obtain ⟨run', hhead⟩ := head?_consLetter d (itemsFrom isOpen rest)
      rw [hhead] at h
      simp [hletter.1, (Item.field.inj (Option.some.inj h)).1]
    · simp at h

/-! ## Putting patterns together -/

/-- Nothing lies across the border between `p`, which is read with a quote open or not, and `q`: neither two
quotes that stand for one, nor a run of one letter out of quotes. -/
structure IsBorder (isOpen : Bool) (p q : List Char) : Prop where
  quote : p.getLast? = some '\'' → q.head? ≠ some '\''
  letter : isOpenAfter isOpen p = false → ∀ c, c.isAlpha = true → p.getLast? = some c → q.head? ≠ some c

/-- A border is one of every part of `p` at its end. -/
theorem IsBorder.of_append {isOpen' : Bool} (front : List Char) (h : IsBorder isOpen (front ++ p) q)
    (hopen : isOpenAfter isOpen' p = isOpenAfter isOpen (front ++ p)) : IsBorder isOpen' p q := by
  have hlast : ∀ d, p.getLast? = some d → (front ++ p).getLast? = some d := by
    intro d hd
    simp [List.getLast?_append, hd]
  constructor
  · intro hp
    exact h.quote (hlast _ hp)
  · intro hout d hd hp
    exact h.letter (hopen ▸ hout) d hd (hlast d hp)

/-- A letter at the end of `p`, out of quotes, begins no run that goes on in `q`. -/
theorem IsBorder.consLetter_eq (h : IsBorder false (c :: p) q) (hc : c.isAlpha = true)
    (hp : itemsFrom false p = []) : consLetter c (itemsFrom (isOpenAfter false p) q) =
      .field c 1 :: itemsFrom (isOpenAfter false p) q := by
  refine consLetter_of_head?_ne fun run hrun => ?_
  have hhead := head?_of_field hrun
  have hquote : c ≠ '\'' := by
    rintro rfl
    cases hc
  rcases eq_of_itemsFrom_eq_nil hp with rfl | rfl
  · exact h.letter (isOpenAfter_char false hquote []) c hc rfl hhead
  · -- The quote at the end is open, so what follows would have to close it at once.
    exact h.quote rfl hhead

/-- **Two patterns are read each for itself, from where the first leaves off**, if nothing lies across the
border. -/
theorem itemsFrom_append (h : IsBorder isOpen p q) :
    itemsFrom isOpen (p ++ q) = itemsFrom isOpen p ++ itemsFrom (isOpenAfter isOpen p) q := by
  fun_induction isOpenAfter isOpen p with
  | case1 isOpen => simp
  | case2 isOpen rest ih =>
    have hrest : IsBorder isOpen rest q := h.of_append ['\'', '\''] (by simp [isOpenAfter])
    simp [ih hrest]
  | case3 isOpen rest hsingle ih =>
    have hrest : IsBorder (!isOpen) rest q := h.of_append ['\''] (by simp [isOpenAfter.eq_3 _ _ hsingle])
    have hhead := head?_ne_some_iff.2 hsingle
    have hnext : (rest ++ q).head? ≠ some '\'' := by
      cases rest with
      | nil => exact h.quote rfl
      | cons d rest => exact hhead
    rw [List.cons_append, itemsFrom_quote isOpen hnext, itemsFrom_quote isOpen hhead, ih hrest]
  | case4 isOpen c rest _ hc ih =>
    have hrest : IsBorder isOpen rest q := h.of_append [c] (isOpenAfter_char isOpen hc rest).symm
    rw [List.cons_append, itemsFrom_char isOpen hc, itemsFrom_char isOpen hc, ih hrest]
    by_cases hletter : isOpen = false ∧ c.isAlpha = true
    · obtain ⟨rfl, hc⟩ := hletter
      simp only [hc, and_self, if_true]
      by_cases hempty : itemsFrom false rest = []
      · rw [hempty, List.nil_append, h.consLetter_eq hc hempty]
        rfl
      · exact consLetter_append hempty c _
    · simp [hletter]

/-! ## Quoting -/

/-- A text in quotes, its own quotes doubled. -/
def quoted (cs : List Char) : List Char :=
  '\'' :: cs.flatMap (fun c => if c = '\'' then ['\'', '\''] else [c]) ++ ['\'']

theorem itemsFrom_flatMap_double (cs : List Char) :
    itemsFrom true (cs.flatMap (fun c => if c = '\'' then ['\'', '\''] else [c]) ++ ['\'']) =
      cs.map .literal := by
  induction cs with
  | nil => rfl
  | cons c cs ih =>
    by_cases hc : c = '\''
    · simp [hc, ih]
    · simp [hc, itemsFrom_char true hc, ih]

/-- A quoted text stands for itself, unless its quote at the front is doubled outright. -/
theorem items_quoted {cs : List Char} (hne : cs ≠ []) (hhead : cs.head? ≠ some '\'') :
    items (quoted cs) = cs.map .literal := by
  obtain ⟨c, cs, rfl⟩ := List.exists_cons_of_ne_nil hne
  have hc : c ≠ '\'' := by simpa using hhead
  rw [← itemsFrom_flatMap_double]
  refine itemsFrom_quote false ?_
  simp [hc]

end Pattern

open Pattern

/-- **Patterns can be put together from parts.** A date by two patterns in a row is the date by the first and
then by the second, unless a quote is left open between them, or two quotes or a run of one letter meet there.
And a text in quotes is a part that stands for itself. -/
theorem format_parts (t : ClockTime) :
    (∀ p q : List Char, isOpenAfter false p = false →
      (p.getLast? = some '\'' → q.head? ≠ some '\'') →
      (∀ c, p.getLast? = some c → c.isAlpha = true → q.head? ≠ some c) →
      format t (p ++ q) = format t p ++ format t q) ∧
    (∀ cs : List Char, cs ≠ [] → cs.head? ≠ some '\'' → format t (quoted cs) = cs) := by
  refine ⟨fun p q hopen hquote hletter => ?_, fun cs hne hhead => ?_⟩
  · have hborder : IsBorder false p q := ⟨hquote, fun _ c hc hp => hletter c hp hc⟩
    have hitems : items (p ++ q) = items p ++ items q := by
      have happend := itemsFrom_append hborder
      rwa [hopen] at happend
    simp [format, hitems]
  · simp [format, items_quoted hne hhead, Item.text, List.flatMap_map]

/-- Words and fields, and a text with a quote in it. -/
theorem format_parts_shown :
    let t := Instant.clockTime ⟨1720105500, 0⟩ 0
    format t ("'Day' D".toList ++ " 'of' yy".toList) = "Day 186 of 24".toList ∧
    format t (quoted "o'clock".toList) = "o'clock".toList := by
  intro t
  obtain ⟨happend, hquoted⟩ := format_parts t
  refine ⟨?_, hquoted _ (by decide) (by decide)⟩
  rw [happend "'Day' D".toList " 'of' yy".toList (by decide) (by decide)]
  · decide
  · rintro c ⟨⟩ _
    decide

end ViewEngine.Calendar
