import ViewEngine.Json.Reader
import ViewEngine.Proofs.Json.Numbers

/-!
# Printed data read back

The compact text of a datum spells the tokens it was made of, and the tokens are put together to the
datum again. Both follow the printer: one case for a datum, one for the items of an array after the
first, one for the members of an object after the first.
-/

namespace ViewEngine.Json

/-! ## Tokens -/

mutual

/-- The tokens of a datum. -/
def tokens : Json → List Token
  | array [] => [.openArray, .closeArray]
  | array (item :: items) => .openArray :: (tokens item ++ itemTokens items)
  | object [] => [.openObject, .closeObject]
  | object ((key, item) :: members) =>
    .openObject :: .string (some key) :: .colon :: (tokens item ++ memberTokens members)
  | string s => [.string (some s)]
  | j => [.scalar j]

/-- The tokens of the items of an array after the first, and its end. -/
def itemTokens : List Json → List Token
  | [] => [.closeArray]
  | item :: items => .comma :: (tokens item ++ itemTokens items)

/-- The tokens of the members of an object after the first, and its end. -/
def memberTokens : List (String × Json) → List Token
  | [] => [.closeObject]
  | (key, item) :: members =>
    .comma :: .string (some key) :: .colon :: (tokens item ++ memberTokens members)

end

section
variable [NumberReader]

theorem tokens_ofDecimal (numeral : List Char) : (ofDecimal numeral).tokens = [.scalar (ofDecimal numeral)] := by
  obtain ⟨d, -, h⟩ | h := ofDecimal_cases numeral <;> rw [h] <;> rfl

/-! ## What the reader changes -/

mutual

/-- What a datum becomes on its way through text: each double is what the reader makes of its text. -/
def reread : Json → Json
  | double d => ofDecimal (doubleText d)
  | array items => array (rereadItems items)
  | object members => object (rereadMembers members)
  | null => null
  | bool b => bool b
  | int i => int i
  | string s => string s
  | unreadable => unreadable

def rereadItems : List Json → List Json
  | [] => []
  | j :: rest => reread j :: rereadItems rest

def rereadMembers : List (String × Json) → List (String × Json)
  | [] => []
  | (key, j) :: rest => (key, reread j) :: rereadMembers rest

end

theorem depth_ofDecimal (numeral : List Char) : (ofDecimal numeral).depth = 0 := by
  obtain ⟨d, -, h⟩ | h := ofDecimal_cases numeral <;> rw [h] <;> rfl

mutual

theorem depth_reread : ∀ j : Json, j.reread.depth = j.depth
  | null | bool _ | int _ | string _ | unreadable => rfl
  | double _ => depth_ofDecimal _
  | array items => by rw [reread, depth, depth, itemsDepth_reread items]
  | object members => by rw [reread, depth, depth, membersDepth_reread members]

theorem itemsDepth_reread : ∀ items : List Json, itemsDepth (rereadItems items) = itemsDepth items
  | [] => rfl
  | j :: rest => by rw [rereadItems, itemsDepth, itemsDepth, depth_reread j, itemsDepth_reread rest]

theorem membersDepth_reread : ∀ members : List (String × Json),
    membersDepth (rereadMembers members) = membersDepth members
  | [] => rfl
  | (_, j) :: rest => by rw [rereadMembers, membersDepth, membersDepth, depth_reread j, membersDepth_reread rest]

end

/-- The reader gives back every double in the datum. -/
def ReadsBack (j : Json) : Prop := ∀ d, double d ∈ j.parts → NumberReader.ReadsBack d

mutual

/-- **Only doubles change on the way through text**, and no double that the reader gives back. -/
theorem reread_of_readsBack : ∀ j : Json, j.IsPrintable → j.ReadsBack → j.reread = j
  | null, _, _ | bool _, _, _ | int _, _, _ | string _, _, _ | unreadable, _, _ => rfl
  | double d, hprint, hback =>
    (hback d (self_mem_parts _)).ofDecimal (hprint (double d) (self_mem_parts _)).1
  | array items, hprint, hback => by
    rw [reread, rereadItems_of_readsBack items (isPrintable_array.1 hprint) fun j hj d hd =>
      hback d (List.mem_cons_of_mem _ (mem_itemParts.2 ⟨j, hj, hd⟩))]
  | object members, hprint, hback => by
    rw [reread, rereadMembers_of_readsBack members (isPrintable_object.1 hprint) fun m hm d hd =>
      hback d (List.mem_cons_of_mem _ (mem_memberParts.2 ⟨m, hm, hd⟩))]

theorem rereadItems_of_readsBack : ∀ items : List Json, (∀ j ∈ items, j.IsPrintable) →
    (∀ j ∈ items, j.ReadsBack) → rereadItems items = items
  | [], _, _ => rfl
  | j :: rest, hprint, hback => by
    obtain ⟨hj, hrest⟩ := List.forall_mem_cons.1 hprint
    obtain ⟨hbackj, hbackrest⟩ := List.forall_mem_cons.1 hback
    rw [rereadItems, reread_of_readsBack j hj hbackj, rereadItems_of_readsBack rest hrest hbackrest]

theorem rereadMembers_of_readsBack : ∀ members : List (String × Json), (∀ m ∈ members, m.2.IsPrintable) →
    (∀ m ∈ members, m.2.ReadsBack) → rereadMembers members = members
  | [], _, _ => rfl
  | (key, j) :: rest, hprint, hback => by
    obtain ⟨hj, hrest⟩ := List.forall_mem_cons.1 hprint
    obtain ⟨hbackj, hbackrest⟩ := List.forall_mem_cons.1 hback
    rw [rereadMembers, reread_of_readsBack j hj hbackj, rereadMembers_of_readsBack rest hrest hbackrest]

end

/-! ## From text to tokens -/

open Lexer

theorem reads_key (key : String) {cs : List Char} {ts : List Token} (h : Reads idle cs ts idle) :
    Reads idle (quoted key ++ ':' :: cs) (.string (some key) :: .colon :: ts) idle :=
  (reads_quoted key).append (Reads.token rfl h)

mutual

/-- The text of a datum spells the tokens of what it becomes. -/
theorem spells_compact : ∀ j : Json, j.IsPrintable → Spells j.compact j.reread.tokens
  | null, _ => spells_null
  | bool b, _ => spells_bool b
  | int i, h => spells_int (h (int i) (self_mem_parts _)).1
  | double d, h => by
    rw [reread, tokens_ofDecimal]
    exact spells_double (h (double d) (self_mem_parts _)).1
  | string s, _ => (reads_quoted s).spells
  | unreadable, h => absurd rfl (h unreadable (self_mem_parts _)).2
  | array [], _ => (Reads.token rfl (Reads.single rfl)).spells
  | array (item :: items), h => by
    have hall := isPrintable_array.1 h
    have hitem := spells_compact item (hall item List.mem_cons_self)
    have hitems := reads_items items (fun j hj => hall j (List.mem_cons_of_mem item hj)) hitem
    exact (Reads.token rfl hitems).spells
  | object [], _ => (Reads.token rfl (Reads.single rfl)).spells
  | object ((key, item) :: members), h => by
    have hall := isPrintable_object.1 h
    have hitem := spells_compact item (hall (key, item) List.mem_cons_self)
    have hmembers := reads_members members (fun m hm => hall m (List.mem_cons_of_mem _ hm)) hitem
    have := (Reads.token (c := '{') (t := .openObject) rfl (reads_key key hmembers)).spells
    rw [compact, reread, rereadMembers, tokens]
    simpa using this

/-- A datum and the items after it, up to the end of the array. -/
theorem reads_items : ∀ items : List Json, (∀ j ∈ items, j.IsPrintable) → ∀ {cs : List Char}
    {ts : List Token}, Spells cs ts →
      Reads idle (cs ++ compactItems items) (ts ++ itemTokens (rereadItems items)) idle
  | [], _, _, _, hfirst => hfirst.mark (by simp [IsMark]) rfl
  | item :: items, h, cs, ts, hfirst => by
    have hcomma := hfirst.mark (c := ',') (by simp [IsMark]) rfl
    have hitem := spells_compact item (h item List.mem_cons_self)
    have hitems := reads_items items (fun j hj => h j (List.mem_cons_of_mem item hj)) hitem
    have := hcomma.append hitems
    rw [compactItems, rereadItems, itemTokens]
    simpa using this

/-- A datum and the members after it, up to the end of the object. -/
theorem reads_members : ∀ members : List (String × Json), (∀ m ∈ members, m.2.IsPrintable) →
    ∀ {cs : List Char} {ts : List Token}, Spells cs ts →
      Reads idle (cs ++ compactMembers members) (ts ++ memberTokens (rereadMembers members)) idle
  | [], _, _, _, hfirst => hfirst.mark (by simp [IsMark]) rfl
  | (key, item) :: members, h, cs, ts, hfirst => by
    have hcomma := hfirst.mark (c := ',') (by simp [IsMark]) rfl
    have hitem := spells_compact item (h (key, item) List.mem_cons_self)
    have hmembers := reads_members members (fun m hm => h m (List.mem_cons_of_mem _ hm)) hitem
    have := hcomma.append (reads_key key hmembers)
    rw [compactMembers, rereadMembers, memberTokens]
    simpa using this

end

end

/-! ## From tokens to the datum -/

mutual

/-- What is read of a datum that stands inside `level` arrays and objects: what is nested too deep is
unreadable. -/
def cutOff (level : Nat) : Json → Json
  | array items => if level < maxDepth then array (cutOffItems (level + 1) items) else unreadable
  | object members => if level < maxDepth then object (cutOffMembers (level + 1) members) else unreadable
  | j => j

def cutOffItems (level : Nat) : List Json → List Json
  | [] => []
  | j :: rest => cutOff level j :: cutOffItems level rest

def cutOffMembers (level : Nat) : List (String × Json) → List (String × Json)
  | [] => []
  | (key, j) :: rest => (key, cutOff level j) :: cutOffMembers level rest

end

mutual

/-- A datum that is not nested too deep is read whole. -/
theorem cutOff_eq : ∀ (level : Nat) (j : Json), j.depth + level ≤ maxDepth → j.cutOff level = j
  | _, null, _ | _, bool _, _ | _, int _, _ | _, double _, _ | _, string _, _ | _, unreadable, _ => rfl
  | level, array items, h => by
    rw [depth] at h
    rw [cutOff, if_pos (by omega), cutOffItems_eq (level + 1) items fun j hj => ?_]
    have := itemsDepth_le.1 (Nat.le_refl _) j hj
    omega
  | level, object members, h => by
    rw [depth] at h
    rw [cutOff, if_pos (by omega), cutOffMembers_eq (level + 1) members fun m hm => ?_]
    have := membersDepth_le.1 (Nat.le_refl _) m hm
    omega

theorem cutOffItems_eq : ∀ (level : Nat) (items : List Json), (∀ j ∈ items, j.depth + level ≤ maxDepth) →
    cutOffItems level items = items
  | _, [], _ => rfl
  | level, j :: rest, h => by
    obtain ⟨hj, hrest⟩ := List.forall_mem_cons.1 h
    rw [cutOffItems, cutOff_eq level j hj, cutOffItems_eq level rest hrest]

theorem cutOffMembers_eq : ∀ (level : Nat) (members : List (String × Json)),
    (∀ m ∈ members, m.2.depth + level ≤ maxDepth) → cutOffMembers level members = members
  | _, [], _ => rfl
  | level, (key, j) :: rest, h => by
    obtain ⟨hj, hrest⟩ := List.forall_mem_cons.1 h
    rw [cutOffMembers, cutOff_eq level j hj, cutOffMembers_eq level rest hrest]

end

namespace Builder

theorem foldlM_step?_cons (b : Builder) (t : Token) (ts : List Token) :
    (t :: ts).foldlM step? b = (b.step? t).bind fun next => ts.foldlM step? next := rfl

theorem foldlM_step?_append (b : Builder) (ts us : List Token) :
    (ts ++ us).foldlM step? b = (ts.foldlM step? b).bind fun next => us.foldlM step? next :=
  List.foldlM_append

theorem foldlM_step?_singleton (b : Builder) (t : Token) : [t].foldlM step? b = b.step? t :=
  List.foldlM_cons.trans (bind_pure _)

mutual

/-- The tokens of a datum add what is read of it to the innermost open frame. A datum is expected as such
or as the first item of an array; its own items see one more frame. -/
theorem foldlM_tokens : ∀ (j : Json) (e : Expected) (frames : List Frame), (e = .value ∨ e = .itemOrEnd) →
    j.tokens.foldlM step? ⟨e, frames⟩ = place? (j.cutOff frames.length) frames
  | null, _, _, he
  | bool _, _, _, he
  | int _, _, _, he
  | double _, _, _, he
  | string _, _, _, he
  | unreadable, _, _, he => by
    rcases he with rfl | rfl <;> exact foldlM_step?_singleton _ _
  | array items, e, frames, he => by
    have hopen : step? ⟨e, frames⟩ .openArray = some ⟨.itemOrEnd, .array [] :: frames⟩ := by
      rcases he with rfl | rfl <;> rfl
    match items with
    | [] =>
      rw [tokens, foldlM_step?_cons, hopen]
      exact foldlM_step?_singleton _ _
    | item :: items =>
      have hitem := foldlM_tokens item .itemOrEnd (.array [] :: frames) (Or.inr rfl)
      have hitems := foldlM_itemTokens items [item.cutOff (frames.length + 1)] frames
      rw [tokens, foldlM_step?_cons, hopen, Option.bind_some, foldlM_step?_append, hitem]
      exact hitems
  | object members, e, frames, he => by
    have hopen : step? ⟨e, frames⟩ .openObject = some ⟨.keyOrEnd, .object [] true :: frames⟩ := by
      rcases he with rfl | rfl <;> rfl
    match members with
    | [] =>
      rw [tokens, foldlM_step?_cons, hopen]
      exact foldlM_step?_singleton _ _
    | (key, item) :: members =>
      have hitem := foldlM_tokens item .value (.member [] true key :: frames) (Or.inl rfl)
      have hmembers := foldlM_memberTokens members [(key, item.cutOff (frames.length + 1))] frames
      rw [tokens, foldlM_step?_cons, hopen]
      show (tokens item ++ memberTokens members).foldlM step? ⟨.value, .member [] true key :: frames⟩ = _
      rw [foldlM_step?_append, hitem]
      exact hmembers

/-- The tokens of the items after those read so far close the array. -/
theorem foldlM_itemTokens : ∀ (items done : List Json) (frames : List Frame),
    (itemTokens items).foldlM step? ⟨.commaOrEnd, .array done :: frames⟩
      = close? (array (done.reverse ++ cutOffItems (frames.length + 1) items)) frames
  | [], done, frames => by
    rw [cutOffItems, List.append_nil]
    exact foldlM_step?_singleton _ _
  | item :: items, done, frames => by
    have hitem := foldlM_tokens item .value (.array done :: frames) (Or.inl rfl)
    have hitems := foldlM_itemTokens items (item.cutOff (frames.length + 1) :: done) frames
    rw [itemTokens, foldlM_step?_cons]
    show (tokens item ++ itemTokens items).foldlM step? ⟨.value, .array done :: frames⟩ = _
    rw [foldlM_step?_append, hitem]
    rw [List.reverse_cons, List.append_assoc] at hitems
    exact hitems

/-- The tokens of the members after those read so far close the object. -/
theorem foldlM_memberTokens : ∀ (members done : List (String × Json)) (frames : List Frame),
    (memberTokens members).foldlM step? ⟨.commaOrEnd, .object done true :: frames⟩
      = close? (object (done.reverse ++ cutOffMembers (frames.length + 1) members)) frames
  | [], done, frames => by
    rw [cutOffMembers, List.append_nil]
    exact foldlM_step?_singleton _ _
  | (key, item) :: members, done, frames => by
    have hitem := foldlM_tokens item .value (.member done true key :: frames) (Or.inl rfl)
    have hmembers := foldlM_memberTokens members ((key, item.cutOff (frames.length + 1)) :: done) frames
    rw [memberTokens, foldlM_step?_cons]
    show (tokens item ++ memberTokens members).foldlM step? ⟨.value, .member done true key :: frames⟩ = _
    rw [foldlM_step?_append, hitem]
    rw [List.reverse_cons, List.append_assoc] at hmembers
    exact hmembers

end

end Builder

/-! ## Both machines -/

variable [NumberReader]

open Lexer

/-- The builder takes the tokens that the lexer completes. -/
theorem foldlM_scan {l last : Lexer} {cs : List Char} {ts : List Token} (h : Reads l cs ts last)
    (b : Builder) : (cs.map Symbol.char).foldlM Scan.step? ⟨l, b⟩
      = (ts.foldlM Builder.step? b).map fun b => ⟨last, b⟩ := by
  induction h generalizing b with
  | nil => rfl
  | @cons l next last c cs done more hstep _ ih =>
    have hscan : Scan.step? ⟨l, b⟩ (.char c)
        = (done.foldlM Builder.step? b).map fun b => ⟨next, b⟩ := by
      rw [Scan.step?, hstep]
      show (done.foldlM Builder.step? b).bind _ = _
      cases done.foldlM Builder.step? b <;> rfl
    rw [List.map_cons, List.foldlM_cons, hscan, List.foldlM_append]
    cases done.foldlM Builder.step? b with
    | none => rfl
    | some b => exact ih b

theorem readSymbols?_of_spells {cs : List Char} {ts : List Token} (h : Spells cs ts) :
    readSymbols? (cs.map .char) = (ts.foldlM Builder.step? {}).bind Builder.result? := by
  obtain ⟨l, done, held, hreads, ⟨hfinish, -⟩, rfl⟩ := h
  rw [readSymbols?, foldlM_scan hreads, List.foldlM_append]
  cases done.foldlM Builder.step? {} with
  | none => rfl
  | some b =>
    show Scan.finish? ⟨l, b⟩ = _
    rw [Scan.finish?, hfinish]
    rfl

/-- Text that spells the tokens of a datum is read as that datum, as far as it is not nested too deep. -/
theorem readSymbols?_of_spells_tokens {cs : List Char} {j : Json} (h : Spells cs j.tokens) :
    readSymbols? (cs.map .char) = some (j.cutOff 0) := by
  rw [readSymbols?_of_spells h, Builder.foldlM_tokens j .value [] (Or.inl rfl)]
  rfl

/-- **A printed datum reads back**, but for what the reader makes of its doubles: what text holds and what is
not nested too deep is the datum of its compact text. -/
theorem readSymbols?_compact {j : Json} (h : j.IsPrintable) (hdepth : j.depth ≤ maxDepth) :
    readSymbols? (j.compact.map .char) = some j.reread := by
  rw [readSymbols?_of_spells_tokens (spells_compact j h), cutOff_eq 0 j.reread]
  rwa [Nat.add_zero, depth_reread]

end ViewEngine.Json
