import ViewEngine.Proofs.Text.Pieces
import ViewEngine.Theme.Colour

/-!
# Colours in hexadecimal

Two hexadecimal digits are a byte, and a colour is three bytes or, with its opacity in front, four of them
(`HexBytes`). What is read is exactly that, whatever hash signs stand at the ends, and a colour that is written is
read back (`Colour.ofHex_exact`). Other texts are opaque black unless they are as long as four bytes: with a
character that is no digit nothing is read, so all four channels are zero, the opacity too. A plus sign in front of
digits is taken for a zero (`Colour.ofHex_plus`).
-/

namespace ViewEngine

variable {c : Char} {n : Nat} {cs d : List Char} {ns : List Nat}

/-! ## Digits -/

/-- The character is the hexadecimal digit of a number, in either case. -/
def IsHexDigit (c : Char) (n : Nat) : Prop := n < 16 ∧ (c = Nat.digitChar n ∨ c = (Nat.digitChar n).toUpper)

instance : Decidable (IsHexDigit c n) := inferInstanceAs (Decidable (_ ∧ _))

def IsHex (c : Char) : Prop := ∃ n, IsHexDigit c n

theorem toNat_lt_of_hexValue? (h : hexValue? c = some n) : c.toNat < 103 := by
  unfold hexValue? at h
  split at h
  · rename_i hdigit
    exact Nat.lt_of_le_of_lt (Char.isDigit_iff_toNat.1 hdigit).2 (by decide)
  · split at h
    · rename_i hlower
      exact Nat.lt_succ_of_le hlower.2
    · split at h
      · rename_i hupper
        exact Nat.lt_of_le_of_lt hupper.2 (by decide)
      · cases h

theorem hexValue?_eq_some_iff : hexValue? c = some n ↔ IsHexDigit c n := by
  constructor
  · intro h
    have hall : ∀ k < 103, ∀ n ∈ hexValue? (Char.ofNat k), IsHexDigit (Char.ofNat k) n := by decide
    rw [← Char.ofNat_toNat c] at h ⊢
    exact hall _ (toNat_lt_of_hexValue? (Char.ofNat_toNat c ▸ h)) n h
  · have hall : ∀ n < 16, hexValue? (Nat.digitChar n) = some n ∧
        hexValue? (Nat.digitChar n).toUpper = some n := by decide
    rintro ⟨hlt, rfl | rfl⟩
    · exact (hall n hlt).1
    · exact (hall n hlt).2

theorem isHex_iff : IsHex c ↔ (hexValue? c).isSome = true := by
  simp only [IsHex, Option.isSome_iff_exists, hexValue?_eq_some_iff]

instance : Decidable (IsHex c) := decidable_of_iff _ isHex_iff.symm

theorem IsHexDigit.unique {m : Nat} (h : IsHexDigit c n) (hm : IsHexDigit c m) : n = m :=
  Option.some.inj ((hexValue?_eq_some_iff.2 h).symm.trans (hexValue?_eq_some_iff.2 hm))

theorem mapM_hexValue?_eq_none (h : ∃ c ∈ cs, ¬ IsHex c) : cs.mapM hexValue? = none := by
  obtain ⟨c, hmem, hc⟩ := h
  have hnone : hexValue? c = none := Option.not_isSome_iff_eq_none.1 (mt isHex_iff.2 hc)
  induction cs with
  | nil => cases hmem
  | cons first rest ih =>
    rw [List.mapM_cons]
    rcases List.mem_cons.1 hmem with rfl | hlater
    · rw [hnone]
      rfl
    · rw [ih hlater]
      cases hexValue? first <;> rfl

/-! ## Bytes -/

/-- The text writes bytes, two digits each. -/
inductive HexBytes : List Char → List Nat → Prop where
  | nil : HexBytes [] []
  | cons {high low : Char} {h l : Nat} {cs : List Char} {ns : List Nat} (hhigh : IsHexDigit high h)
      (hlow : IsHexDigit low l) (hrest : HexBytes cs ns) : HexBytes (high :: low :: cs) ((16 * h + l) :: ns)

/-- The number that bytes make up, the first with the greatest weight. -/
def bytesValue (ns : List Nat) : Nat := ns.foldl (fun n b => 256 * n + b) 0

namespace HexBytes

theorem lt (h : HexBytes cs ns) : ∀ n ∈ ns, n < 256 := by
  induction h with
  | nil => exact List.forall_mem_nil _
  | cons hhigh hlow _ ih =>
    have := hhigh.1
    have := hlow.1
    exact List.forall_mem_cons.2 ⟨by omega, ih⟩

theorem length_eq (h : HexBytes cs ns) : cs.length = 2 * ns.length := by
  induction h with
  | nil => rfl
  | cons _ _ _ ih =>
    rw [List.length_cons, List.length_cons, List.length_cons, ih]
    omega

theorem isHex (h : HexBytes cs ns) : ∀ c ∈ cs, IsHex c := by
  induction h with
  | nil => exact List.forall_mem_nil _
  | cons hhigh hlow _ ih => exact List.forall_mem_cons.2 ⟨⟨_, hhigh⟩, List.forall_mem_cons.2 ⟨⟨_, hlow⟩, ih⟩⟩

theorem hashless (h : HexBytes cs ns) : '#' ∉ cs := fun hmem => absurd (h.isHex '#' hmem) (by decide)

theorem unique {ms : List Nat} (h : HexBytes cs ns) (hm : HexBytes cs ms) : ns = ms := by
  induction h generalizing ms with
  | nil =>
    cases hm
    rfl
  | cons hhigh hlow _ ih =>
    cases hm with
    | cons hhigh' hlow' hrest' => rw [hhigh.unique hhigh', hlow.unique hlow', ih hrest']

theorem exists_of_isHex {k : Nat} (hcs : ∀ c ∈ cs, IsHex c) (hlength : cs.length = 2 * k) :
    ∃ ns, HexBytes cs ns ∧ ns.length = k := by
  induction k generalizing cs with
  | zero =>
    obtain rfl := List.length_eq_zero_iff.1 hlength
    exact ⟨[], .nil, rfl⟩
  | succ k ih =>
    match cs, hlength with
    | high :: low :: rest, hlength =>
      obtain ⟨⟨h, hhigh⟩, hcs⟩ := List.forall_mem_cons.1 hcs
      obtain ⟨⟨l, hlow⟩, hcs⟩ := List.forall_mem_cons.1 hcs
      obtain ⟨ns, hrest, hns⟩ := ih hcs (by simp only [List.length_cons] at hlength; omega)
      exact ⟨_, .cons hhigh hlow hrest, congrArg (· + 1) hns⟩

/-- Digit by digit the same number is made up as byte by byte. -/
theorem exists_digits (h : HexBytes cs ns) : ∃ ds, cs.mapM hexValue? = some ds ∧
    ∀ n, ds.foldl (fun n d => 16 * n + d) n = ns.foldl (fun n b => 256 * n + b) n := by
  induction h with
  | nil => exact ⟨[], rfl, fun _ => rfl⟩
  | @cons high low h l cs ns hhigh hlow _ ih =>
    obtain ⟨ds, hread, hsame⟩ := ih
    refine ⟨h :: l :: ds, ?_, fun n => ?_⟩
    · simp [List.mapM_cons, hexValue?_eq_some_iff.2 hhigh, hexValue?_eq_some_iff.2 hlow, hread]
    · have hbyte : 16 * (16 * n + h) + l = 256 * n + (16 * h + l) := by omega
      rw [List.foldl_cons, List.foldl_cons, List.foldl_cons, hsame, hbyte]

end HexBytes

/-! ## Reading -/

namespace Colour

/-- The text is a plus sign and digits. -/
def IsSigned (d : List Char) : Prop := ∃ rest, d = '+' :: rest ∧ ∀ c ∈ rest, IsHex c

/-- The number that hexadecimal digits write, if it fits 64 bits. -/
def hexNumber? (cs : List Char) : Option Nat :=
  if cs = [] then none
  else (cs.mapM hexValue?).bind fun ds =>
    let n := ds.foldl (fun n d => 16 * n + d) 0
    if n < UInt64.size then some n else none

theorem readHex?_plus (cs : List Char) : readHex? ('+' :: cs) = hexNumber? cs := rfl

theorem readHex?_plusless (h : cs.head? ≠ some '+') : readHex? cs = hexNumber? cs := by
  unfold readHex?
  split
  · exact absurd rfl h
  · rfl

theorem hexNumber?_hexBytes (h : HexBytes cs ns) (hne : ns ≠ []) (hfits : bytesValue ns < UInt64.size) :
    hexNumber? cs = some (bytesValue ns) := by
  obtain ⟨ds, hread, hsame⟩ := h.exists_digits
  have hcs : cs ≠ [] := by
    rintro rfl
    cases h
    exact hne rfl
  rw [hexNumber?, if_neg hcs, hread, Option.bind_some]
  simp only [hsame]
  exact if_pos hfits

theorem hexNumber?_eq_none (h : ∃ c ∈ cs, ¬ IsHex c) : hexNumber? cs = none := by
  rw [hexNumber?, mapM_hexValue?_eq_none h, Option.bind_none, ite_self]

theorem readHex?_hexBytes (h : HexBytes cs ns) (hne : ns ≠ []) (hfits : bytesValue ns < UInt64.size) :
    readHex? cs = some (bytesValue ns) := by
  have hplus : cs.head? ≠ some '+' := fun hhead =>
    absurd (h.isHex '+' (List.mem_of_mem_head? hhead)) (by decide)
  rw [readHex?_plusless hplus, hexNumber?_hexBytes h hne hfits]

theorem readHex?_eq_none (h : ∃ c ∈ d, ¬ IsHex c) (hsign : ¬ IsSigned d) : readHex? d = none := by
  by_cases hplus : d.head? = some '+'
  · obtain ⟨rest, rfl⟩ := List.head?_eq_some_iff.1 hplus
    have hrest : ∃ c ∈ rest, ¬ IsHex c := by
      by_contra hall
      exact hsign ⟨rest, rfl, by simpa using hall⟩
    rw [readHex?_plus, hexNumber?_eq_none hrest]
  · rw [readHex?_plusless hplus, hexNumber?_eq_none h]

/-- A plus sign in front of a number is taken for a zero. -/
theorem readHex?_plus_eq_zero (hne : cs ≠ []) : readHex? ('+' :: cs) = readHex? ('0' :: cs) := by
  have hzero : hexValue? '0' = some 0 := by decide
  rw [readHex?_plus, readHex?_plusless (by simp), hexNumber?, hexNumber?, if_neg hne, if_neg (List.cons_ne_nil _ _),
    List.mapM_cons, hzero]
  cases cs.mapM hexValue? <;> rfl

/-- A text without hash signs is all that is left of it with hash signs around it. -/
theorem isCore_of_hashless (h : '#' ∉ d) (before after : Nat) :
    IsCore (· = '#') d (List.replicate before '#' ++ d ++ List.replicate after '#') := by
  have hhash (c : Char) (hc : c ∈ d) : decide (c = '#') = false := decide_eq_false fun heq => h (heq ▸ hc)
  exact ⟨⟨_, _, rfl, fun c hc => decide_eq_true (List.eq_of_mem_replicate hc),
    fun c hc => decide_eq_true (List.eq_of_mem_replicate hc)⟩,
    fun c hc => hhash c (List.mem_of_mem_head? hc), fun c hc => hhash c (List.mem_of_mem_getLast? hc)⟩

/-- The colour that a text without hash signs at its ends denotes. -/
def ofDigits (d : List Char) : Colour :=
  let n := (readHex? d).getD 0
  if d.length = 6 then ⟨channel n 16, channel n 8, channel n 0, 255⟩
  else if d.length = 8 then ⟨channel n 16, channel n 8, channel n 0, channel n 24⟩
  else black

theorem ofHex_eq_ofDigits {hex : String} (h : IsCore (· = '#') d hex.toList) : ofHex hex = ofDigits d := by
  obtain rfl := h.dropEndWhile_dropWhile
  rfl

/-- The channels are the last three bytes, and what stands before them is the opacity. -/
theorem channels_hexBytes (front : List Nat) {r g b : Nat} (h : HexBytes d (front ++ [r, g, b]))
    (hfront : bytesValue front < 256) : ∃ n, readHex? d = some n ∧
      channel n 16 = r ∧ channel n 8 = g ∧ channel n 0 = b ∧ channel n 24 = bytesValue front := by
  have hr : r < 256 := h.lt r (by simp)
  have hg : g < 256 := h.lt g (by simp)
  have hb : b < 256 := h.lt b (by simp)
  have hvalue : bytesValue (front ++ [r, g, b]) = 16777216 * bytesValue front + 65536 * r + 256 * g + b := by
    simp only [bytesValue, List.foldl_append, List.foldl_cons, List.foldl_nil]
    omega
  refine ⟨bytesValue (front ++ [r, g, b]), readHex?_hexBytes h (by simp) (by rw [hvalue, UInt64.size]; omega), ?_⟩
  simp only [channel, Nat.shiftRight_eq_div_pow, hvalue]
  omega

theorem ofDigits_three {r g b : Nat} (h : HexBytes d [r, g, b]) : ofDigits d = ⟨r, g, b, 255⟩ := by
  obtain ⟨n, hread, rfl, rfl, rfl, -⟩ := channels_hexBytes [] h (by decide)
  rw [ofDigits, hread]
  exact if_pos h.length_eq

theorem ofDigits_four {r g b a : Nat} (h : HexBytes d [a, r, g, b]) : ofDigits d = ⟨r, g, b, a⟩ := by
  have ha : bytesValue [a] = a := by simp [bytesValue]
  obtain ⟨n, hread, hr, hg, hb, halpha⟩ := channels_hexBytes [a] h (by rw [ha]; exact h.lt a (by simp))
  have hlength : d.length = 8 := h.length_eq
  rw [ofDigits, hread, if_neg (by omega), if_pos hlength, Option.getD_some, hr, hg, hb, halpha, ha]

theorem ofDigits_of_length (hsix : d.length ≠ 6) (height : d.length ≠ 8) : ofDigits d = black := by
  rw [ofDigits, if_neg hsix, if_neg height]

theorem ofDigits_illegible (h : readHex? d = none) :
    ofDigits d = if d.length = 8 then ⟨0, 0, 0, 0⟩ else black := by
  rw [ofDigits, h]
  by_cases hsix : d.length = 6
  · simp [hsix, channel, black]
  · simp [hsix, channel]

/-- A plus sign in front is a character of its own and is taken for a zero. -/
theorem ofHex_plus (cs : List Char) : ofHex (String.ofList ('+' :: cs)) = ofHex (String.ofList ('0' :: cs)) := by
  have hdigits {c : Char} (hc : decide (c = '#') = false) :
      ofHex (String.ofList (c :: cs)) = ofDigits (c :: dropEndWhile (· = '#') cs) := by
    refine ofHex_eq_ofDigits ?_
    rw [← dropEndWhile_cons hc, String.toList_ofList]
    have hcore := isCore_dropEndWhile_dropWhile (· = '#') (c :: cs)
    rwa [List.dropWhile_cons_of_neg (by simpa using hc)] at hcore
  rw [hdigits (by decide), hdigits (by decide)]
  generalize dropEndWhile (· = '#') cs = d
  cases d with
  | nil => rfl
  | cons c rest =>
    unfold ofDigits
    rw [readHex?_plus_eq_zero (List.cons_ne_nil c rest), List.length_cons, List.length_cons (a := '0')]

/-! ## Writing -/

/-- Two capital digits. -/
def byteText (n : Nat) : List Char := [(Nat.digitChar (n / 16)).toUpper, (Nat.digitChar (n % 16)).toUpper]

/-- The text of a colour: a hash sign, the opacity and the three channels. -/
def toHex (c : Colour) : String := String.ofList ('#' :: [c.alpha, c.red, c.green, c.blue].flatMap byteText)

theorem hexBytes_flatMap_byteText (h : ∀ n ∈ ns, n < 256) : HexBytes (ns.flatMap byteText) ns := by
  induction ns with
  | nil => exact .nil
  | cons n ns ih =>
    obtain ⟨hn, hns⟩ := List.forall_mem_cons.1 h
    have hbyte : 16 * (n / 16) + n % 16 = n := by omega
    have hhigh : IsHexDigit (Nat.digitChar (n / 16)).toUpper (n / 16) := ⟨by omega, .inr rfl⟩
    have hlow : IsHexDigit (Nat.digitChar (n % 16)).toUpper (n % 16) := ⟨by omega, .inr rfl⟩
    have hcons := HexBytes.cons hhigh hlow (ih hns)
    rwa [hbyte] at hcons

theorem ofHex_toHex (r g b a : UInt8) :
    ofHex (toHex ⟨r.toNat, g.toNat, b.toNat, a.toNat⟩) = ⟨r.toNat, g.toNat, b.toNat, a.toNat⟩ := by
  have hlt : ∀ n ∈ [a.toNat, r.toNat, g.toNat, b.toNat], n < 256 := by
    simp only [List.forall_mem_cons]
    exact ⟨a.toNat_lt, r.toNat_lt, g.toNat_lt, b.toNat_lt, List.forall_mem_nil _⟩
  have hbytes := hexBytes_flatMap_byteText hlt
  have hcore := isCore_of_hashless hbytes.hashless 1 0
  have htext : (toHex ⟨r.toNat, g.toNat, b.toNat, a.toNat⟩).toList =
      List.replicate 1 '#' ++ [a.toNat, r.toNat, g.toNat, b.toNat].flatMap byteText ++ List.replicate 0 '#' := by
    rw [toHex, String.toList_ofList, List.replicate_zero, List.append_nil]
    rfl
  rw [ofHex_eq_ofDigits (htext ▸ hcore), ofDigits_four hbytes]

/-- **Colours are read exactly.** Of a text without the hash signs at its ends six hexadecimal digits are the three
channels of an opaque colour, and eight are the opacity and the channels. A text of any other length is opaque
black. So is one of six characters with one that is no digit, while one of eight characters is black without
opacity; of these two a plus sign in front of digits is not told here. A colour that is written is read back. -/
theorem ofHex_exact :
    (∀ hex : String, ∃ d, IsCore (· = '#') d hex.toList) ∧
    (∀ (hex : String) (d : List Char), IsCore (· = '#') d hex.toList →
      (d.length = 6 → (∀ c ∈ d, IsHex c) → ∃ r g b, HexBytes d [r, g, b] ∧ ofHex hex = ⟨r, g, b, 255⟩) ∧
      (d.length = 8 → (∀ c ∈ d, IsHex c) → ∃ a r g b, HexBytes d [a, r, g, b] ∧ ofHex hex = ⟨r, g, b, a⟩) ∧
      (d.length ≠ 6 → d.length ≠ 8 → ofHex hex = black) ∧
      ((∃ c ∈ d, ¬ IsHex c) → ¬ IsSigned d →
        (d.length = 6 → ofHex hex = black) ∧ (d.length = 8 → ofHex hex = ⟨0, 0, 0, 0⟩))) ∧
    ∀ r g b a : UInt8,
      ofHex (toHex ⟨r.toNat, g.toNat, b.toNat, a.toNat⟩) = ⟨r.toNat, g.toNat, b.toNat, a.toNat⟩ := by
  refine ⟨fun hex => ⟨_, isCore_dropEndWhile_dropWhile _ _⟩, fun hex d hcore => ?_, ofHex_toHex⟩
  rw [ofHex_eq_ofDigits hcore]
  refine ⟨fun hsix hhex => ?_, fun height hhex => ?_, ofDigits_of_length, fun hother hsign => ?_⟩
  · obtain ⟨ns, hbytes, hlength⟩ := HexBytes.exists_of_isHex (k := 3) hhex hsix
    obtain ⟨r, g, b, rfl⟩ := List.length_eq_three.1 hlength
    exact ⟨r, g, b, hbytes, ofDigits_three hbytes⟩
  · obtain ⟨ns, hbytes, hlength⟩ := HexBytes.exists_of_isHex (k := 4) hhex height
    match ns, hlength with
    | [a, r, g, b], _ => exact ⟨a, r, g, b, hbytes, ofDigits_four hbytes⟩
  · rw [ofDigits_illegible (readHex?_eq_none hother hsign)]
    refine ⟨fun hsix => if_neg (by omega), fun height => if_pos height⟩

/-- A colour with its opacity, between hash signs and in mixed case, and a text with a character that is no digit. -/
theorem ofHex_exact_shown :
    IsCore (· = '#') "80ff6B35".toList "##80ff6B35#".toList ∧
    ofHex "##80ff6B35#" = ⟨0xff, 0x6b, 0x35, 0x80⟩ ∧
    IsCore (· = '#') "1G0000".toList "1G0000".toList ∧
    ofHex "1G0000" = black := by
  obtain ⟨-, hread, -⟩ := ofHex_exact
  have hbytes : HexBytes "80ff6B35".toList [0x80, 0xff, 0x6b, 0x35] :=
    .cons (h := 8) (l := 0) (by decide) (by decide) <| .cons (h := 15) (l := 15) (by decide) (by decide) <|
      .cons (h := 6) (l := 11) (by decide) (by decide) <| .cons (h := 3) (l := 5) (by decide) (by decide) .nil
  have hcore : IsCore (· = '#') "80ff6B35".toList "##80ff6B35#".toList :=
    isCore_of_hashless hbytes.hashless 2 1
  have hplain : IsCore (· = '#') "1G0000".toList "1G0000".toList := isCore_of_hashless (by decide) 0 0
  have hsign : ¬ IsSigned "1G0000".toList := by
    rintro ⟨rest, hrest, -⟩
    cases hrest
  obtain ⟨a, r, g, b, hbytes', hcolour⟩ := (hread _ _ hcore).2.1 rfl hbytes.isHex
  obtain ⟨⟩ := hbytes.unique hbytes'
  exact ⟨hcore, hcolour, hplain, ((hread _ _ hplain).2.2.2 ⟨'G', by decide, by decide⟩ hsign).1 rfl⟩

/-- Eight characters of which one is no digit are black without opacity, not opaque black. Neither are six characters
that begin with a plus sign: the sign is taken for a zero. -/
theorem ofHex_illegible :
    (IsCore (· = '#') "GGGGGGGG".toList "GGGGGGGG".toList ∧
      ('G' ∈ "GGGGGGGG".toList ∧ ¬ IsHex 'G') ∧
      ofHex "GGGGGGGG" = ⟨0, 0, 0, 0⟩ ∧
      ofHex "GGGGGGGG" ≠ black) ∧
    IsCore (· = '#') "+FFFFF".toList "+FFFFF".toList ∧
      ('+' ∈ "+FFFFF".toList ∧ ¬ IsHex '+') ∧
      ofHex "+FFFFF" = ofHex "0FFFFF" ∧ ofHex "0FFFFF" = ⟨15, 255, 255, 255⟩ ∧
      ofHex "+FFFFF" ≠ black :=
  ⟨⟨isCore_of_hashless (by decide) 0 0, by decide, by decide, by decide⟩,
    isCore_of_hashless (by decide) 0 0, by decide, ofHex_plus "FFFFF".toList, by decide, by decide⟩

end Colour

end ViewEngine
