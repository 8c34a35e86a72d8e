import ViewEngine.Text.Utf8

/-!
# Reading what was encoded

The symbols of an encoded text are its characters, one for one and without a stray byte.
-/

namespace ViewEngine.Utf8

/-! ## One character -/

theorem continuation?_ofNat {n : Nat} (h : n < 0x40) :
    continuation? (UInt8.ofNat (n + 0x80)) = some n := by
  have hb : (UInt8.ofNat (n + 0x80)).toNat = n + 0x80 := 
    UInt8.toNat_ofNat_of_lt' (Nat.lt_trans (Nat.add_lt_add_right h 0x80) (by decide))
  have hrange : 0x80 ≤ UInt8.ofNat (n + 0x80) ∧ UInt8.ofNat (n + 0x80) < 0xc0 := by
    rw [UInt8.le_iff_toNat_le, UInt8.lt_iff_toNat_lt, hb]
    exact ⟨by simp, by simp; omega⟩
  rw [continuation?, if_pos hrange, hb]
  simp

theorem charFrom?_toNat {least n : Nat} {c : Char} (hn : n = c.toNat) (h : least ≤ c.toNat) :
    charFrom? least n = some c := by
  have hvalid : c.toNat.isValidChar := c.valid
  rw [hn, charFrom?, if_pos ⟨hvalid, h⟩, Char.ofNat_toNat]

/-- The character at the start of the bytes is the one that was encoded. -/
theorem first?_encodeChar (c : Char) (rest : List UInt8) :
    first? (String.utf8EncodeChar c ++ rest) = some (c, (String.utf8EncodeChar c).length - 1) := by
  have hsmall : c.toNat < 0x110000 := by
    rcases c.valid with h | h
    · exact Nat.lt_trans h (by decide)
    · exact h.2
  have hc : c.val.toNat = c.toNat := rfl
  have hmod (n : Nat) : n % 0x40 < 0x40 := Nat.mod_lt n (by decide)
  have hbyte {n : Nat} (h : n < 0x100) : (UInt8.ofNat n).toNat = n := UInt8.toNat_ofNat_of_lt' h
  -- One case for each length; in each the first byte falls into one range only. The binds are
  -- rewritten one by one, as the kernel would compute with the code if they were unfolded.
  by_cases h1 : c.toNat ≤ 0x7f
  · have ha : (UInt8.ofNat c.toNat).toNat = c.toNat := hbyte (by omega)
    simp only [String.utf8EncodeChar, hc, h1, if_true, List.cons_append, List.nil_append, first?,
      UInt8.lt_iff_toNat_lt, ha]
    rw [if_pos (by simp; omega), charFrom?_toNat rfl (Nat.zero_le _)]
    rfl
  by_cases h2 : c.toNat ≤ 0x7ff
  · have ha := hbyte (n := c.toNat / 64 % 0x20 + 0xc0) (by omega)
    have hcode : (c.toNat / 64 % 0x20 + 0xc0 - 0xc0) * 64 + c.toNat % 0x40 = c.toNat := by omega
    simp only [String.utf8EncodeChar, hc, h1, h2, if_true, if_false, List.cons_append, List.nil_append,
      first?, UInt8.lt_iff_toNat_lt, UInt8.le_iff_toNat_le, ha]
    rw [if_neg (by simp), if_pos (by simp; omega)]
    rw [continuation?_ofNat (hmod _),
      Option.bind_eq_bind, Option.bind_some,
      charFrom?_toNat hcode (by omega)]
    rfl
  by_cases h3 : c.toNat ≤ 0xffff
  · have ha := hbyte (n := c.toNat / 4096 % 0x10 + 0xe0) (by omega)
    have hcode : (c.toNat / 4096 % 0x10 + 0xe0 - 0xe0) * 4096 + c.toNat / 64 % 0x40 * 64
        + c.toNat % 0x40 = c.toNat := by omega
    simp only [String.utf8EncodeChar, hc, h1, h2, h3, if_true, if_false, List.cons_append, List.nil_append,
      first?, UInt8.lt_iff_toNat_lt, UInt8.le_iff_toNat_le, ha]
    rw [if_neg (by simp), if_neg (by simp), if_pos (by simp; omega)]
    rw [continuation?_ofNat (hmod _), continuation?_ofNat (hmod _),
      Option.bind_eq_bind, Option.bind_some, Option.bind_some,
      charFrom?_toNat hcode (by omega)]
    rfl
  · have ha := hbyte (n := c.toNat / 262144 % 0x08 + 0xf0) (by omega)
    have hcode : (c.toNat / 262144 % 0x08 + 0xf0 - 0xf0) * 262144 + c.toNat / 4096 % 0x40 * 4096
        + c.toNat / 64 % 0x40 * 64 + c.toNat % 0x40 = c.toNat := by omega
    simp only [String.utf8EncodeChar, hc, h1, h2, h3, if_false, List.cons_append, List.nil_append,
      first?, UInt8.lt_iff_toNat_lt, UInt8.le_iff_toNat_le, ha]
    rw [if_neg (by simp), if_neg (by simp), if_neg (by simp), if_pos (by simp; omega)]
    rw [continuation?_ofNat (hmod _), continuation?_ofNat (hmod _), continuation?_ofNat (hmod _),
      Option.bind_eq_bind, Option.bind_some, Option.bind_some, Option.bind_some,
      charFrom?_toNat hcode (by omega)]
    rfl

/-! ## A text -/

theorem symbolsFrom_append (done rest : List UInt8) :
    symbolsFrom done.length (done ++ rest) = symbolsFrom 0 rest := by
  induction done with
  | nil => rfl
  | cons a done ih => exact ih

theorem symbols_encodeChar (c : Char) (rest : List UInt8) :
    symbols (String.utf8EncodeChar c ++ rest) = .char c :: symbols rest := by
  have hfirst := first?_encodeChar c rest
  obtain ⟨a, more, hbytes⟩ := List.exists_cons_of_ne_nil (String.utf8EncodeChar_ne_nil (c := c))
  rw [hbytes] at hfirst ⊢
  rw [List.cons_append] at hfirst ⊢
  rw [symbols, symbolsFrom, hfirst]
  exact congrArg _ (symbolsFrom_append more rest)

theorem symbols_flatMap_encodeChar (cs : List Char) :
    symbols (cs.flatMap String.utf8EncodeChar) = cs.map .char := by
  induction cs with
  | nil => rfl
  | cons c cs ih => rw [List.flatMap_cons, symbols_encodeChar, ih, List.map_cons]

theorem toList_loop (bytes : ByteArray) (i : Nat) (done : List UInt8) :
    ByteArray.toList.loop bytes i done = done.reverse ++ bytes.data.toList.drop i := by
  fun_induction ByteArray.toList.loop with
  | case1 i done h ih =>
    have hi : i < bytes.data.toList.length := h
    have hget : bytes.get! i = bytes.data.toList[i] := by
      show bytes.data[i]! = _
      rw [getElem!_pos bytes.data i h, Array.getElem_toList]
    rw [ih, List.reverse_cons, List.append_assoc, hget, List.drop_eq_getElem_cons hi]
    rfl
  | case2 i done h =>
    have hi : bytes.data.toList.length ≤ i := Nat.not_lt.1 h
    rw [List.drop_of_length_le hi, List.append_nil]

theorem encode_eq (s : String) : encode s = s.toList.flatMap String.utf8EncodeChar := by
  rw [encode, String.toUTF8_eq_toByteArray, ← String.utf8Encode_toList, ByteArray.toList, toList_loop,
    List.utf8Encode, List.toList_data_toByteArray]
  rfl

/-- **What is encoded reads back**: the bytes of a text hold its characters and nothing else. -/
theorem symbols_encode (s : String) : symbols (encode s) = s.toList.map .char := by
  rw [encode_eq, symbols_flatMap_encodeChar]

theorem mapM_char?_eq_some {symbols : List Symbol} {cs : List Char} :
    symbols.mapM char? = some cs ↔ symbols = cs.map .char := by
  induction symbols generalizing cs with
  | nil => cases cs <;> simp
  | cons symbol rest ih =>
    cases symbol with
    | stray byte => cases cs <;> simp [char?]
    | char c =>
      cases cs with
      | nil => simp [char?, Option.bind_eq_some_iff]
      | cons d cs => simpa [char?, Option.bind_eq_some_iff, ih] using and_comm

/-- Bytes hold a text if they hold its characters and nothing else. -/
theorem decode?_eq_some {bytes : List UInt8} {s : String} :
    decode? bytes = some s ↔ symbols bytes = s.toList.map .char := by
  rw [decode?, Option.map_eq_some_iff]
  constructor
  · rintro ⟨cs, hcs, rfl⟩
    rw [String.toList_ofList]
    exact mapM_char?_eq_some.1 hcs
  · intro h
    exact ⟨s.toList, mapM_char?_eq_some.2 h, String.ofList_toList⟩

end ViewEngine.Utf8
