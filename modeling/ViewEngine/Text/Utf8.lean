/-!
# UTF-8

Bytes read as characters. A byte that belongs to no well-formed sequence is kept as a stray byte, so
that a reader can refuse it where it matters and pass over it where the text is skipped.
-/

namespace ViewEngine

/-- One item of text read from bytes. -/
inductive Symbol where
  | char (c : Char)
  /-- A byte that starts no well-formed sequence. -/
  | stray (byte : UInt8)
deriving DecidableEq, Repr

namespace Utf8

/-- The bytes of a text. -/
def encode (s : String) : List UInt8 := s.toUTF8.toList

/-- The payload of a continuation byte. -/
def continuation? (b : UInt8) : Option Nat :=
  if 0x80 ≤ b ∧ b < 0xc0 then some (b.toNat - 0x80) else none

/-- The character with this code point, if it is one and needs no fewer bytes. -/
def charFrom? (least code : Nat) : Option Char :=
  if code.isValidChar ∧ least ≤ code then some (Char.ofNat code) else none

/-- The character at the start of the bytes and the number of bytes it takes after the first. -/
def first? : List UInt8 → Option (Char × Nat)
  | [] => none
  | a :: rest =>
    if a < 0x80 then (charFrom? 0 a.toNat).map (·, 0)
    else if 0xc0 ≤ a ∧ a < 0xe0 then
      match rest with
      | b :: _ => do
        let b ← continuation? b
        (charFrom? 0x80 ((a.toNat - 0xc0) * 64 + b)).map (·, 1)
      | _ => none
    else if 0xe0 ≤ a ∧ a < 0xf0 then
      match rest with
      | b :: c :: _ => do
        let b ← continuation? b
        let c ← continuation? c
        (charFrom? 0x800 ((a.toNat - 0xe0) * 4096 + b * 64 + c)).map (·, 2)
      | _ => none
    else if 0xf0 ≤ a ∧ a < 0xf8 then
      match rest with
      | b :: c :: d :: _ => do
        let b ← continuation? b
        let c ← continuation? c
        let d ← continuation? d
        (charFrom? 0x10000 ((a.toNat - 0xf0) * 262144 + b * 4096 + c * 64 + d)).map (·, 3)
      | _ => none
    else none

/-- The symbols of the bytes, after passing over `skip` bytes of a character already read. -/
def symbolsFrom : Nat → List UInt8 → List Symbol
  | _, [] => []
  | skip + 1, _ :: rest => symbolsFrom skip rest
  | 0, a :: rest =>
    match first? (a :: rest) with
    | some (c, more) => .char c :: symbolsFrom more rest
    | none => .stray a :: symbolsFrom 0 rest

/-- The symbols that the bytes hold. -/
def symbols (bytes : List UInt8) : List Symbol := symbolsFrom 0 bytes

/-- The character of a symbol that is one. -/
def char? : Symbol → Option Char
  | .char c => some c
  | .stray _ => none

/-- The text that well-formed bytes hold. -/
def decode? (bytes : List UInt8) : Option String :=
  ((symbols bytes).mapM char?).map String.ofList

end Utf8

end ViewEngine
