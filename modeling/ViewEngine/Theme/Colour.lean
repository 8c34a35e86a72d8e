import ViewEngine.Binary64.Nearest
import ViewEngine.Decimal.Reader
import ViewEngine.Text.Blank
import ViewEngine.Text.Hexadecimal

/-!
# Colours

Colours of four 8-bit channels, read from hexadecimal text `RRGGBB` or `AARRGGBB` with any number of
`#` around it. Text of another length is opaque black, and digits that cannot be read count as zero.
-/

namespace ViewEngine

/-- A colour with its opacity. -/
structure Colour where
  red : Nat
  green : Nat
  blue : Nat
  alpha : Nat
deriving DecidableEq, Repr

namespace Colour

def black : Colour := ⟨0, 0, 0, 255⟩

/-- A hexadecimal numeral of 64 bits; it may have a plus sign. -/
def readHex? (cs : List Char) : Option Nat :=
  let digits := match cs with
    | '+' :: rest => rest
    | _ => cs
  if digits = [] then none
  else (digits.mapM hexValue?).bind fun ds =>
    let n := ds.foldl (fun n d => 16 * n + d) 0
    if n < UInt64.size then some n else none

/-- The channel that stands `shift` bits from the right. -/
def channel (n shift : Nat) : Nat := (n >>> shift) % 256

/-- The colour that a text denotes. -/
def ofHex (hex : String) : Colour :=
  let digits := dropEndWhile (· = '#') (hex.toList.dropWhile (· = '#'))
  let n := (readHex? digits).getD 0
  if digits.length = 6 then ⟨channel n 16, channel n 8, channel n 0, 255⟩
  else if digits.length = 8 then ⟨channel n 16, channel n 8, channel n 0, channel n 24⟩
  else black

/-- The channels scaled to the range from zero to one: red, green, blue, alpha. -/
def toUnit (c : Colour) : List Binary64 :=
  [c.red, c.green, c.blue, c.alpha].map fun channel => Binary64.ofQuotient false channel 255

end Colour

end ViewEngine
