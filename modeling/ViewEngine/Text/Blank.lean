/-!
# White space

The characters with the Unicode property White_Space, and texts without them at either end.
-/

namespace ViewEngine

/-- White space: the controls from tab to carriage return, the next-line control, and the spaces and
separators of any width. Zero-width characters are not white space. -/
def isBlank (c : Char) : Bool :=
  let n := c.toNat
  (9 ≤ n && n ≤ 13) || n = 0x20 || n = 0x85 || n = 0xa0 || n = 0x1680 || (0x2000 ≤ n && n ≤ 0x200a)
    || n = 0x2028 || n = 0x2029 || n = 0x202f || n = 0x205f || n = 0x3000

/-- Drops what satisfies `p` from the end. -/
def dropEndWhile (p : Char → Bool) (cs : List Char) : List Char :=
  (cs.reverse.dropWhile p).reverse

/-- Drops white space from the start. -/
def trimStart (cs : List Char) : List Char := cs.dropWhile isBlank

/-- Drops white space from both ends. -/
def trim (cs : List Char) : List Char := dropEndWhile isBlank (trimStart cs)

end ViewEngine
