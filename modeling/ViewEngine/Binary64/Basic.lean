/-!
# Doubles

The 64-bit binary floating-point numbers. A double is a sign together with the *rank* of its
magnitude: magnitudes in increasing order are numbered from zero, the subnormal ones first, then the
normal ones, then infinity, and what lies above infinity is not a number. So comparing magnitudes is
comparing ranks, and the next larger magnitude has the next rank.

`units` gives the exact magnitude, as a multiple of the least positive double `2 ^ (-1074)`.
-/

namespace ViewEngine

/-- A double: its sign and the rank of its magnitude. -/
structure Binary64 where
  negative : Bool
  rank : Nat
  rank_lt : rank < 0x8000000000000000
deriving DecidableEq

namespace Binary64

/-- The rank of infinity, the first magnitude that is not finite. -/
def infinityRank : Nat := 0x7ff0000000000000

/-- The double whose 64 bits, sign first, are those of `bits`. -/
def ofBits (bits : UInt64) : Binary64 where
  negative := decide (0x8000000000000000 ≤ bits.toNat)
  rank := bits.toNat % 0x8000000000000000
  rank_lt := Nat.mod_lt _ (by decide)

/-- The double with this sign whose magnitude has the given rank, or is infinite beyond. -/
def ofRank (negative : Bool) (rank : Nat) : Binary64 where
  negative := negative
  rank := min infinityRank rank
  rank_lt := Nat.lt_of_le_of_lt (Nat.min_le_left _ _) (by decide)

def zero : Binary64 := ofRank false 0

def infinity : Binary64 := ofRank false infinityRank

/-- Not a number. -/
def nan : Binary64 := ⟨false, 0x7ff8000000000000, by decide⟩

instance : Inhabited Binary64 := ⟨zero⟩

/-- The same magnitude with the other sign. -/
def neg (d : Binary64) : Binary64 := { d with negative := !d.negative }

def isNaN (d : Binary64) : Bool := decide (infinityRank < d.rank)

def isFinite (d : Binary64) : Bool := decide (d.rank < infinityRank)

/-! ## Exact magnitudes -/

/-- How many ranks have the same spacing: two to the 52nd. The lowest spacing has twice as many. -/
def ranksPerScale : Nat := 0x10000000000000

/-- The number of doublings from the least spacing of doubles to the spacing at this rank. -/
def scaleOf (rank : Nat) : Nat := rank / ranksPerScale - 1

/-- How often the spacing at this rank goes into the magnitude. -/
def significandOf (rank : Nat) : Nat := rank - scaleOf rank * ranksPerScale

/-- The magnitude of this rank, in units of `2 ^ (-1074)`. -/
def unitsOf (rank : Nat) : Nat := significandOf rank <<< scaleOf rank

/-- How many units of `2 ^ (-1074)` make one. -/
def unitsPerOne : Nat := 1 <<< 1074

/-- The whole part of a finite double, toward zero. -/
def truncate (d : Binary64) : Int :=
  let whole : Int := (unitsOf d.rank / unitsPerOne : Nat)
  if d.negative then -whole else whole

/-! ## Comparison -/

/-- Numbers in increasing order have increasing positions; both zeros have the same one. -/
def position (d : Binary64) : Int := if d.negative then -d.rank else d.rank

/-- Numeric equality: the two zeros are equal, and what is not a number equals nothing. -/
def equal (a b : Binary64) : Bool :=
  !a.isNaN && !b.isNaN && decide (a.position = b.position)

/-- Numeric order; what is not a number is neither below nor above anything. -/
def less (a b : Binary64) : Bool :=
  !a.isNaN && !b.isNaN && decide (a.position < b.position)

end Binary64

end ViewEngine
