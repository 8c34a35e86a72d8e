import ViewEngine.Binary64.Basic

/-!
# The nearest double

Rounding of a nonnegative quotient to the nearest double, ties to the one with the even significand.
At a given scale the candidates are the multiples of the spacing there, and rank is linear in the
multiple; a multiple that rounds up past the end of its scale has the rank of the first magnitude of
the next, so no case is special.
-/

namespace ViewEngine

/-- The integer nearest to `n / d`, a half going to the even neighbour. -/
def roundQuotient (n d : Nat) : Nat :=
  let q := n / d
  let twice := 2 * (n % d)
  if twice < d then q
  else if d < twice then q + 1
  else if q % 2 = 0 then q else q + 1

namespace Binary64

/-- The scale at which `units / d` has at most 53 binary digits. -/
def scaleFor (units d : Nat) : Nat := (units / d).log2 - 52

/-- The rank of the magnitude nearest to `n / d`, for positive `d`. -/
def nearestRank (n d : Nat) : Nat :=
  let units := n * unitsPerOne
  let scale := scaleFor units d
  scale * ranksPerScale + roundQuotient units (d <<< scale)

/-- The double nearest to `n / d` with the given sign, for positive `d`. -/
def ofQuotient (negative : Bool) (n d : Nat) : Binary64 :=
  ofRank negative (nearestRank n d)

/-- The double nearest to an integer. -/
def ofInt (i : Int) : Binary64 := ofQuotient (decide (i < 0)) i.natAbs 1

/-- The product of two finite doubles. -/
def mul (a b : Binary64) : Binary64 :=
  ofQuotient (a.negative != b.negative) (unitsOf a.rank * unitsOf b.rank) (unitsPerOne * unitsPerOne)

/-- The quotient of two finite doubles, the second not zero. -/
def div (a b : Binary64) : Binary64 :=
  ofQuotient (a.negative != b.negative) (unitsOf a.rank) (unitsOf b.rank)

end Binary64

end ViewEngine
