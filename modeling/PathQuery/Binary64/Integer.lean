import PathQuery.Binary64.Basic

/-!
# Integer — numbers compared, cut off at the point and turned into integers

Every finite number is a whole multiple of the least subnormal one. Counted in that unit numbers are
compared and cut off at the point. A number becomes an integer of sixty-four bits only if nothing
stands behind its point and it lies between two bounds, the upper one excluded.
-/

namespace PathQuery.Binary64

/-- The binary places that the least subnormal number has behind the point. -/
@[irreducible]
def places : Nat :=
  1074

/-- The number one, counted in the least subnormal number. -/
def one : Nat :=
  Nat.pow 2 places

/-- The magnitude, counted in the least subnormal number; that of an infinity is larger than every
finite one. -/
def units (f : Binary64) : Nat :=
  f.significand * Nat.pow 2 (max f.biased 1 - 1)

def zero : Binary64 :=
  ofMagnitude false 0

/-! ## Comparison -/

/-- Both zeros are equal, and a NaN is equal to nothing. -/
def equals (f g : Binary64) : Bool :=
  !f.isNaN && !g.isNaN && f.withSign f.units == g.withSign g.units

/-- At most; never with a NaN. -/
def le (f g : Binary64) : Bool :=
  !f.isNaN && !g.isNaN && decide (f.withSign f.units ≤ g.withSign g.units)

/-- Less; never with a NaN. -/
def lt (f g : Binary64) : Bool :=
  !f.isNaN && !g.isNaN && decide (f.withSign f.units < g.withSign g.units)

/-! ## Cutting off -/

/-- What stands behind the point, with the sign of the number; infinities have no number there. -/
def fract (f : Binary64) : Binary64 :=
  if f.isFinite then
    let rest := f.units % one
    ofRatio (f.isNegative && rest != 0) rest one
  else
    nan false

/-- What stands before the point. A number out of range becomes the end of the range that is nearest
to it, and a NaN becomes zero. -/
def toInt64 (f : Binary64) : Int64 :=
  if f.isNaN then 0
  else
    .ofInt (max (-9223372036854775808) (min 9223372036854775807 (f.withSign (f.units / one))))

/-! ## Integers of sixty-four bits -/

/-- The least integer of sixty-four bits. -/
def int64Lower : Binary64 :=
  ofInt (-9223372036854775808)

/-- The integer behind the greatest one of sixty-four bits, which is no number of its own. -/
def int64Upper : Binary64 :=
  ofInt 9223372036854775808

/-- The number as an integer of sixty-four bits, if it has no fraction and lies within the
bounds. -/
def whole? (f : Binary64) : Option Int64 :=
  if f.fract.equals zero && (int64Lower.le f && f.lt int64Upper) then some f.toInt64 else none

end PathQuery.Binary64
