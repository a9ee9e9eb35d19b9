/-!
# Binary64 — double-precision numbers as their sixty-four bits

A finite number denotes `(-1)^s · significand · 2^exponent`; all arithmetic on it is arithmetic on
those natural numbers. Two numbers are equal when their bits are.
-/

namespace PathQuery

/-- The sixty-four bits of a double-precision number: sign, eleven bits of exponent, fifty-two of
fraction. -/
structure Binary64 where
  bits : UInt64
deriving DecidableEq, Inhabited

namespace Binary64

/-- The weight of the sign, the highest of the sixty-four bits. -/
def signUnit : Nat :=
  0x8000000000000000

/-- The weight of the lowest bit of the exponent; it is also that of the hidden bit. -/
def exponentUnit : Nat :=
  0x10000000000000

def isNegative (f : Binary64) : Bool :=
  f.bits.toNat / signUnit == 1

/-- The biased exponent, from 0 to 2047. -/
def biased (f : Binary64) : Nat :=
  f.bits.toNat / exponentUnit % 2048

def fraction (f : Binary64) : Nat :=
  f.bits.toNat % exponentUnit

def isFinite (f : Binary64) : Bool :=
  f.biased != 2047

def isNaN (f : Binary64) : Bool :=
  f.biased == 2047 && f.fraction != 0

def isZero (f : Binary64) : Bool :=
  f.biased == 0 && f.fraction == 0

/-- The whole number that is scaled by a power of two: the hidden bit stands before the fraction
unless the number is subnormal. -/
def significand (f : Binary64) : Nat :=
  if f.biased = 0 then f.fraction else f.fraction + exponentUnit

/-- The power of two that scales the significand. -/
def exponent (f : Binary64) : Int :=
  (max f.biased 1 : Nat) - 1075

/-- A negative sign is kept on a result of magnitude `n`. -/
def withSign (f : Binary64) (n : Nat) : Int :=
  if f.isNegative then -(n : Int) else n

/-- The number with the given sign and the given bits below it. -/
def ofMagnitude (negative : Bool) (magnitude : Nat) : Binary64 :=
  ⟨.ofNat (magnitude + if negative then signUnit else 0)⟩

/-- The bits of positive infinity. -/
def infinityBits : Nat :=
  2047 * exponentUnit

def infinity (negative : Bool) : Binary64 :=
  ofMagnitude negative infinityBits

/-- The quiet NaN with an empty payload. -/
def nan (negative : Bool) : Binary64 :=
  ofMagnitude negative (infinityBits + exponentUnit / 2)

/-! ## Rounding a quotient -/

/-- The whole number nearest to `num / den`; a half goes to the even neighbour. -/
def roundHalfEven (num den : Nat) : Nat :=
  let q := num / den
  let r := num % den
  if 2 * r < den then q
  else if den < 2 * r then q + 1
  else q + q % 2

/-- The quotient `num / (den · 2^e)` as one fraction. -/
def scaled (num den : Nat) : Int → Nat × Nat
  | .ofNat e => (num, den * Nat.pow 2 e)
  | .negSucc e => (num * Nat.pow 2 (e + 1), den)

/-- The least exponent at which the quotient has no more than fifty-three binary digits, never below
that of the subnormal numbers. -/
def exponentFor (num den : Nat) : Int :=
  let guess : Int := (Nat.log2 num : Int) - Nat.log2 den - 52
  let (n, d) := scaled num den guess
  max (if n < d * exponentUnit then guess - 1 else guess) (-1074)

/-- The bits of `num / den`, rounded to a multiple of `2^e`; what rounds up to one digit more
carries into the exponent. -/
def roundedBits (num den : Nat) (e : Int) : Nat :=
  let (n, d) := scaled num den e
  (e + 1074).toNat * exponentUnit + roundHalfEven n d

/-- The number nearest to `num / den`, a tie going to the even significand. Past the largest finite
number it is an infinity. -/
def ofRatio (negative : Bool) (num den : Nat) : Binary64 :=
  if num = 0 then
    ofMagnitude negative 0
  else
    ofMagnitude negative (min (roundedBits num den (exponentFor num den)) infinityBits)

/-- The number nearest to an integer. -/
def ofInt (i : Int) : Binary64 :=
  ofRatio (i < 0) i.natAbs 1

/-- The number nearest to `digits · 10^exponent`. Magnitudes far outside the range of finite numbers
are settled by counting digits. -/
def ofDecimal (negative : Bool) (digits : Nat) (exponent : Int) : Binary64 :=
  if digits = 0 then
    ofMagnitude negative 0
  else
    let magnitude : Int := (Nat.toDigits 10 digits).length + exponent
    if magnitude > 310 then infinity negative
    else if magnitude < -330 then ofMagnitude negative 0
    else
      match exponent with
      | .ofNat e => ofRatio negative (digits * Nat.pow 10 e) 1
      | .negSucc e => ofRatio negative digits (Nat.pow 10 (e + 1))

/-! ## Product and quotient -/

/-- The magnitude of a finite number as a fraction. -/
def ratio (f : Binary64) : Nat × Nat :=
  match f.exponent with
  | .ofNat e => (f.significand * Nat.pow 2 e, 1)
  | .negSucc e => (f.significand, Nat.pow 2 (e + 1))

/-- The product of two finite numbers, rounded once. -/
def times (f g : Binary64) : Binary64 :=
  let (n, d) := f.ratio
  let (n', d') := g.ratio
  ofRatio (f.isNegative != g.isNegative) (n * n') (d * d')

/-- The quotient of two finite numbers, rounded once; the second is not zero. -/
def dividedBy (f g : Binary64) : Binary64 :=
  let (n, d) := f.ratio
  let (n', d') := g.ratio
  ofRatio (f.isNegative != g.isNegative) (n * d') (d * n')

/-- The number with the opposite sign. -/
def negate (f : Binary64) : Binary64 :=
  ofMagnitude (!f.isNegative) (f.bits.toNat % signUnit)

/-! ## Truth of a number -/

/-- Everything but the two zeros counts as true. -/
def isNonZero (f : Binary64) : Bool :=
  !f.isZero

end Binary64

end PathQuery
