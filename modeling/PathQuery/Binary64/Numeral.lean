import PathQuery.Binary64.Basic
import PathQuery.Text.Numeral

/-!
# Numeral — the texts of a double-precision number

Reading: an optional sign before `inf`, `infinity`, `nan` (any case), or before digits with an
optional point and an optional exponent. Writing: the fewest digits that read back, the nearest of
those, laid out with or without an exponent.
-/

namespace PathQuery.Binary64

open PathQuery.Text

/-! ## Reading -/

/-- What a numeral says before it is rounded: a whole number of digits scaled by a power of ten. -/
inductive Literal where
  | infinite
  | notANumber
  | finite (digits : Nat) (exponent : Int)
deriving DecidableEq

/-- An optional sign; true stands for a minus. -/
def readSign : List Char → Bool × List Char
  | '-' :: cs => (true, cs)
  | '+' :: cs => (false, cs)
  | cs => (false, cs)

/-- The digits at the front and what follows them. -/
def spanDigits (cs : List Char) : List Char × List Char :=
  (cs.takeWhile Char.isDigit, cs.dropWhile Char.isDigit)

/-- The digits after a point, if there is one. -/
def readFraction : List Char → List Char × List Char
  | '.' :: cs => spanDigits cs
  | cs => ([], cs)

/-- The exponent at the end of a numeral: nothing, or `e` with an integer. -/
def readExponent : List Char → Option Int
  | [] => some 0
  | 'e' :: cs => integer? cs
  | 'E' :: cs => integer? cs
  | _ => none

/-- Digits with an optional point, at least one digit in all, and an optional exponent. -/
def finite? (cs : List Char) : Option Literal :=
  let (whole, cs) := spanDigits cs
  let (part, cs) := readFraction cs
  if whole ++ part = [] then none
  else (readExponent cs).map fun e => .finite (digitsValue (whole ++ part)) (e - part.length)

/-- An unsigned numeral. -/
def literal? (cs : List Char) : Option Literal :=
  let word := cs.map Char.toLower
  if word = ['i', 'n', 'f'] ∨ word = ['i', 'n', 'f', 'i', 'n', 'i', 't', 'y'] then some .infinite
  else if word = ['n', 'a', 'n'] then some .notANumber
  else finite? cs

/-- The number nearest to what a literal says. -/
def ofLiteral (negative : Bool) : Literal → Binary64
  | .infinite => infinity negative
  | .notANumber => nan negative
  | .finite digits exponent => ofDecimal negative digits exponent

/-- Reads a whole text. -/
def read? (cs : List Char) : Option Binary64 :=
  let (negative, cs) := readSign cs
  (literal? cs).map (ofLiteral negative)

/-! ## The fewest digits -/

/-- Where a number halfway between two neighbours of one length goes. -/
inductive Tie where
  | away
  | toEven
deriving DecidableEq

/-- Whether the upper of two neighbours is taken; `below` and `above` are the distances to them, and
`d` is the lower one. -/
def Tie.takesUpper (tie : Tie) (below above d : Nat) : Bool :=
  if above < below then true
  else if below < above then false
  else match tie with
    | .away => true
    | .toEven => d % 2 == 1

/-- A number and the ends of the interval of reals that round to it, as multiples of one unit. -/
structure Interval where
  low : Nat
  value : Nat
  high : Nat
  unit : Nat
  closed : Bool

/-- The interval of a finite number other than zero, in units of a quarter of its last place. Below
a power of two the numbers lie half as far apart as above it. -/
def interval (f : Binary64) : Interval :=
  let m := f.significand
  let (scale, unit) := match f.exponent - 2 with
    | .ofNat e => (Nat.pow 2 e, 1)
    | .negSucc e => (1, Nat.pow 2 (e + 1))
  let low := if m = exponentUnit ∧ 1 < f.biased then 4 * m - 1 else 4 * m - 2
  { low := low * scale
    value := 4 * m * scale
    high := (4 * m + 2) * scale
    unit := unit
    closed := m % 2 == 0 }

/-- All parts of the interval are divided by `10^k`. -/
def Interval.inUnitsOf (i : Interval) : Int → Interval
  | .ofNat k => { i with unit := i.unit * Nat.pow 10 k }
  | .negSucc k =>
    let s := Nat.pow 10 (k + 1)
    { i with low := i.low * s, value := i.value * s, high := i.high * s }

/-- The whole number of units in the interval, if there is one, that is nearest to the value. -/
def Interval.nearest? (i : Interval) (tie : Tie) : Option Nat :=
  let d := i.value / i.unit
  let lower := d * i.unit
  let upper := lower + i.unit
  let hitsLower := i.low < lower || (i.closed && i.low == lower)
  let hitsUpper := upper < i.high || (i.closed && upper == i.high)
  if hitsLower && hitsUpper then
    some (if tie.takesUpper (i.value - lower) (upper - i.value) d then d + 1 else d)
  else if hitsLower then some d
  else if hitsUpper then some (d + 1)
  else none

/-- The power of ten of the first digit of `num / den`. -/
def leadingPower (num den : Nat) : Int :=
  if den ≤ num then (digits (num / den)).length - 1
  else -((digits ((den - 1) / num)).length : Int)

/-- Digits scaled by a power of ten. -/
structure Decimal where
  digits : List Char
  exponent : Int

/-- The power of ten of the first digit. -/
def Decimal.leading (d : Decimal) : Int :=
  d.digits.length + d.exponent - 1

/-- Zeros at the end are moved into the exponent, one digit always stays. -/
def Decimal.stripZeros (d : Decimal) : Decimal :=
  let kept := (d.digits.reverse.dropWhile (· == '0')).reverse
  if kept.isEmpty then ⟨['0'], 0⟩
  else ⟨kept, d.exponent + (d.digits.length - kept.length)⟩

/-- The fewest digits that read back as the magnitude of a finite number. Of the numerals with that
many digits it is the nearest one, and `tie` settles a tie. Seventeen digits are always enough. -/
def shortest (tie : Tie) (f : Binary64) : Decimal :=
  if f.isZero then ⟨['0'], 0⟩
  else
    let i := f.interval
    let first := leadingPower i.value i.unit
    let found := (List.range 17).findSome? fun (n : Nat) =>
      let k := first - (n : Int)
      ((i.inUnitsOf k).nearest? tie).map fun d => (d, k)
    let (d, k) := found.getD (f.significand, f.exponent)
    Decimal.stripZeros ⟨digits d, k⟩

/-! ## Layout -/

/-- Digits with a point where it belongs and without an exponent. -/
def Decimal.positional (d : Decimal) : List Char :=
  match d.exponent with
  | .ofNat e => d.digits ++ List.replicate e '0'
  | .negSucc e =>
    let places := e + 1
    if places < d.digits.length then
      d.digits.take (d.digits.length - places) ++ '.' :: d.digits.drop (d.digits.length - places)
    else
      '0' :: '.' :: (List.replicate (places - d.digits.length) '0' ++ d.digits)

/-- One digit before the point, and a signed exponent. -/
def Decimal.scientific (d : Decimal) : List Char :=
  let mantissa := match d.digits with
    | c :: c' :: cs => c :: '.' :: c' :: cs
    | cs => cs
  match d.leading with
  | .ofNat e => mantissa ++ 'e' :: '+' :: Text.digits e
  | .negSucc e => mantissa ++ 'e' :: '-' :: Text.digits (e + 1)

/-- A minus sign before a negative number, zero included. -/
def withMinus (f : Binary64) (cs : List Char) : List Char :=
  if f.isNegative then '-' :: cs else cs

/-- The display text: never an exponent, no point in whole numbers. -/
def display (f : Binary64) : List Char :=
  if f.isFinite then f.withMinus (f.shortest .away).positional
  else if f.isNaN then ['N', 'a', 'N']
  else f.withMinus ['i', 'n', 'f']

/-- The text in a JSON document: powers of ten from -5 to 15 without an exponent and always with a
point, all others with an exponent. A number that is not finite has none. -/
def jsonNumeral? (f : Binary64) : Option (List Char) :=
  if f.isFinite then
    let d := f.shortest .toEven
    if -5 ≤ d.leading ∧ d.leading < 16 then
      match d.exponent with
      | .ofNat _ => some (f.withMinus (d.positional ++ ['.', '0']))
      | .negSucc _ => some (f.withMinus d.positional)
    else
      some (f.withMinus d.scientific)
  else
    none

end PathQuery.Binary64
