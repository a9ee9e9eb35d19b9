import PathQuery.Settings.Setting

/-!
# Json — documents in JSON

The strict grammar: no comments, no trailing commas, escapes for control characters, nothing after
the document. Of two fields with one name the later counts.
-/

namespace PathQuery.Document

open PathQuery.Text

namespace Json

/-- Blanks between tokens. -/
def skip (cs : List Char) : List Char :=
  cs.dropWhile fun c => c == ' ' || c == '\t' || c == '\n' || c == '\r'

/-- The character of a one-letter escape. -/
def escaped? : Char → Option Char
  | '"' => some '"'
  | '\\' => some '\\'
  | '/' => some '/'
  | 'b' => some '\x08'
  | 'f' => some '\x0c'
  | 'n' => some '\n'
  | 'r' => some '\r'
  | 't' => some '\t'
  | _ => none

/-- Reads a string up to its closing quote. -/
def readString : Nat → List Char → Option (List Char × List Char)
  | 0, _ => none
  | _ + 1, [] => none
  | fuel + 1, c :: cs =>
    if c = '"' then some ([], cs)
    else if c = '\\' then
      match cs with
      | [] => none
      | e :: cs => do
        let (c, cs) ← if e = 'u' then readUnits cs else (escaped? e).map fun c => (c, cs)
        let (text, rest) ← readString fuel cs
        return (c :: text, rest)
    else if c.toNat < 0x20 then none
    else do
      let (text, rest) ← readString fuel cs
      return (c :: text, rest)

/-! ## Numbers

The digits of a number are gathered into a significand of sixty-four bits, and digits that it has no
room for only count for their place. A number that is not whole is the significand times or over a
power of ten, and each of the two is rounded: so it can be a neighbour of the number that lies
nearest to the text.
-/

/-- The significand with one more digit, if there is room for it. -/
def append? (significand : Nat) (d : Char) : Option Nat :=
  let n := significand * 10 + digitsValue [d]
  if n < 0x10000000000000000 then some n else none

/-- Gathers digits. The second number says how many of them there was no room for. -/
def gather (significand : Nat) : List Char → Nat × Nat
  | [] => (significand, 0)
  | d :: ds =>
    match append? significand d with
    | some n => gather n ds
    | none => (significand, ds.length + 1)

/-- The number nearest to a power of ten. -/
def powerOfTen (k : Nat) : Binary64 :=
  .ofDecimal false 1 k

/-- The exponent of the largest power of ten that is finite. -/
def largestPower : Nat :=
  308

/-- Divides by a power of ten, in steps no larger than the largest of them that is finite. -/
def shrink (f : Binary64) (k : Nat) : Binary64 :=
  if k ≤ largestPower then f.dividedBy (powerOfTen k)
  else if f.isZero then f
  else shrink (f.dividedBy (powerOfTen largestPower)) (k - largestPower)
termination_by k
decreasing_by
  unfold largestPower at *
  omega

/-- The significand scaled by a power of ten, if the result is finite. -/
def scale? (significand : Nat) : Int → Option Binary64
  | .negSucc k => some (shrink (.ofInt significand) (k + 1))
  | .ofNat k =>
    if significand = 0 then some (.ofInt 0)
    else if k ≤ largestPower then
      some ((Binary64.ofInt significand).times (powerOfTen k)) |>.filter Binary64.isFinite
    else none

/-- The digits of the whole part: a zero alone, or digits that do not begin with one. -/
def readWhole (cs : List Char) : Option (List Char × List Char) :=
  match Binary64.spanDigits cs with
  | ([], _) => none
  | ('0' :: _ :: _, _) => none
  | (ds, rest) => some (ds, rest)

/-- The digits behind a point, at least one of them, if there is a point. -/
def readPart : List Char → Option (Option (List Char) × List Char)
  | '.' :: cs =>
    match Binary64.spanDigits cs with
    | ([], _) => none
    | (ds, rest) => some (some ds, rest)
  | cs => some (none, cs)

/-- An exponent, if there is one. -/
def readPower : List Char → Option (Option Int × List Char)
  | [] => some (none, [])
  | e :: cs =>
    if e = 'e' ∨ e = 'E' then
      let (negative, cs) := match cs with
        | '+' :: cs => (false, cs)
        | '-' :: cs => (true, cs)
        | cs => (false, cs)
      match Binary64.spanDigits cs with
      | ([], _) => none
      | (ds, rest) =>
        let n : Int := digitsValue ds
        some (some (if negative then -n else n), rest)
    else
      some (none, e :: cs)

/-- A number without point and exponent is whole if sixty-four bits hold it, and minus zero is not
whole. -/
def numberOf (negative : Bool) (whole : List Char) (part : Option (List Char))
    (power : Option Int) : Option Setting :=
  let (n, dropped) := gather 0 whole
  let i : Int := if negative then -(n : Int) else n
  if part = none ∧ power = none ∧ dropped = 0 ∧ IsInt64 i ∧ !(negative && n == 0) then
    some (.whole i)
  else
    -- digits behind the point go on filling the significand
    let ds := part.getD []
    let (n, left) := gather n ds
    let places : Int := (dropped : Int) - (ds.length - left : Nat)
    (scale? n (places + power.getD 0)).map fun f => .real (if negative then f.negate else f)

def readNumber (cs : List Char) : Option (Setting × List Char) := do
  let (negative, cs) := match cs with
    | '-' :: cs => (true, cs)
    | cs => (false, cs)
  let (whole, cs) ← readWhole cs
  let (part, cs) ← readPart cs
  let (power, cs) ← readPower cs
  return (← numberOf negative whole part power, cs)

/-! ## Values -/

mutual

/-- Reads a value; `depth` bounds the nesting. -/
def readValue : Nat → Nat → List Char → Option (Setting × List Char)
  | 0, _, _ => none
  | fuel + 1, depth, cs =>
    match skip cs with
    | 'n' :: 'u' :: 'l' :: 'l' :: cs => some (.null, cs)
    | 't' :: 'r' :: 'u' :: 'e' :: cs => some (.flag true, cs)
    | 'f' :: 'a' :: 'l' :: 's' :: 'e' :: cs => some (.flag false, cs)
    | '"' :: cs => (readString (cs.length + 1) cs).map fun (s, cs) => (.text (String.ofList s), cs)
    | '[' :: cs =>
      if depth = 0 then none
      else match skip cs with
        | ']' :: cs => some (.list, cs)
        | cs => (readItems fuel (depth - 1) cs).map fun cs => (.list, cs)
    | '\x7b' :: cs =>
      if depth = 0 then none
      else match skip cs with
        | '\x7d' :: cs => some (.table [], cs)
        | cs => (readFields fuel (depth - 1) cs).map fun (fs, cs) => (.table fs, cs)
    | cs => readNumber cs

/-- Reads the items of a list that is not empty, and the bracket after them. -/
def readItems : Nat → Nat → List Char → Option (List Char)
  | 0, _, _ => none
  | fuel + 1, depth, cs => do
    let (_, cs) ← readValue fuel depth cs
    match skip cs with
    | ']' :: cs => some cs
    | ',' :: cs => readItems fuel depth cs
    | _ => none

/-- Reads the fields of an object that is not empty, and the brace after them. -/
def readFields : Nat → Nat → List Char → Option (Document × List Char)
  | 0, _, _ => none
  | fuel + 1, depth, cs =>
    match skip cs with
    | '"' :: cs => do
      let (name, cs) ← readString (cs.length + 1) cs
      match skip cs with
      | ':' :: cs =>
        let (v, cs) ← readValue fuel depth cs
        match skip cs with
        | '\x7d' :: cs => some ([(String.ofList name, v)], cs)
        | ',' :: cs =>
          let (fields, cs) ← readFields fuel depth cs
          return ((String.ofList name, v) :: fields, cs)
        | _ => none
      | _ => none
    | _ => none

end

/-- Of fields with one name only the last stays. -/
def keepLast : Document → Document
  | [] => []
  | f :: fs => if fs.any fun g => g.1 == f.1 then keepLast fs else f :: keepLast fs

end Json

/-- The fields of an object in JSON, which nests less than 128 deep. -/
def ofJson? (text : String) : Option Document :=
  let cs := text.toList
  match Json.readValue (2 * cs.length + 2) 127 cs with
  | some (.table fields, rest) => if Json.skip rest = [] then some (Json.keepLast fields) else none
  | _ => none

end PathQuery.Document
