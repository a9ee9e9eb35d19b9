import PathQuery.Calendar.Text
import PathQuery.Settings.Setting

/-!
# Scalar — numbers, dates, times and truth values in TOML

Digits may have single underscores between them. A date, a time or both are read as their text.
Every reader takes what stands at the front and returns the rest.
-/

namespace PathQuery.Document.Toml

open PathQuery.Text

/-! ## Digits -/

/-- Reads one or more digits; an underscore stands between two of them. -/
def readRun (isDigit : Char → Bool) : List Char → Option (List Char × List Char)
  | [] => none
  | [c] => if isDigit c then some ([c], []) else none
  | c :: d :: cs =>
    if !isDigit c then none
    else if d = '_' then (readRun isDigit cs).map fun (ds, rest) => (c :: ds, rest)
    else if isDigit d then (readRun isDigit (d :: cs)).map fun (ds, rest) => (c :: ds, rest)
    else some ([c], d :: cs)

/-- Reads a zero alone, or digits that do not begin with one. -/
def readWhole : List Char → Option (List Char × List Char)
  | '0' :: cs => some (['0'], cs)
  | cs => readRun Char.isDigit cs

/-- An integer of sixty-four bits. -/
def fits? (i : Int) : Option Setting :=
  if IsInt64 i then some (.whole i) else none

/-! ## Numbers -/

/-- Reads the digits of a number in a base. -/
def readInBase (base : Nat) (cs : List Char) : Option (Setting × List Char) := do
  let value (c : Char) : Option Nat := (hexValue c).filter (· < base)
  let (ds, rest) ← readRun (fun c => (value c).isSome) cs
  let n := ds.foldl (fun (n : Nat) c => n * base + (value c).getD 0) 0
  return (← fits? n, rest)

/-- Reads the digits behind a point, if there is one. -/
def readPart : List Char → Option (List Char × List Char)
  | '.' :: cs => (readRun Char.isDigit cs).map fun (ds, rest) => ('.' :: ds, rest)
  | cs => some ([], cs)

/-- Reads an exponent, if there is one. -/
def readPower : List Char → Option (List Char × List Char)
  | [] => some ([], [])
  | e :: cs =>
    if e = 'e' ∨ e = 'E' then
      let (sign, cs) := match cs with
        | '+' :: cs => (['+'], cs)
        | '-' :: cs => (['-'], cs)
        | cs => ([], cs)
      (readRun Char.isDigit cs).map fun (ds, rest) => ('e' :: (sign ++ ds), rest)
    else
      some ([], e :: cs)

/-- Reads a decimal number behind its sign. It is whole if it has neither point nor exponent. One
too large to be finite is refused if it is positive. -/
def readDecimal (negative : Bool) (cs : List Char) : Option (Setting × List Char) := do
  let (whole, cs) ← readWhole cs
  let (part, cs) ← readPart cs
  let (power, cs) ← readPower cs
  if part = [] ∧ power = [] then
    let n : Int := digitsValue whole
    return (← fits? (if negative then -n else n), cs)
  else
    let literal ← Binary64.finite? (whole ++ part ++ power)
    let f := Binary64.ofLiteral negative literal
    if f = Binary64.infinity false then none else return (.real f, cs)

/-- Reads a number without its sign. -/
def readUnsigned (negative : Bool) : List Char → Option (Setting × List Char)
  | 'i' :: 'n' :: 'f' :: cs => some (.real (.infinity negative), cs)
  | 'n' :: 'a' :: 'n' :: cs => some (.real (.nan negative), cs)
  | cs => readDecimal negative cs

/-- Reads a number. Those in other bases have no sign. -/
def readNumber : List Char → Option (Setting × List Char)
  | '+' :: cs => readUnsigned false cs
  | '-' :: cs => readUnsigned true cs
  | '0' :: 'x' :: cs => readInBase 16 cs
  | '0' :: 'o' :: cs => readInBase 8 cs
  | '0' :: 'b' :: cs => readInBase 2 cs
  | cs => readUnsigned false cs

/-! ## Dates and times -/

/-- Reads a time of day in an hour up to `last`. Its text has as many decimals as it needs. -/
def readClock (last : Nat) (cs : List Char) : Option (List Char × List Char) := do
  let (hour, cs) ← readExactly 2 cs
  let cs ← expect ':' cs
  let (minute, cs) ← readExactly 2 cs
  let cs ← expect ':' cs
  let (second, cs) ← readExactly 2 cs
  let (nano, rest) ← readDecimals cs
  if hour ≤ last ∧ minute < 60 ∧ second ≤ 60 then
    let decimals := ((padded 9 nano).reverse.dropWhile (· == '0')).reverse
    let text := padded 2 hour ++ ':' :: (padded 2 minute ++ ':' :: padded 2 second)
    return (if nano = 0 then text else text ++ '.' :: decimals, rest)
  else
    none

/-- The text of an offset of minutes. One of no minutes has a plus sign. -/
def shiftText (negative : Bool) (minutes : Nat) : List Char :=
  (if negative && minutes != 0 then '-' else '+') ::
    (padded 2 (minutes / 60) ++ ':' :: padded 2 (minutes % 60))

/-- Reads an offset: nothing, a letter, or such hours and minutes behind a sign that `fits`
holds. -/
def readShift (fits : Nat → Nat → Bool) (cs : List Char) : Option (List Char × List Char) :=
  match cs with
  | 'Z' :: rest | 'z' :: rest => some (['Z'], rest)
  | '+' :: rest => readSigned false rest
  | '-' :: rest => readSigned true rest
  | cs => some ([], cs)
where
  readSigned (negative : Bool) (cs : List Char) : Option (List Char × List Char) := do
    let (hour, cs) ← readExactly 2 cs
    let cs ← expect ':' cs
    let (minute, cs) ← readExactly 2 cs
    if fits hour minute then return (shiftText negative (hour * 60 + minute), cs) else none

/-- Reads a date. -/
def readDay (cs : List Char) : Option (List Char × List Char) := do
  let (year, cs) ← readExactly 4 cs
  let cs ← expect '-' cs
  let (month, cs) ← readExactly 2 cs
  let cs ← expect '-' cs
  let (day, cs) ← readExactly 2 cs
  let date ← Date.of? year month day
  return (date.text, cs)

/-- Reads a time and its offset behind a separator. -/
def readTimeOfDay (last : Nat) (fits : Nat → Nat → Bool) (cs : List Char) :
    Option (List Char × List Char) := do
  let (time, cs) ← readClock last (← readSeparator cs)
  let (shift, cs) ← readShift fits cs
  return (time ++ shift, cs)

/-- Reads a date, a time or both. What follows a date and is no time does not belong to it. -/
def readMoment (cs : List Char) : Option (List Char × List Char) :=
  match readDay cs with
  | none => readClock 23 cs
  | some (date, cs) =>
    match readTimeOfDay 23 (fun hour minute => hour < 24 && minute < 60) cs with
    | none => some (date, cs)
    | some (time, rest) => some (date ++ 'T' :: time, rest)

/-- The text of the date, the time or both that a whole text in quotes stands for. The rules are
wider than those without quotes: the hour can be 24, and an offset is any number of minutes up to a
day. -/
def quotedMoment? (cs : List Char) : Option (List Char) :=
  if cs[2]? = some ':' then whole? (readClock 24 cs)
  else
    match readDay cs with
    | none => none
    | some (date, []) => some date
    | some (date, cs) =>
      (whole? (readTimeOfDay 24 (fun hour minute => hour * 60 + minute ≤ 1440) cs)).map
        fun time => date ++ 'T' :: time

/-! ## Words -/

/-- Reads a truth value or a number. -/
def readWord : List Char → Option (Setting × List Char)
  | 't' :: 'r' :: 'u' :: 'e' :: cs => some (.flag true, cs)
  | 'f' :: 'a' :: 'l' :: 's' :: 'e' :: cs => some (.flag false, cs)
  | cs => readNumber cs

end PathQuery.Document.Toml
