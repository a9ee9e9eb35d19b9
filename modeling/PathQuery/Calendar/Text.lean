import PathQuery.Calendar.Basic
import PathQuery.Text.Blank
import PathQuery.Text.Numeral

/-!
# Text — dates and times written and read

Written: `year-month-day`, and `year-month-dayThour:minute:second` with as many groups of three
decimals as the nanoseconds need. Read: the same with shorter fields and blanks before a field, or
the strict form of internet time stamps, which names an offset.
-/

namespace PathQuery

open PathQuery.Text

/-! ## Writing -/

/-- Four digits, behind a sign if the year has more than four or lies before year zero. -/
def yearText (year : Int) : List Char :=
  if 0 ≤ year ∧ year ≤ 9999 then padded 4 year.toNat
  else (if year < 0 then '-' else '+') :: padded 4 year.natAbs

def Date.text (d : Date) : List Char :=
  yearText d.year ++ '-' :: (padded 2 d.month ++ '-' :: padded 2 d.day)

/-- No decimals for a whole second, otherwise three, six or nine. -/
def decimalsText (nano : Nat) : List Char :=
  if nano = 0 then []
  else if nano % 1000000 = 0 then '.' :: padded 3 (nano / 1000000)
  else if nano % 1000 = 0 then '.' :: padded 6 (nano / 1000)
  else '.' :: padded 9 nano

/-- A leap second is shown as second 60. -/
def TimeOfDay.text (t : TimeOfDay) : List Char :=
  padded 2 t.hour ++ ':' :: (padded 2 t.minute ++ ':' ::
    (padded 2 (t.second + t.nano / 1000000000) ++ decimalsText (t.nano % 1000000000)))

def DateTime.text (dt : DateTime) : List Char :=
  dt.date.text ++ 'T' :: dt.time.text

/-! ## Reading with forgiving fields -/

/-- The character has to stand at the front. -/
def expect (c : Char) : List Char → Option (List Char)
  | [] => none
  | d :: cs => if d = c then some cs else none

/-- A year behind a sign has any number of digits, one without a sign at most four. -/
def readYear (cs : List Char) : Option (Int × List Char) :=
  match skipBlanks cs with
  | '-' :: cs => (readDigits cs.length cs).map fun (n, rest) => (-(n : Int), rest)
  | '+' :: cs => (readDigits cs.length cs).map fun (n, rest) => ((n : Int), rest)
  | cs => (readDigits 4 cs).map fun (n, rest) => ((n : Int), rest)

/-- One or two digits, behind any blanks. -/
def readField (cs : List Char) : Option (Nat × List Char) :=
  readDigits 2 (skipBlanks cs)

def readDate (cs : List Char) : Option (Date × List Char) := do
  let (year, cs) ← readYear cs
  let cs ← expect '-' cs
  let (month, cs) ← readField cs
  let cs ← expect '-' cs
  let (day, cs) ← readField cs
  let date ← Date.of? year month day
  return (date, cs)

/-- The decimals of a second after a point, if there is one. Of more than nine digits the rest has
no effect. -/
def readDecimals : List Char → Option (Nat × List Char)
  | '.' :: cs =>
    match digitRun 9 cs with
    | ([], _) => none
    | (ds, rest) => some (digitsValue ds * Nat.pow 10 (9 - ds.length), rest.dropWhile Char.isDigit)
  | cs => some (0, cs)

def readTime (cs : List Char) : Option (TimeOfDay × List Char) := do
  let (hour, cs) ← readField cs
  let cs ← expect ':' cs
  let (minute, cs) ← readField cs
  let cs ← expect ':' cs
  let (second, cs) ← readField cs
  let (nano, cs) ← readDecimals cs
  let time ← TimeOfDay.ofClock? hour minute second nano
  return (time, cs)

/-- Nothing may be left over. -/
def whole? {α : Type} : Option (α × List Char) → Option α
  | some (a, []) => some a
  | _ => none

def Date.read? (cs : List Char) : Option Date :=
  whole? (readDate cs)

/-- A date and a time with a capital `T` between them. -/
def DateTime.readJoined? (cs : List Char) : Option DateTime := do
  let (date, cs) ← readDate cs
  let cs ← expect 'T' cs
  let time ← whole? (readTime cs)
  return ⟨date, time⟩

/-- A date and a time with any number of blanks between them. -/
def DateTime.readSpaced? (cs : List Char) : Option DateTime := do
  let (date, cs) ← readDate cs
  let time ← whole? (readTime (skipBlanks cs))
  return ⟨date, time⟩

/-! ## Reading time stamps -/

/-- The minutes by which a local time is ahead of universal time: a letter `Z`, or a sign, two
digits of hours below twenty-four, a colon and two digits of minutes. -/
def readOffset (cs : List Char) : Option Int :=
  match cs with
  | ['Z'] | ['z'] => some 0
  | sign :: cs => do
    let (hour, cs) ← readExactly 2 cs
    let cs ← expect ':' cs
    let minute ← whole? (readExactly 2 cs)
    if hour < 24 ∧ minute < 60 then
      if sign = '+' then some (hour * 60 + minute : Nat)
      else if sign = '-' ∨ sign = '\u2212' then some (-(hour * 60 + minute : Nat))
      else none
    else
      none
  | [] => none

/-- A letter `T` of either case or one space. -/
def readSeparator : List Char → Option (List Char)
  | 'T' :: cs | 't' :: cs | ' ' :: cs => some cs
  | _ => none

/-- A time stamp with fields of fixed width and an offset, as universal time. -/
def DateTime.readStamp? (cs : List Char) : Option DateTime := do
  let (year, cs) ← readExactly 4 cs
  let cs ← expect '-' cs
  let (month, cs) ← readExactly 2 cs
  let cs ← expect '-' cs
  let (day, cs) ← readExactly 2 cs
  let cs ← readSeparator cs
  let (hour, cs) ← readExactly 2 cs
  let cs ← expect ':' cs
  let (minute, cs) ← readExactly 2 cs
  let cs ← expect ':' cs
  let (second, cs) ← readExactly 2 cs
  let (nano, cs) ← readDecimals cs
  let offset ← readOffset cs
  let date ← Date.of? year month day
  let time ← TimeOfDay.ofClock? hour minute second nano
  DateTime.shift? ⟨date, time⟩ (-offset)

/-- A time stamp, a date with a time, or a date alone, which stands for its midnight. -/
def DateTime.read? (cs : List Char) : Option DateTime :=
  readStamp? cs <|> readJoined? cs <|> readSpaced? cs <|> (Date.read? cs).map Date.atMidnight

end PathQuery
