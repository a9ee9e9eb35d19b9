import PathQuery.Text.Numeral

/-!
# Escape — characters named by their code points
-/

namespace PathQuery.Text

/-- Reads exactly `width` hexadecimal digits. -/
def readCode (width : Nat) (cs : List Char) : Option (Nat × List Char) :=
  let ds := cs.take width
  if ds.length = width then (readHex 0 ds).map fun n => (n, cs.drop width) else none

/-- The character of a code point; surrogates are none. -/
def ofCode? (n : Nat) : Option Char :=
  if n.isValidChar then some (Char.ofNat n) else none

/-- Reads the character that hexadecimal digits of a fixed number name. -/
def readCodeChar (width : Nat) (cs : List Char) : Option (Char × List Char) := do
  let (n, rest) ← readCode width cs
  return (← ofCode? n, rest)

/-- Reads four digits, or two groups of four that make up a surrogate pair. -/
def readUnits (cs : List Char) : Option (Char × List Char) := do
  let (high, rest) ← readCode 4 cs
  if 0xD800 ≤ high ∧ high < 0xDC00 then
    match rest with
    | '\\' :: 'u' :: rest =>
      let (low, rest) ← readCode 4 rest
      if 0xDC00 ≤ low ∧ low < 0xE000 then
        return (← ofCode? (0x10000 + (high - 0xD800) * 0x400 + (low - 0xDC00)), rest)
      else
        none
    | _ => none
  else
    return (← ofCode? high, rest)

/-- Upper-case letters of ASCII become lower-case ones, and so does the sign for the unit kelvin,
which is a `k`. -/
def lowerChar (c : Char) : Char :=
  if c = '\u212a' then 'k' else c.toLower

/-- The text in lower case, as far as ASCII words are concerned. -/
def lower (s : String) : String :=
  String.ofList (s.toList.map lowerChar)

end PathQuery.Text
