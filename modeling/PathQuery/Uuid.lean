import PathQuery.Text.Numeral

/-!
# Uuid — identifiers of one hundred and twenty-eight bits

Written as lower-case digits in groups of 8, 4, 4, 4 and 12. Read in four spellings, with digits of
either case.
-/

namespace PathQuery

open PathQuery.Text

/-- A 128-bit identifier. -/
structure Uuid where
  value : BitVec 128
deriving DecidableEq, Inhabited

namespace Uuid

/-- The thirty-two digits without hyphens. -/
def plain (u : Uuid) : List Char :=
  hexDigits 32 u.value.toNat

/-- Puts hyphens between the groups of thirty-two digits. -/
def hyphenate (ds : List Char) : List Char :=
  ds.take 8 ++ '-' :: ((ds.drop 8).take 4 ++ '-' :: ((ds.drop 12).take 4 ++ '-' ::
    ((ds.drop 16).take 4 ++ '-' :: ds.drop 20)))

/-- The written form. -/
def text (u : Uuid) : List Char :=
  hyphenate u.plain

/-- Takes the hyphens out, each of which has to stand in its place. -/
def unhyphenate? (cs : List Char) : Option (List Char) :=
  if cs.length = 36 ∧ cs[8]? = some '-' ∧ cs[13]? = some '-' ∧ cs[18]? = some '-' ∧
      cs[23]? = some '-' then
    some (cs.take 8 ++ ((cs.drop 9).take 4 ++ ((cs.drop 14).take 4 ++
      ((cs.drop 19).take 4 ++ cs.drop 24))))
  else
    none

/-- Reads thirty-two digits. -/
def ofPlain? (cs : List Char) : Option Uuid :=
  if cs.length = 32 then (readHex 0 cs).map fun n => ⟨.ofNat 128 n⟩ else none

/-- Reads digits with hyphens. -/
def ofHyphenated? (cs : List Char) : Option Uuid :=
  (unhyphenate? cs).bind ofPlain?

/-- Whether the text begins as the resource name of an identifier does, in letters of any case. -/
def isResourceName (cs : List Char) : Bool :=
  (cs.take 9).map Char.toLower == "urn:uuid:".toList

/-- Reads thirty-two digits, a hyphenated form, a hyphenated form in braces, or one behind a
resource name. -/
def read? (cs : List Char) : Option Uuid :=
  match cs.length with
  | 32 => ofPlain? cs
  | 36 => ofHyphenated? cs
  | 38 =>
    if cs.head? = some '\x7b' ∧ cs.getLast? = some '\x7d' then
      ofHyphenated? ((cs.drop 1).take 36)
    else
      none
  | 45 => if isResourceName cs then ofHyphenated? (cs.drop 9) else none
  | _ => none

end Uuid

end PathQuery
