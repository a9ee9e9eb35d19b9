import PathQuery.Binary64.Numeral
import PathQuery.Text.Numeral

/-!
# Json — documents with ordered fields and their compact text

The text has no spaces and keeps the order of fields. Only quotes, backslashes and control
characters are escaped.
-/

namespace PathQuery

open PathQuery.Text

/-- A document. The fields of an object keep their order. -/
inductive Json where
  | null
  | bool (b : Bool)
  | int (i : Int)
  | real (f : Binary64)
  | str (s : String)
  | arr (items : List Json)
  | obj (fields : List (String × Json))

namespace Json

/-- How one character stands inside quotes. -/
def escapeChar (c : Char) : List Char :=
  if c = '"' then ['\\', '"']
  else if c = '\\' then ['\\', '\\']
  else if c = '\x08' then ['\\', 'b']
  else if c = '\t' then ['\\', 't']
  else if c = '\n' then ['\\', 'n']
  else if c = '\x0c' then ['\\', 'f']
  else if c = '\r' then ['\\', 'r']
  else if c.toNat < 0x20 then ['\\', 'u', '0', '0'] ++ hexDigits 2 c.toNat
  else [c]

def quote (s : String) : List Char :=
  '"' :: (s.toList.flatMap escapeChar ++ ['"'])

/-- A number that is not finite has no numeral and becomes `null`. -/
def realText (f : Binary64) : List Char :=
  f.jsonNumeral?.getD ['n', 'u', 'l', 'l']

mutual

/-- The compact text, as characters. -/
def chars : Json → List Char
  | .null => ['n', 'u', 'l', 'l']
  | .bool true => ['t', 'r', 'u', 'e']
  | .bool false => ['f', 'a', 'l', 's', 'e']
  | .int i => signed i
  | .real f => realText f
  | .str s => quote s
  | .arr items => '[' :: (itemChars items ++ [']'])
  | .obj fields => '\x7b' :: (fieldChars fields ++ ['\x7d'])

/-- Items with commas between them. -/
def itemChars : List Json → List Char
  | [] => []
  | [v] => chars v
  | v :: w :: vs => chars v ++ ',' :: itemChars (w :: vs)

/-- Fields with commas between them. -/
def fieldChars : List (String × Json) → List Char
  | [] => []
  | [(k, v)] => quote k ++ ':' :: chars v
  | (k, v) :: f :: fs => quote k ++ ':' :: (chars v ++ ',' :: fieldChars (f :: fs))

end

/-- The compact text. -/
def text (j : Json) : String :=
  String.ofList j.chars

/-- A value that may be missing. -/
def ofOption {α : Type} (f : α → Json) : Option α → Json
  | none => .null
  | some a => f a

/-- The value of the first field of that name. -/
def field? (name : String) : Json → Option Json
  | .obj fields => (fields.find? fun f => f.1 == name).map (·.2)
  | _ => none

end Json

end PathQuery
