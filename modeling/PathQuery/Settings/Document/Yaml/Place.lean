/-!
# Place — a place in a YAML document

What is left of the document, with the line and the column at which it begins. All moves go forward.
-/

namespace PathQuery.Document.Yaml

/-! ## Characters -/

def isBreak (c : Char) : Bool :=
  c == '\n' || c == '\r'

def isSpace (c : Char) : Bool :=
  c == ' ' || c == '\t'

/-- The signs of collections in brackets. -/
def isFlowSign (c : Char) : Bool :=
  c ∈ [',', '[', ']', '\x7b', '\x7d']

/-- The characters of directive names and tag handles. -/
def isHandleChar (c : Char) : Bool :=
  c.isAlphanum || c == '_' || c == '-'

/-- Whether a line break or the end comes next. -/
def atLineEnd : List Char → Bool
  | [] => true
  | c :: _ => isBreak c

/-- Whether a blank, a line break or the end comes next. -/
def atWordEnd : List Char → Bool
  | [] => true
  | c :: _ => isSpace c || isBreak c

/-- Whether a sign of collections in brackets comes next. -/
def atFlowSign : List Char → Bool
  | [] => false
  | c :: _ => isFlowSign c

/-! ## Places -/

/-- A place in a document. -/
structure Place where
  rest : List Char
  /-- how many characters stand before it -/
  index : Nat
  line : Nat
  column : Nat
  /-- whether nothing but blanks stands before it on its line -/
  leading : Bool

namespace Place

/-- Where a document begins. -/
def start (cs : List Char) : Place :=
  ⟨cs, 0, 0, 0, true⟩

/-- Goes over characters none of which is a blank or a line break. -/
def skip (p : Place) (n : Nat) : Place :=
  { p with
    rest := p.rest.drop n
    index := p.index + n
    column := p.column + n
    leading := p.leading && n == 0 }

/-- Goes over blanks. -/
def skipSpaces (p : Place) (n : Nat) : Place :=
  { p with rest := p.rest.drop n, index := p.index + n, column := p.column + n }

/-- Goes over the line break at the front, if there is one. -/
def skipBreak (p : Place) : Place :=
  match p.rest with
  | '\r' :: '\n' :: rest => ⟨rest, p.index + 2, p.line + 1, 0, true⟩
  | '\r' :: rest | '\n' :: rest => ⟨rest, p.index + 1, p.line + 1, 0, true⟩
  | _ => p

/-- The characters at the front with a property that no line break has, and the place behind them.
They do not begin with a blank. -/
def span (p : Place) (has : Char → Bool) : List Char × Place :=
  let word := p.rest.takeWhile has
  (word, p.skip word.length)

/-- Goes to the end of the line. -/
def skipLine (p : Place) : Place :=
  (p.span fun c => !isBreak c).2

/-- Goes over the blanks at the front. -/
def skipAllSpaces (p : Place) : Place :=
  p.skipSpaces (p.rest.takeWhile isSpace).length

/-- Whether three times the same sign begin the line and nothing is attached to them. -/
def atMarker (p : Place) (sign : Char) : Bool :=
  p.column == 0 && p.rest.take 3 == [sign, sign, sign] && atWordEnd (p.rest.drop 3)

/-- Whether a marker of a document begins or ends here. -/
def atDocumentMarker (p : Place) : Bool :=
  p.atMarker '-' || p.atMarker '.'

end Place

/-- Blanks on a line: which kinds there were, and the place behind them and the comment that may
follow them. -/
structure Gap where
  spaces : Bool
  tabs : Bool
  behind : Place

/-- Goes over blanks and a comment. The comment has to have a blank before it. -/
def Place.gap? (p : Place) (tabs : Bool) : Option Gap :=
  let blanks := p.rest.takeWhile fun c => c == ' ' || (tabs && c == '\t')
  let q := p.skipSpaces blanks.length
  let found (q : Place) : Gap := ⟨blanks.contains ' ', blanks.contains '\t', q⟩
  match q.rest with
  | '#' :: _ => if blanks.isEmpty then none else some (found q.skipLine)
  | _ => some (found q)

end PathQuery.Document.Yaml
