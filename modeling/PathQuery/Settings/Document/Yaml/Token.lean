import PathQuery.Settings.Document.Yaml.Scalar

/-!
# Token — the signs and scalars of a YAML document

The structure of a document lies in its signs and in its indentation. Reading it once from front to
back gives a list of tokens in which both are explicit: where a column opens or closes a collection
there is a token for it, and a key that is only known by the colon behind it has its token put in
front of it afterwards.

`tokens?` gives the tokens of a document, or nothing where it is malformed.
-/

namespace PathQuery.Document.Yaml

open PathQuery.Text

/-- A sign or scalar of a document. -/
inductive Token where
  /-- a directive that names the version -/
  | version
  /-- a directive that says what the handle of a tag stands for -/
  | tagHandle (handle target : List Char)
  | documentStart
  | documentEnd
  | blockSequence
  | blockMapping
  | blockEnd
  /-- the hyphen of an item -/
  | blockEntry
  | flowSequence
  | flowSequenceEnd
  | flowMapping
  | flowMappingEnd
  /-- the comma of an item -/
  | flowEntry
  | key
  | value
  /-- a name for the node that follows -/
  | anchor (name : List Char)
  /-- the node of that name once more -/
  | reference (name : List Char)
  | tag (handle suffix : List Char)
  | scalar (plain : Bool) (text : List Char)
deriving DecidableEq, Repr

/-! ## Tags and names -/

/-- The characters of tags, escapes among them. -/
def isUriChar (c : Char) : Bool :=
  c.isAlphanum || c ∈ "-#;/?:@&=+$,_.!~*'()[]%".toList

/-- The characters of tags behind a handle. -/
def isTagChar (c : Char) : Bool :=
  isUriChar c && !isFlowSign c && c != '!'

/-- The characters of anchors. -/
def isAnchorChar (c : Char) : Bool :=
  !isSpace c && !isBreak c && !isFlowSign c && c != '\ufeff'

/-- Reads a percent sign and the two hexadecimal digits of a byte. -/
def readByte : List Char → Option (Nat × List Char)
  | '%' :: cs => readCode 2 cs
  | _ => none

/-- Reads an escaped character. It is a byte below 128, or a leading byte and a trailing one that
make up the number of a character together. -/
def readEscaped (cs : List Char) : Option (Char × List Char) := do
  let (high, cs) ← readByte cs
  if high < 0x80 then return (← ofCode? high, cs)
  else if 0xC0 ≤ high ∧ high < 0xE0 then
    let (low, cs) ← readByte cs
    if 0x80 ≤ low ∧ low < 0xC0 then return (← ofCode? (high * 0x100 + low), cs) else none
  else none

/-- Reads the characters of a tag, which may be escaped; `fuel` bounds their number. -/
def readUri (has : Char → Bool) : Nat → List Char → Option (List Char × List Char)
  | _, [] => some ([], [])
  | 0, _ => none
  | fuel + 1, c :: cs =>
    if !has c then some ([], c :: cs)
    else do
      let (c, cs) ← if c = '%' then readEscaped (c :: cs) else some (c, cs)
      let (more, rest) ← readUri has fuel cs
      return (c :: more, rest)

/-- Reads a tag: the whole of it between angle brackets, or a handle and a suffix. The sign alone
has no handle. -/
def readTag : List Char → Option (Token × List Char)
  | '!' :: '<' :: cs => do
    match ← readUri isUriChar cs.length cs with
    | (uri, '>' :: rest) => return (.tag [] uri, rest)
    | _ => none
  | '!' :: cs => do
    let word := cs.takeWhile isHandleChar
    match cs.drop word.length with
    | '!' :: cs =>
      let (suffix, rest) ← readUri isTagChar cs.length cs
      if suffix = [] then none else return (.tag ('!' :: (word ++ ['!'])) suffix, rest)
    | cs =>
      let (more, rest) ← readUri isTagChar cs.length cs
      match word ++ more with
      | [] => return (.tag [] ['!'], rest)
      | suffix => return (.tag ['!'] suffix, rest)
  | _ => none

/-- Reads the handle of a directive: one sign, two, or a word between two. -/
def readHandle : List Char → Option (List Char × List Char)
  | '!' :: cs =>
    let word := cs.takeWhile isHandleChar
    match cs.drop word.length with
    | '!' :: rest => some ('!' :: (word ++ ['!']), rest)
    | rest => if word = [] then some (['!'], rest) else none
  | _ => none

/-- Reads what a handle stands for: the beginning of a tag. -/
def readTarget (cs : List Char) : Option (List Char × List Char) :=
  match cs with
  | '!' :: cs => (readUri isUriChar cs.length cs).map fun (text, rest) => ('!' :: text, rest)
  | c :: _ => if isTagChar c then readUri isUriChar cs.length cs else none
  | [] => none

/-- Reads the number in a version: one to nine digits. -/
def readVersionPart (cs : List Char) : Option (List Char) :=
  let ds := cs.takeWhile Char.isDigit
  if 1 ≤ ds.length ∧ ds.length ≤ 9 then some (cs.drop ds.length) else none

/-- The place behind what was read of the line. -/
def Place.behind (p : Place) (rest : List Char) : Place :=
  p.skip (p.rest.length - rest.length)

/-! ## The state of reading -/

/-- A column at which a collection begins. -/
structure Level where
  column : Nat
  /-- Without one the column only says how far what follows has to be indented. -/
  isBlock : Bool

/-- Where a key may begin that a colon will tell. -/
structure KeySpot where
  /-- how many tokens stand before it -/
  number : Nat
  index : Nat
  line : Nat
  column : Nat
  /-- whether nothing but a key can stand there -/
  required : Bool

/-- What was read so far, and what it means for what follows. -/
structure Scan where
  place : Place
  /-- the last one first -/
  tokens : List Token
  count : Nat
  /-- whether a key may begin here -/
  keyAllowed : Bool
  /-- the spots of keys, the innermost first: one for the block and one for each pair of brackets
  around the place -/
  spots : List (Option KeySpot)
  /-- how many pairs of brackets are around the place -/
  flow : Nat
  /-- the innermost level first -/
  levels : List Level
  /-- where a colon needs no blank behind it -/
  adjacent : Nat
  /-- whether what stands in brackets is known to be a mapping -/
  mapping : Bool
  /-- whether a pair that stands alone in brackets has begun -/
  pair : Bool

namespace Scan

/-- Before the first token. -/
def start (cs : List Char) : Scan where
  place := .start cs
  tokens := []
  count := 0
  keyAllowed := true
  spots := [none]
  flow := 0
  levels := []
  adjacent := 0
  mapping := false
  pair := false

/-- The column of the innermost level. -/
def indent (s : Scan) : Int :=
  match s.levels with
  | [] => -1
  | l :: _ => l.column

/-- Whether the innermost level is that of a collection. -/
def inBlock (s : Scan) : Bool :=
  s.levels.head?.any Level.isBlock

def push (s : Scan) (t : Token) : Scan :=
  { s with tokens := t :: s.tokens, count := s.count + 1 }

/-- Puts a token behind the first `n`. -/
def insert (s : Scan) (n : Nat) (t : Token) : Scan :=
  { s with tokens := s.tokens.insertIdx (s.count - n) t, count := s.count + 1 }

/-! ## Levels -/

/-- Opens a collection at a column, unless one is open there, with its token behind the first `n`.
In brackets columns mean nothing. -/
def openBlock (s : Scan) (column n : Nat) (t : Token) : Scan :=
  if s.flow > 0 then s
  else
    -- a level that only says how far to indent gives way to the collection
    let s := if s.indent ≤ column && !s.inBlock then { s with levels := s.levels.drop 1 } else s
    if s.indent < column then
      { s.insert n t with levels := ⟨column, true⟩ :: s.levels }
    else
      s

/-- What follows inside the innermost collection has to be indented more than it. -/
def hang (s : Scan) : Scan :=
  match s.levels with
  | l :: _ =>
    if s.flow = 0 && l.isBlock then { s with levels := ⟨l.column + 1, false⟩ :: s.levels } else s
  | [] => s

/-- Keeps the innermost levels of collections only. -/
def unhang (s : Scan) : Scan :=
  { s with levels := s.levels.dropWhile fun l => !l.isBlock }

/-- Closes the levels to the right of a column. -/
def closeTo (s : Scan) (column : Int) : Scan :=
  if s.flow > 0 then s
  else
    -- levels lie from right to left, so those to close come first
    let closed := s.levels.takeWhile fun l => column < l.column
    let ends := (closed.filter Level.isBlock).map fun _ => Token.blockEnd
    { s with
      levels := s.levels.drop closed.length
      tokens := ends ++ s.tokens
      count := s.count + ends.length }

/-! ## Spots of keys -/

/-- A key may begin at this place, if one is allowed. -/
def saveKey (s : Scan) : Scan :=
  if s.keyAllowed then
    let p := s.place
    let required := s.flow == 0 && s.inBlock && s.indent == p.column
    let spot := ⟨s.count, p.index, p.line, p.column, required⟩
    { s with spots := some spot :: s.spots.drop 1 }
  else
    s

/-- The innermost spot is that of no key. -/
def removeKey? (s : Scan) : Option Scan :=
  match s.spots.head? with
  | some (some spot) =>
    if spot.required then none else some { s with spots := none :: s.spots.drop 1 }
  | _ => some s

/-- Whether the colon of a key can no longer follow, because the key would be longer than a line or
than 1024 characters. -/
def isStale (s : Scan) (spot : KeySpot) : Bool :=
  s.flow == 0 && (spot.line < s.place.line || spot.index + 1024 < s.place.index)

/-- Gives up the spots whose colon can no longer follow. -/
def removeStale? (s : Scan) : Option Scan := do
  let spots ← s.spots.mapM fun spot =>
    match spot with
    | none => some none
    | some spot =>
      if !s.isStale spot then some (some spot)
      else if spot.required then none
      else some none
  return { s with spots := spots }

/-! ## Between tokens -/

/-- Goes over blanks, line breaks and comments to the next token. After a line break a key may
begin. A tab does not indent a line; `fuel` bounds the steps. -/
def toToken : Nat → Scan → Option Scan
  | 0, _ => none
  | fuel + 1, s =>
    match s.place.rest with
    | [] => some s
    | c :: _ =>
      if c = '\t' ∧ s.place.leading ∧ s.place.column < s.indent then do
        let gap ← s.place.gap? true
        if atLineEnd gap.behind.rest then toToken fuel { s with place := gap.behind } else none
      else if isSpace c then toToken fuel { s with place := s.place.skipSpaces 1 }
      else if isBreak c then
        toToken fuel
          { s with place := s.place.skipBreak, keyAllowed := s.keyAllowed || s.flow == 0 }
      else if c = '#' then toToken fuel { s with place := s.place.skipLine }
      else some s

/-- Goes over blanks other than tabs, line breaks and comments behind the sign of a key. There has
to be a blank or a line break. -/
def afterKeySign : Nat → Bool → Place → Option Place
  | 0, _, _ => none
  | fuel + 1, seen, p =>
    match p.rest with
    | ' ' :: _ => afterKeySign fuel true (p.skipSpaces 1)
    | '#' :: _ => afterKeySign fuel seen p.skipLine
    | '\n' :: _ | '\r' :: _ => afterKeySign fuel true p.skipBreak
    | '\t' :: _ => none
    | _ => if seen then some p else none

/-- Goes over blanks and a comment. -/
def toGap? (s : Scan) : Option Scan :=
  (s.place.gap? true).map fun gap => { s with place := gap.behind }

/-- Ends a pair that stands alone in brackets. -/
def endPair (s : Scan) : Scan :=
  if s.pair then { s with pair := false, mapping := false }.push .flowMappingEnd else s

/-! ## Tokens -/

/-- A directive: the version, what a handle of tags stands for, or another that is passed over. -/
def readDirective (s : Scan) : Option Scan := do
  let s ← (s.closeTo (-1)).removeKey?
  let (name, p) := (s.place.skip 1).span isHandleChar
  if name = [] || !atWordEnd p.rest then none
  else
    let (token, p) ←
      if name = ['Y', 'A', 'M', 'L'] then do
        let p := p.skipAllSpaces
        let rest ← readVersionPart p.rest
        match rest with
        | '.' :: rest => some (Token.version, p.behind (← readVersionPart rest))
        | _ => none
      else if name = ['T', 'A', 'G'] then do
        let p := p.skipAllSpaces
        let (handle, rest) ← readHandle p.rest
        let p := (p.behind rest).skipAllSpaces
        let (target, rest) ← readTarget p.rest
        if atWordEnd rest then some (Token.tagHandle handle target, p.behind rest) else none
      else
        some (Token.tagHandle [] [], p.skipLine)
    let gap ← p.gap? true
    if atLineEnd gap.behind.rest then
      return { s with place := gap.behind.skipBreak, keyAllowed := false }.push token
    else
      none

/-- The marker that begins a document. -/
def readStart (s : Scan) : Option Scan := do
  let s ← (s.closeTo (-1)).removeKey?
  return { s with place := s.place.skip 3, keyAllowed := false }.push .documentStart

/-- The marker that ends a document. Nothing but a comment follows it on its line. -/
def readEnd (s : Scan) : Option Scan := do
  let s ← (s.closeTo (-1)).removeKey?
  let s ← toGap? { s with place := s.place.skip 3, keyAllowed := false }
  if atLineEnd s.place.rest then return s.push .documentEnd else none

/-- An opening bracket; there are no more than 255 of them around a place. -/
def openFlow (s : Scan) (t : Token) : Option Scan := do
  let s := s.saveKey.hang
  if s.flow = 255 then none
  else
    let s ← toGap?
      { s with
        place := s.place.skip 1
        spots := none :: s.spots
        flow := s.flow + 1
        keyAllowed := true
        mapping := s.mapping || t = .flowMapping }
    return s.push t

/-- A closing bracket. -/
def closeFlow (s : Scan) (t : Token) : Option Scan := do
  let s ← s.removeKey?
  let s := if s.flow = 0 then s else { s with flow := s.flow - 1, spots := s.spots.drop 1 }
  let s := { s with keyAllowed := false }.endPair
  let s ← toGap? { s with place := s.place.skip 1 }
  return { s with adjacent := if s.flow > 0 then s.place.index else s.adjacent }.push t

/-- A comma. -/
def readComma (s : Scan) : Option Scan := do
  let s := { ← s.removeKey? with keyAllowed := true }.endPair
  let s ← toGap? { s with place := s.place.skip 1 }
  return s.push .flowEntry

/-- A hyphen before an item. No second one follows behind a tab. -/
def readHyphen (s : Scan) : Option Scan := do
  if s.flow > 0 || !s.keyAllowed then none
  else
    let s := s.openBlock s.place.column s.count .blockSequence
    let gap ← (s.place.skip 1).gap? true
    let s := { s with place := gap.behind }
    let isHyphen := match s.place.rest with
      | '-' :: cs => atWordEnd cs
      | _ => false
    if gap.tabs && isHyphen then none
    else
      let isEmpty := !s.place.rest.isEmpty && atLineEnd s.place.rest
      -- an item on the next lines has to be indented more than its hyphen
      let s := if isEmpty || atFlowSign s.place.rest then s.hang else s
      return { ← s.removeKey? with keyAllowed := true }.push .blockEntry

/-- A question mark before a key. -/
def readQuestion (s : Scan) : Option Scan := do
  if s.flow = 0 && !s.keyAllowed then none
  else
    let s := s.openBlock s.place.column s.count .blockMapping
    let s ← { s with mapping := s.mapping || s.flow > 0 }.removeKey?
    let p ← afterKeySign (s.place.rest.length + 1) false (s.place.skip 1)
    return { s with place := p, keyAllowed := s.flow == 0 }.push .key

/-- Whether a colon that a tab follows has a value right behind the tabs. -/
def isAttached (gap : Gap) : Bool :=
  !gap.spaces && gap.behind.rest.head?.any isHandleChar

/-- A colon before a value. What stands at the innermost spot is its key; without a spot the key is
missing or stands behind a question mark. In brackets a pair can stand alone. -/
def readColon (s : Scan) : Option Scan := do
  let colon := s.place
  let s := { s with pair := s.flow > 0 && !s.mapping, place := s.place.skip 1 }
  let s ← match s.place.rest with
    | '\t' :: _ => do
      let gap ← s.place.gap? true
      if isAttached gap then none else some { s with place := gap.behind }
    | _ => some s
  match s.spots.head? with
  | some (some spot) =>
    if s.pair && spot.line < colon.line then none
    else
      -- of several tokens put at one spot the last one comes first
      let s := s.insert spot.number .key
      let s := if s.pair then s.insert spot.number .flowMapping else s
      let s := (s.openBlock spot.column spot.number .blockMapping).hang
      return { s with spots := none :: s.spots.drop 1, keyAllowed := false }.push .value
  | _ =>
    let s := if s.pair then s.push .flowMapping else s
    if s.flow = 0 && !s.keyAllowed then none
    else
      let s := (s.openBlock colon.column s.count .blockMapping).hang
      return { s with keyAllowed := s.flow == 0 }.push .value

/-- An anchor, or a reference to one. -/
def readName (s : Scan) (token : List Char → Token) : Option Scan :=
  let s := s.saveKey
  let (name, p) := (s.place.skip 1).span isAnchorChar
  if name = [] then none
  else some ({ s with place := p, keyAllowed := false }.push (token name))

/-- A tag. A blank or, in brackets, a sign of collections follows it. -/
def readTag (s : Scan) : Option Scan := do
  let s := s.saveKey
  let (token, rest) ← Yaml.readTag s.place.rest
  if atWordEnd rest || (s.flow > 0 && atFlowSign rest) then
    return { s with place := s.place.behind rest, keyAllowed := false }.push token
  else
    none

/-- A block of text. After it a key may begin. -/
def readBlock (s : Scan) (folds : Bool) : Option Scan := do
  let s := s.saveKey.unhang
  let (text, p) ← Yaml.readBlock folds s.indent (s.place.skip 1)
  return { s with place := p, keyAllowed := true }.push (.scalar false text)

/-- A quoted scalar. Behind it stand the end of the line, a colon, or a sign of collections; a key
stands on one line unless it stands in brackets. -/
def readQuoted (s : Scan) (quote : Char) : Option Scan := do
  let s := s.saveKey
  let line := s.place.line
  let fuel := s.place.rest.length + 1
  let (text, p) ← Yaml.readQuoted quote s.indent fuel (s.place.skip 1)
  let gap ← p.gap? true
  let p := gap.behind
  let ends := match p.rest with
    | ':' :: _ => s.flow > 0 || line == p.line
    | ',' :: _ | ']' :: _ | '\x7d' :: _ => s.flow > 0
    | cs => atLineEnd cs
  if !ends then none
  else
    let s ← toToken fuel { s with place := p, keyAllowed := false }
    -- a colon right behind a quoted key in brackets needs no blank
    return { s with adjacent := s.place.index }.push (.scalar false text)

/-- A plain scalar. Where it ends at the beginning of a line a key may follow. -/
def readPlain (s : Scan) : Option Scan := do
  let s := s.saveKey.unhang
  let indent := s.indent + 1
  if s.flow > 0 && s.place.column < indent then none
  else
    let (text, p) ←
      Yaml.readPlain (s.flow > 0) indent (s.place.rest.length + 1) s.place (.blanks [])
    return { s with place := p, keyAllowed := p.leading }.push (.scalar true text)

/-- Reads the token at the place, which is behind blanks and comments. -/
def step? (s : Scan) : Option Scan :=
  let p := s.place
  match p.rest with
  | [] => none
  | c :: cs =>
    if p.column = 0 ∧ c = '%' then s.readDirective
    else if p.atMarker '-' then s.readStart
    else if p.atMarker '.' then s.readEnd
    else if p.column < s.indent then none
    else
      let isColon := atWordEnd cs || (s.flow > 0 && (atFlowSign cs || p.index == s.adjacent))
      match c with
      | '[' => s.openFlow .flowSequence
      | '\x7b' => s.openFlow .flowMapping
      | ']' => s.closeFlow .flowSequenceEnd
      | '\x7d' => s.closeFlow .flowMappingEnd
      | ',' => s.readComma
      | '-' => if atWordEnd cs then s.readHyphen else s.readPlain
      | '?' => if atWordEnd cs then s.readQuestion else s.readPlain
      | ':' => if isColon then s.readColon else s.readPlain
      | '*' => s.readName .reference
      | '&' => s.readName .anchor
      | '!' => s.readTag
      | '|' => if s.flow = 0 then s.readBlock false else s.readPlain
      | '>' => if s.flow = 0 then s.readBlock true else s.readPlain
      | '\'' => s.readQuoted '\''
      | '"' => s.readQuoted '"'
      | '%' | '@' | '\x60' => none
      | _ => s.readPlain

/-- The tokens when nothing is left. A spot where nothing but a key can stand must have had one. -/
def finish? (s : Scan) : Option (List Token) :=
  if s.spots.any fun spot => spot.any KeySpot.required then none
  else some (s.closeTo (-1)).tokens.reverse

/-- Reads tokens up to the end of the document; `fuel` bounds their number. -/
def run? : Nat → Scan → Option (List Token)
  | 0, _ => none
  | fuel + 1, s => do
    let s ← toToken (s.place.rest.length + 1) s
    let s := (← s.removeStale?).closeTo s.place.column
    if s.place.rest = [] then s.finish?
    else run? fuel (← s.step?)

end Scan

/-- The tokens of a document. A null character ends the document. -/
def tokens? (text : String) : Option (List Token) :=
  let cs := text.toList.takeWhile (· != '\x00')
  Scan.run? (cs.length + 1) (Scan.start cs)

end PathQuery.Document.Yaml
