import PathQuery.Text.Escape

/-!
# Text — blanks, comments and the four forms of text in TOML

A text stands between quotes or apostrophes, one of them for a text on one line and three for a text
of several lines. Only between quotes does a backslash begin an escape.
-/

namespace PathQuery.Document.Toml

open PathQuery.Text

/-! ## Between the words -/

def isSpace (c : Char) : Bool :=
  c == ' ' || c == '\t'

/-- Blanks inside a line are dropped. -/
def skip (cs : List Char) : List Char :=
  cs.dropWhile isSpace

/-- Control characters other than the tabulator do not stand in texts and comments. -/
def isPlain (c : Char) : Bool :=
  c == '\t' || (0x20 ≤ c.toNat && c.toNat != 0x7F)

/-- What follows the line end at the front. -/
def afterLineEnd? : List Char → Option (List Char)
  | '\n' :: cs => some cs
  | '\r' :: '\n' :: cs => some cs
  | _ => none

/-- A line ends at a line end or at the end of the document. -/
def readLineEnd : List Char → Option (List Char)
  | [] => some []
  | cs => afterLineEnd? cs

/-- What may stand behind an assignment or a header: blanks, a comment, the end of the line. -/
def readRest (cs : List Char) : Option (List Char) :=
  match skip cs with
  | '#' :: cs => readLineEnd (cs.dropWhile isPlain)
  | cs => readLineEnd cs

/-- Blanks, comments and line ends between the items of a list are dropped; `fuel` bounds their
number. -/
def skipLines : Nat → List Char → List Char
  | 0, cs => cs
  | fuel + 1, cs =>
    match skip cs with
    | '#' :: cs => skipLines fuel (cs.dropWhile isPlain)
    | cs =>
      match afterLineEnd? cs with
      | some cs => skipLines fuel cs
      | none => cs

/-! ## Texts -/

/-- The character of a one-letter escape. -/
def escaped? : Char → Option Char
  | '"' => some '"'
  | '\\' => some '\\'
  | 'b' => some '\x08'
  | 'f' => some '\x0c'
  | 'n' => some '\n'
  | 'r' => some '\r'
  | 't' => some '\t'
  | _ => none

/-- Reads what an escape stands for, behind its backslash. -/
def readEscape : List Char → Option (Char × List Char)
  | 'u' :: cs => readCodeChar 4 cs
  | 'U' :: cs => readCodeChar 8 cs
  | e :: cs => (escaped? e).map fun c => (c, cs)
  | [] => none

/-- Reads a text with escapes up to its closing quote. -/
def readBasic : Nat → List Char → Option (List Char × List Char)
  | 0, _ => none
  | _ + 1, [] => none
  | _ + 1, '"' :: cs => some ([], cs)
  | fuel + 1, '\\' :: cs => do
    let (c, cs) ← readEscape cs
    let (text, rest) ← readBasic fuel cs
    return (c :: text, rest)
  | fuel + 1, c :: cs =>
    if isPlain c then do
      let (text, rest) ← readBasic fuel cs
      return (c :: text, rest)
    else
      none

/-- Reads a text without escapes up to its closing apostrophe. -/
def readLiteral (cs : List Char) : Option (List Char × List Char) :=
  let text := cs.takeWhile fun c => isPlain c && c != '\''
  match cs.drop text.length with
  | '\'' :: rest => some (text, rest)
  | _ => none

/-- Three quotes end a text of several lines, and up to two more right before them belong to it. -/
def readClosing (quote : Char) (cs : List Char) : Option (List Char × List Char) :=
  let quotes := (cs.take 5).takeWhile (· == quote)
  if quotes.length < 3 then none else some (quotes.drop 3, cs.drop quotes.length)

/-- Drops the blanks and line ends that a backslash at the end of a line joins to the next text. -/
def afterJoint? (cs : List Char) : Option (List Char) :=
  (afterLineEnd? (skip cs)).map fun cs => skipJoint cs.length cs
where
  skipJoint : Nat → List Char → List Char
    | 0, cs => cs
    | fuel + 1, cs =>
      let cs := skip cs
      match afterLineEnd? cs with
      | some cs => skipJoint fuel cs
      | none => cs

/-- Reads a text of several lines up to its closing quotes. Every line end counts as a line feed. -/
def readLines (quote : Char) : Nat → List Char → Option (List Char × List Char)
  | 0, _ => none
  | fuel + 1, cs =>
    match readClosing quote cs with
    | some found => some found
    | none =>
      match afterLineEnd? cs, cs with
      | some cs, _ => do
        let (text, rest) ← readLines quote fuel cs
        return ('\n' :: text, rest)
      | none, [] => none
      | none, c :: cs =>
        if c = '\\' ∧ quote = '"' then
          match afterJoint? cs with
          | some cs => readLines quote fuel cs
          | none => do
            let (c, cs) ← readEscape cs
            let (text, rest) ← readLines quote fuel cs
            return (c :: text, rest)
        else if isPlain c then do
          let (text, rest) ← readLines quote fuel cs
          return (c :: text, rest)
        else
          none

/-- A line end right behind the opening quotes does not belong to the text. -/
def dropLineEnd (cs : List Char) : List Char :=
  (afterLineEnd? cs).getD cs

/-- Reads a text in one of its four forms. -/
def readText (cs : List Char) : Option (String × List Char) :=
  let found := match cs with
    | '"' :: '"' :: '"' :: cs => readLines '"' (cs.length + 1) (dropLineEnd cs)
    | '\'' :: '\'' :: '\'' :: cs => readLines '\'' (cs.length + 1) (dropLineEnd cs)
    | '"' :: cs => readBasic (cs.length + 1) cs
    | '\'' :: cs => readLiteral cs
    | _ => none
  found.map fun (text, rest) => (String.ofList text, rest)

/-! ## Keys -/

def isKeyChar (c : Char) : Bool :=
  c.isAlphanum || c == '_' || c == '-'

/-- Reads one part of a key: a word or a text on one line. -/
def readKeyPart (cs : List Char) : Option (String × List Char) :=
  let found := match cs with
    | '"' :: cs => readBasic (cs.length + 1) cs
    | '\'' :: cs => readLiteral cs
    | cs =>
      match cs.takeWhile isKeyChar with
      | [] => none
      | word => some (word, cs.drop word.length)
  found.map fun (text, rest) => (String.ofList text, rest)

/-- Reads the parts of a key, with points between them. -/
def readKeyParts : Nat → List Char → Option (List String × List Char)
  | 0, _ => none
  | fuel + 1, cs => do
    let (part, cs) ← readKeyPart (skip cs)
    match skip cs with
    | '.' :: cs =>
      let (parts, rest) ← readKeyParts fuel cs
      return (part :: parts, rest)
    | cs => return ([part], cs)

/-- What nests deeper than this is refused: a key of too many parts, and values in values. -/
def depthLimit : Nat :=
  80

/-- Reads a key; it has less parts than the limit of nesting. -/
def readKey (cs : List Char) : Option (List String × List Char) :=
  readKeyParts (depthLimit - 1) cs

end PathQuery.Document.Toml
