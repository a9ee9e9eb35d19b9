import PathQuery.Settings.Document.Yaml.Place
import PathQuery.Text.Escape

/-!
# Scalar — the texts of YAML scalars

A plain scalar ends where something else can begin; a quoted one ends at its quote; a block ends
where its indentation does. Over several lines a single line break stands for a space, and of more
line breaks the first one stands for nothing.

Every reader is told how far the text has to be indented at least, and returns the text and the
place behind it. Where a reader takes `fuel`, the length of what is left is enough.
-/

namespace PathQuery.Document.Yaml

open PathQuery.Text

/-! ## Between two words -/

/-- What stands between two words of a scalar: blanks, or a line break with more behind it. A joined
line break was taken away by a backslash. -/
inductive Seam where
  | blanks (cs : List Char)
  | broken (more : Nat)
  | joined (more : Nat)

/-- A line break and more behind it. -/
def folded (more : Nat) : List Char :=
  if more = 0 then [' '] else List.replicate more '\n'

/-- What counts of it in the text. -/
def Seam.text : Seam → List Char
  | .blanks cs => cs
  | .broken more => folded more
  | .joined more => List.replicate more '\n'

/-- One more line break. Blanks before a line break do not count. -/
def Seam.break : Seam → Seam
  | .blanks _ => .broken 0
  | .broken more => .broken (more + 1)
  | .joined more => .joined (more + 1)

/-! ## Plain scalars -/

/-- The word at the front. A colon ends it before a blank, and in brackets also before a sign of
collections, which ends it itself. -/
def plainWord (flow : Bool) : List Char → List Char
  | [] => []
  | c :: cs =>
    if isSpace c || isBreak c || (flow && isFlowSign c) then []
    else if c == ':' && (atWordEnd cs || (flow && atFlowSign cs)) then []
    else c :: plainWord flow cs

/-- Goes over what stands between two words. A tab does not indent a line, unless nothing but a
comment follows it; the line break behind that comment does not count. -/
def plainSeam (indent : Int) : Nat → Place → Seam → Option (Seam × Place)
  | 0, _, _ => none
  | fuel + 1, p, seam =>
    match p.rest with
    | [] => some (seam, p)
    | c :: _ =>
      if isBreak c then
        plainSeam indent fuel p.skipBreak
          -- only a comment ends the blanks at the front of a line, and its line does not count
          (match seam, p.leading with
          | .broken more, false => .broken more
          | seam, _ => seam.break)
      else if !isSpace c then some (seam, p)
      else if !p.leading then
        let blanks := p.rest.takeWhile isSpace
        plainSeam indent fuel (p.skipSpaces blanks.length) (.blanks blanks)
      else if p.column < indent ∧ c = '\t' then do
        let gap ← p.gap? true
        if atLineEnd gap.behind.rest then plainSeam indent fuel gap.behind seam else none
      else plainSeam indent fuel (p.skipSpaces 1) seam

/-- A hyphen before a sign of collections. -/
def atHyphen : List Char → Bool
  | '-' :: cs => atFlowSign cs
  | _ => false

/-- Reads the words of a plain scalar; `seam` stands before the first of them. A comment, a marker
and, outside of brackets, a line that is indented less end the scalar. -/
def readPlain (flow : Bool) (indent : Int) : Nat → Place → Seam → Option (List Char × Place)
  | 0, _, _ => none
  | fuel + 1, p, seam =>
    if p.atDocumentMarker || p.rest.head? == some '#' then some ([], p)
    else if flow && atHyphen p.rest then none
    else
      match plainWord flow p.rest with
      | [] => some ([], p)
      | word => do
        let q := p.skip word.length
        let (next, r) ← plainSeam indent fuel q (.blanks [])
        -- the word is the last one if nothing stands behind it or the next line is not indented
        if r.index = q.index ∨ (!flow ∧ r.column < indent) then
          return (seam.text ++ word, r)
        else
          let (more, r) ← readPlain flow indent fuel r next
          return (seam.text ++ word ++ more, r)

/-! ## Quoted scalars -/

/-- The character of a one-letter escape. -/
def escaped? : Char → Option Char
  | '0' => some '\x00'
  | 'a' => some '\x07'
  | 'b' => some '\x08'
  | 't' => some '\t'
  | '\t' => some '\t'
  | 'n' => some '\n'
  | 'v' => some '\x0b'
  | 'f' => some '\x0c'
  | 'r' => some '\r'
  | 'e' => some '\x1b'
  | ' ' => some ' '
  | '"' => some '"'
  | '/' => some '/'
  | '\\' => some '\\'
  | 'N' => some '\u0085'
  | '_' => some '\u00a0'
  | 'L' => some '\u2028'
  | 'P' => some '\u2029'
  | _ => none

/-- What an escape stands for, behind its backslash, and how many characters it has there. -/
def escape? : List Char → Option (Char × Nat)
  | 'x' :: cs => (readCodeChar 2 cs).map fun (c, _) => (c, 3)
  | 'u' :: cs => (readCodeChar 4 cs).map fun (c, _) => (c, 5)
  | 'U' :: cs => (readCodeChar 8 cs).map fun (c, _) => (c, 9)
  | e :: _ => (escaped? e).map fun c => (c, 1)
  | [] => none

/-- The characters that stand for themselves between quotes of a kind. -/
def isOrdinary (quote c : Char) : Bool :=
  !isSpace c && !isBreak c && c != quote && (c != '\\' || quote == '\'')

/-- Reads a word between quotes, up to a blank, a line break or the closing quote. An apostrophe is
written twice between apostrophes; between quotes a backslash begins an escape or takes away a line
break, which ends the word. -/
def readWord (quote : Char) : Nat → Place → Option (List Char × Seam × Place)
  | 0, _ => none
  | fuel + 1, p =>
    let word := p.rest.takeWhile (isOrdinary quote)
    let q := p.skip word.length
    match q.rest with
    | '\'' :: '\'' :: _ => do
      let (more, seam, r) ← readWord quote fuel (q.skip 2)
      return (word ++ '\'' :: more, seam, r)
    | '\\' :: cs =>
      if cs ≠ [] ∧ (atLineEnd cs) then
        some (word, .joined 0, (q.skip 1).skipBreak)
      else do
        let (c, n) ← escape? cs
        let (more, seam, r) ← readWord quote fuel (q.skip (n + 1))
        return (word ++ c :: more, seam, r)
    | _ => some (word, .blanks [], q)

/-- Goes over what stands between two words. A tab does not indent a line. -/
def quotedSeam (indent : Int) : Nat → Place → Seam → Option (Seam × Place)
  | 0, _, _ => none
  | fuel + 1, p, seam =>
    match p.rest with
    | [] => some (seam, p)
    | c :: _ =>
      if isBreak c then quotedSeam indent fuel p.skipBreak seam.break
      else if !isSpace c then some (seam, p)
      else
        match seam with
        | .blanks _ =>
          let blanks := p.rest.takeWhile isSpace
          quotedSeam indent fuel (p.skipSpaces blanks.length) (.blanks blanks)
        | _ =>
          if c = '\t' ∧ p.column < indent then none
          else quotedSeam indent fuel (p.skipSpaces 1) seam

/-- Reads a text up to its closing quote. No marker stands in it, and all of its lines are
indented. -/
def readQuoted (quote : Char) (indent : Int) : Nat → Place → Option (List Char × Place)
  | 0, _ => none
  | fuel + 1, p =>
    if p.rest.isEmpty || p.atDocumentMarker || p.column < indent then none
    else do
      let (word, seam, q) ← readWord quote fuel p
      if q.rest.head? = some quote then return (word, q.skip 1)
      else
        let (seam, q) ← quotedSeam indent fuel q seam
        let (more, q) ← readQuoted quote indent fuel q
        return (word ++ seam.text ++ more, q)

/-! ## Blocks -/

/-- What becomes of the line breaks at the end of a block: none stays, one stays, or all stay. -/
inductive Chomp where
  | strip
  | clip
  | keep
deriving DecidableEq, Repr

def Chomp.ofSign? : List Char → Option Chomp
  | '-' :: _ => some .strip
  | '+' :: _ => some .keep
  | _ => none

/-- The digit at the front, which is not zero. No digit is fine, too, and reads as zero. -/
def readWidth (p : Place) : Option (Nat × Place) :=
  match p.rest with
  | [] => some (0, p)
  | c :: _ =>
    if c = '0' then none
    else if c.isDigit then some (digitsValue [c], p.skip 1)
    else some (0, p)

/-- Reads what stands behind the sign of a block: how it ends and how far it is indented, in any
order. -/
def readHeader (p : Place) : Option (Chomp × Nat × Place) := do
  match Chomp.ofSign? p.rest with
  | some chomp =>
    let (width, p) ← readWidth (p.skip 1)
    return (chomp, width, p)
  | none =>
    let (width, p) ← readWidth p
    match Chomp.ofSign? p.rest with
    | some chomp => return (chomp, width, p.skip 1)
    | none => return (.clip, width, p)

/-- Goes over indentation and empty lines, and counts these. -/
def skipIndent (indent : Nat) : Nat → Place → Nat × Place
  | 0, p => (0, p)
  | fuel + 1, p =>
    let spaces := (p.rest.takeWhile (· == ' ')).length
    let p := p.skipSpaces (min spaces (indent - p.column))
    if p.rest ≠ [] ∧ atLineEnd p.rest then
      let (more, q) := skipIndent indent fuel p.skipBreak
      (more + 1, q)
    else
      (0, p)

/-- Goes over empty lines and the indentation of the first other line, counts the lines and says
which indentation of all was the widest. -/
def measureIndent : Nat → Nat → Place → Nat × Nat × Place
  | 0, widest, p => (widest, 0, p)
  | fuel + 1, widest, p =>
    let p := p.skipSpaces (p.rest.takeWhile (· == ' ')).length
    let widest := max widest p.column
    if p.rest ≠ [] ∧ atLineEnd p.rest then
      let (widest, more, q) := measureIndent fuel widest p.skipBreak
      (widest, more + 1, q)
    else
      (widest, 0, p)

/-- The lines of a block and what follows them. -/
structure BlockLines where
  text : List Char
  /-- whether a line break ends the last line -/
  broken : Bool
  /-- how many more line breaks follow -/
  more : Nat
  behind : Place

/-- Reads the lines of a block; `broken` and `more` are the line breaks before the next line. They
are folded where neither this line nor the last one begins with a blank. -/
def readLines (folds : Bool) (indent : Nat) : Nat → Bool → Nat → Bool → Place → BlockLines
  | 0, broken, more, _, p => ⟨[], broken, more, p⟩
  | fuel + 1, broken, more, blank, p =>
    if p.rest.isEmpty || p.column != indent || (indent == 0 && p.atDocumentMarker) then
      ⟨[], broken, more, p⟩
    else
      let begins := p.rest.head?.any isSpace
      let before :=
        if folds && broken && !blank && !begins then folded more
        else List.replicate (if broken then more + 1 else more) '\n'
      let (line, q) := p.span fun c => !isBreak c
      if q.rest.isEmpty then ⟨before ++ line, false, 0, q⟩
      else
        let (more, q) := skipIndent indent fuel q.skipBreak
        let lines := readLines folds indent fuel true more begins q
        { lines with text := before ++ line ++ lines.text }

/-- The text of a block with its end. Where the document ends in a line of the block, or in one that
is indented as much, that line counts as ended. -/
def BlockLines.chomped (lines : BlockLines) (chomp : Chomp) (indent : Nat) : List Char :=
  let q := lines.behind
  let last := if lines.broken then ['\n'] else []
  let ended := if q.rest.isEmpty && max indent 1 ≤ q.column then ['\n'] else []
  match chomp with
  | .strip => lines.text
  | .clip => lines.text ++ last ++ ended
  | .keep => lines.text ++ last ++ ended ++ List.replicate lines.more '\n'

/-- Reads a block behind its sign. Its lines are indented more than `level`, and the first line says
how much unless the header does. -/
def readBlock (folds : Bool) (level : Int) (p : Place) : Option (List Char × Place) := do
  let (chomp, width, q) ← readHeader p
  let gap ← q.gap? true
  let fuel := p.rest.length
  let q := gap.behind.skipBreak
  if !atLineEnd gap.behind.rest || q.rest.head? == some '\t' then none
  else
    let (indent, more, q) :=
      if width = 0 then
        let (widest, more, q) := measureIndent fuel 0 q
        (max widest (level + 1).toNat, more, q)
      else
        let indent := level.toNat + width
        let (more, q) := skipIndent indent fuel q
        (indent, more, q)
    if q.rest = [] then
      let text := match chomp with
        | .strip => []
        | .clip => ['\n']
        | .keep => List.replicate (max more 1) '\n'
      return (if q.line = p.line then [] else text, q)
    else if q.column < indent ∧ level < q.column then none
    else
      let lines := readLines folds indent fuel false more false q
      return (lines.chomped chomp indent, lines.behind)

end PathQuery.Document.Yaml
