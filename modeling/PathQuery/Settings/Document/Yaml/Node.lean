import PathQuery.Settings.Document.Yaml.Token
import PathQuery.Settings.Setting

/-!
# Node — what the tokens of a YAML document stand for

A node is a scalar, a sequence or a mapping. A node can be named by an anchor and referred to where
it is complete.

`Node.ofTokens?` reads the one node of a document, or says that there is no document.
-/

namespace PathQuery.Document.Yaml

open PathQuery.Text

/-- A value of a document. -/
inductive Node where
  /-- a scalar that is not what its tag says, or a reference to a node that is not complete -/
  | bad
  | null
  | flag (b : Bool)
  | whole (i : Int)
  /-- a number by its text -/
  | real (text : List Char)
  | text (cs : List Char)
  | sequence (items : List Node)
  | mapping (fields : List (Node × Node))

namespace Node

/-! ## Equality -/

mutual

/-- Whether two nodes are the same. Numbers are compared by their text, mappings field by field in
their order. -/
def same : Node → Node → Bool
  | .bad, .bad => true
  | .null, .null => true
  | .flag b, .flag b' => b == b'
  | .whole i, .whole i' => i == i'
  | .real cs, .real cs' => cs == cs'
  | .text cs, .text cs' => cs == cs'
  | .sequence xs, .sequence ys => sameItems xs ys
  | .mapping fs, .mapping gs => sameFields fs gs
  | _, _ => false

def sameItems : List Node → List Node → Bool
  | [], [] => true
  | x :: xs, y :: ys => x.same y && sameItems xs ys
  | _, _ => false

def sameFields : List (Node × Node) → List (Node × Node) → Bool
  | [], [] => true
  | (k, v) :: fs, (k', v') :: gs => k.same k' && v.same v' && sameFields fs gs
  | _, _ => false

end

/-! ## Scalars -/

/-- The integer that a decimal numeral with an optional sign denotes, if it has sixty-four bits. -/
def integer64? (cs : List Char) : Option Int :=
  (integer? cs).filter fun i => decide (IsInt64 i)

/-- The integer that a numeral in a base denotes, behind an optional sign. -/
def inBase? (base : Nat) (cs : List Char) : Option Int :=
  let natural (cs : List Char) : Option Int :=
    if cs = [] then none
    else
      cs.foldl (fun n c =>
        n.bind fun n => ((hexValue c).filter (· < base)).map fun d => n * base + d) (some 0)
  let i := match cs with
    | '-' :: cs => (natural cs).map fun n => -n
    | '+' :: cs => natural cs
    | cs => natural cs
  i.filter fun i => decide (IsInt64 i)

/-- The integer that a plain scalar denotes: in base sixteen or eight behind `0x` or `0o`, else in
base ten. One more plus sign may stand before a decimal numeral. -/
def wholeScalar? : List Char → Option Int
  | '0' :: 'x' :: cs => inBase? 16 cs
  | '0' :: 'o' :: cs => inBase? 8 cs
  | '+' :: cs => integer64? cs
  | cs => integer64? cs

/-- Words for the numbers that are not finite. They count as numbers but have no numeral. -/
def infinityWords : List (List Char) :=
  [".inf", ".Inf", ".INF", "+.inf", "+.Inf", "+.INF", "-.inf", "-.Inf", "-.INF", ".nan",
    ".NAN"].map String.toList

def isReal (cs : List Char) : Bool :=
  cs ∈ infinityWords || (Binary64.read? cs).isSome

def isNull (cs : List Char) : Bool :=
  cs == ['~'] || cs == "null".toList

def flag? (cs : List Char) : Option Bool :=
  if cs = "true".toList then some true
  else if cs = "false".toList then some false
  else none

/-- What a plain scalar stands for. -/
def ofPlain (cs : List Char) : Node :=
  match wholeScalar? cs, flag? cs with
  | some i, _ => .whole i
  | none, some b => .flag b
  | none, none =>
    if isNull cs then .null
    else if isReal cs then .real cs
    else .text cs

/-- Where the tags of the standard types begin. -/
def standardHandle : List Char :=
  "tag:yaml.org,2002:".toList

/-- What a plain scalar with a tag stands for. The tags of four standard types say how it is read;
with any other tag it is a text. -/
def ofTagged (handle suffix cs : List Char) : Node :=
  if handle ≠ standardHandle then .text cs
  else if suffix = "bool".toList then (flag? cs).elim .bad .flag
  else if suffix = "int".toList then (integer64? cs).elim .bad .whole
  else if suffix = "float".toList then if isReal cs then .real cs else .bad
  else if suffix = "null".toList then if isNull cs then .null else .bad
  else .text cs

/-- What a scalar stands for: one that is not plain is a text. -/
def ofScalar (plain : Bool) (tag : Option (List Char × List Char)) (cs : List Char) : Node :=
  match plain, tag with
  | false, _ => .text cs
  | true, none => ofPlain cs
  | true, some (handle, suffix) => ofTagged handle suffix cs

/-! ## Mappings -/

def isBad : Node → Bool
  | .bad => true
  | _ => false

/-- The fields that keys and values in turn make up, behind those in `fields`. A bad node is no key,
and no key comes twice. -/
def pairs? (fields : List (Node × Node)) : List Node → Option (List (Node × Node))
  | [] => some fields
  | [_] => some fields
  | k :: v :: nodes =>
    -- the next node takes the place of a key that cannot be one
    if k.isBad then pairs? fields (v :: nodes)
    else if fields.any fun f => f.1.same k then none
    else pairs? (fields ++ [(k, v)]) nodes

end Node

/-! ## Reading -/

/-- The tokens that are left, and what was said before them. -/
structure Feed where
  tokens : List Token
  /-- The node of each anchor once it is complete, the last anchor first. -/
  anchors : List (List Char × Option Node)
  /-- What the handle of the directive stands for. -/
  handle : Option (List Char × List Char)

/-- The anchor and the tag of a node. -/
structure Properties where
  /-- how many anchors stand before its own, if it has one -/
  anchor : Option Nat
  tag : Option (List Char × List Char)

namespace Feed

def next (f : Feed) (tokens : List Token) : Feed :=
  { f with tokens := tokens }

/-- What a tag stands for. The handle of two signs has a meaning that a directive can change, all
other handles between two signs have to be declared. -/
def resolve? (f : Feed) (handle suffix : List Char) : Option (List Char × List Char) :=
  match f.handle.filter fun h => h.1 == handle with
  | some (_, target) => some (target, suffix)
  | none =>
    if handle = ['!', '!'] then some (Node.standardHandle, suffix)
    else if handle.length ≥ 2 then none
    else some (handle, suffix)

/-- An anchor whose node is not complete. -/
def open? (f : Feed) (name : List Char) : Nat × Feed :=
  (f.anchors.length, { f with anchors := (name, none) :: f.anchors })

/-- Completes the node of an anchor. -/
def complete (f : Feed) (anchor : Option Nat) (n : Node) : Feed :=
  match anchor with
  | none => f
  | some i =>
    { f with
      anchors := f.anchors.modify (f.anchors.length - 1 - i) fun a => (a.1, some n) }

/-- Reads an anchor and a tag in any order; either can be missing. -/
def properties? (f : Feed) : Option (Properties × Feed) :=
  match f.tokens with
  | .anchor name :: .tag handle suffix :: rest =>
    (f.resolve? handle suffix).map fun tag =>
      let (i, f) := f.open? name
      (⟨some i, some tag⟩, f.next rest)
  | .tag handle suffix :: .anchor name :: rest =>
    (f.resolve? handle suffix).map fun tag =>
      let (i, f) := f.open? name
      (⟨some i, some tag⟩, f.next rest)
  | .anchor name :: rest =>
    let (i, f) := f.open? name
    some (⟨some i, none⟩, f.next rest)
  | .tag handle suffix :: rest =>
    (f.resolve? handle suffix).map fun tag => (⟨none, some tag⟩, f.next rest)
  | _ => some (⟨none, none⟩, f)

/-- Whether one of the tokens comes next. -/
def at? (f : Feed) (ts : List Token) : Bool :=
  f.tokens.head?.any fun t => t ∈ ts

end Feed

/-- The tokens before which the key or the value of a block mapping is missing. -/
def blockEnds : List Token :=
  [.key, .value, .blockEnd]

/-- The tokens before which the value of a pair in braces is missing. -/
def braceEnds : List Token :=
  [.flowEntry, .flowMappingEnd]

/-- The tokens before which the value of a pair in square brackets is missing. -/
def bracketEnds : List Token :=
  [.flowEntry, .flowSequenceEnd]

mutual

/-- Reads a node. Only where `block` holds it can be a collection without brackets, and only where
`flat` holds a sequence that is indented no more than the keys around it. -/
def readNode (block flat : Bool) : Nat → Feed → Option (Node × Feed)
  | 0, _ => none
  | fuel + 1, f =>
    match f.tokens with
    | .reference name :: rest =>
      (f.anchors.find? fun a => a.1 == name).map fun a => (a.2.getD .bad, f.next rest)
    | _ => do
      let (props, f) ← f.properties?
      let (n, f) ← readContent block flat props fuel f
      return (n, f.complete props.anchor n)

/-- Reads a node behind its properties. With properties it can be empty. -/
def readContent (block flat : Bool) (props : Properties) : Nat → Feed → Option (Node × Feed)
  | 0, _ => none
  | fuel + 1, f => do
    match f.tokens, block, flat with
    | .scalar plain cs :: rest, _, _ => return (.ofScalar plain props.tag cs, f.next rest)
    | .flowSequence :: rest, _, _ =>
      let (items, f) ← readBracketItems true fuel (f.next rest)
      return (.sequence items, f)
    | .flowMapping :: rest, _, _ =>
      let (nodes, f) ← readBraceFields true fuel (f.next rest)
      return (.mapping (← Node.pairs? [] nodes), f)
    | .blockSequence :: rest, true, _ =>
      let (items, f) ← readBlockItems fuel (f.next rest)
      return (.sequence items, f)
    | .blockMapping :: rest, true, _ =>
      let (nodes, f) ← readBlockFields fuel (f.next rest)
      return (.mapping (← Node.pairs? [] nodes), f)
    | .blockEntry :: _, _, true =>
      let (items, f) ← readFlatItems fuel f
      return (.sequence items, f)
    | _, _, _ =>
      if props.anchor.isSome || props.tag.isSome then return (.ofScalar true props.tag [], f)
      else none

/-- Reads a node, unless one of the tokens says that it is missing. -/
def readOptional (block : Bool) (ends : List Token) : Nat → Feed → Option (Node × Feed)
  | 0, _ => none
  | fuel + 1, f => if f.at? ends then some (.null, f) else readNode block block fuel f

/-- Reads a value behind its sign; without the sign it is missing. -/
def readValue (block : Bool) (ends : List Token) : Nat → Feed → Option (Node × Feed)
  | 0, _ => none
  | fuel + 1, f =>
    match f.tokens with
    | .value :: rest => readOptional block ends fuel (f.next rest)
    | _ => some (.null, f)

/-- Reads the items of a sequence that is indented. -/
def readBlockItems : Nat → Feed → Option (List Node × Feed)
  | 0, _ => none
  | fuel + 1, f =>
    match f.tokens with
    | .blockEnd :: rest => some ([], f.next rest)
    | .blockEntry :: rest => do
      let f := f.next rest
      let (n, f) ← if f.at? [.blockEntry, .blockEnd] then some (.null, f)
        else readNode true false fuel f
      let (items, f) ← readBlockItems fuel f
      return (n :: items, f)
    | _ => none

/-- Reads the items of a sequence that is indented no more than the keys around it. -/
def readFlatItems : Nat → Feed → Option (List Node × Feed)
  | 0, _ => none
  | fuel + 1, f =>
    match f.tokens with
    | .blockEntry :: rest => do
      let f := f.next rest
      let (n, f) ← if f.at? (.blockEntry :: blockEnds) then some (.null, f)
        else readNode true false fuel f
      let (items, f) ← readFlatItems fuel f
      return (n :: items, f)
    | _ => some ([], f)

/-- Reads the keys and values of a mapping without braces, in turn. -/
def readBlockFields : Nat → Feed → Option (List Node × Feed)
  | 0, _ => none
  | fuel + 1, f =>
    match f.tokens with
    | .blockEnd :: rest => some ([], f.next rest)
    | .key :: _ | .value :: _ => do
      let (k, f) ← match f.tokens with
        | .key :: rest => readOptional true blockEnds fuel (f.next rest)
        | _ => some (.null, f)
      let (v, f) ← readValue true blockEnds fuel f
      let (nodes, f) ← readBlockFields fuel f
      return (k :: v :: nodes, f)
    | _ => none

/-- Reads the keys and values of a mapping in braces, in turn. All but the first pair stand behind a
comma, and a comma may stand behind the last. -/
def readBraceFields (first : Bool) : Nat → Feed → Option (List Node × Feed)
  | 0, _ => none
  | fuel + 1, f => do
    let f ← match f.tokens, first with
      | .flowEntry :: rest, false => some (f.next rest)
      | .flowMappingEnd :: _, _ => some f
      | _, true => some f
      | _, false => none
    match f.tokens with
    | .flowMappingEnd :: rest => return ([], f.next rest)
    | ts =>
      let (k, v, f) ← match ts with
        | .key :: rest => do
          let (k, f) ← readOptional false (.value :: braceEnds) fuel (f.next rest)
          let (v, f) ← readValue false braceEnds fuel f
          some (k, v, f)
        | .value :: _ => do
          let (v, f) ← readValue false braceEnds fuel f
          some (.null, v, f)
        | _ => do
          let (k, f) ← readNode false false fuel f
          some (k, .null, f)
      let (nodes, f) ← readBraceFields false fuel f
      return (k :: v :: nodes, f)

/-- Reads the items of a sequence in square brackets. All but the first stand behind a comma, and a
comma may stand behind the last. -/
def readBracketItems (first : Bool) : Nat → Feed → Option (List Node × Feed)
  | 0, _ => none
  | fuel + 1, f => do
    let f ← match f.tokens, first with
      | .flowEntry :: rest, false => some (f.next rest)
      | .flowSequenceEnd :: _, _ => some f
      | _, true => some f
      | _, false => none
    match f.tokens with
    | .flowSequenceEnd :: rest => return ([], f.next rest)
    | .key :: rest =>
      let (n, f) ← readPair fuel (f.next rest)
      let (items, f) ← readBracketItems false fuel f
      return (n :: items, f)
    | _ =>
      let (n, f) ← readNode false false fuel f
      let (items, f) ← readBracketItems false fuel f
      return (n :: items, f)

/-- Reads a pair that stands alone in square brackets, behind the sign of its key. Where the key is
missing, the sign that shows it is taken for the key. -/
def readPair : Nat → Feed → Option (Node × Feed)
  | 0, _ => none
  | fuel + 1, f => do
    let (k, f) ← if f.at? (.value :: bracketEnds) then some (.null, f.next (f.tokens.drop 1))
      else readNode false false fuel f
    let (v, f) ← readValue false bracketEnds fuel f
    return (.mapping (← Node.pairs? [] [k, v]), f)

end

/-! ## Documents -/

/-- Reads the directives before a document. There is one version at most, and of the handles only
that of the last directive counts. -/
def readDirectives (versioned : Bool) (handle : Option (List Char × List Char)) :
    List Token → Option (Option (List Char × List Char) × List Token)
  | .version :: ts => if versioned then none else readDirectives true none ts
  | .tagHandle name target :: ts => readDirectives versioned (some (name, target)) ts
  | ts => some (handle, ts)

/-- The tokens of a document, what a handle stands for in it, and whether a marker begins it. -/
def readOpening (ts : List Token) : Option (Feed × Bool) :=
  match ts with
  | .documentStart :: _ | .version :: _ | .tagHandle _ _ :: _ => do
    match ← readDirectives false none ts with
    | (handle, .documentStart :: rest) => return (⟨rest, [], handle⟩, true)
    | _ => none
  | ts => some (⟨ts, [], none⟩, false)

/-- Whether a document has no node: what comes next is the end or belongs to another one. -/
def atDocumentEnd : List Token → Bool
  | [] | .documentEnd :: _ | .documentStart :: _ | .version :: _ | .tagHandle _ _ :: _ => true
  | _ => false

/-- Markers of the end are dropped. -/
def dropEnds : List Token → List Token
  | .documentEnd :: ts => dropEnds ts
  | ts => ts

/-- What a text holds. -/
inductive Content where
  | nothing
  | document (n : Node)

/-- What the tokens of a text hold: no document or one. -/
def Content.ofTokens? (ts : List Token) : Option Content :=
  match dropEnds ts with
  | [] => some .nothing
  | ts => do
    let (f, marked) ← readOpening ts
    let (n, f) ←
      if marked && atDocumentEnd f.tokens then some (.null, f)
      else readNode true false (4 * ts.length + 4) f
    if dropEnds f.tokens = [] then return .document n else none

end PathQuery.Document.Yaml
