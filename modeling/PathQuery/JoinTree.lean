import PathQuery.Action
import PathQuery.Fields
import PathQuery.Path

/-!
# JoinTree — relationships that share their joins

The nodes stand in a list, the root first, and are known by their places in it. A node remembers its
parent and the children that it has got by the names of their relationships, so each relationship of
a node is joined once. New nodes take the next number of a counter into their aliases.
-/

namespace PathQuery

open PathQuery.Text

/-- A joined relationship; the root stands for its entity and has no parent. -/
structure JoinNode where
  property : String
  declared : Declared
  kind : JoinKind
  ownAlias : String
  parent : Option Nat
  /-- the nodes of the relationships of this one, by name -/
  children : Fields Nat
deriving DecidableEq

namespace JoinNode

instance : Inhabited JoinNode :=
  ⟨⟨"", .reference "", .inner, "", none, []⟩⟩

/-- The node of a relationship. -/
def child? (n : JoinNode) (name : String) : Option Nat :=
  n.children.get? name

/-- Remembers the node of a relationship. -/
def adopt (n : JoinNode) (name : String) (id : Nat) : JoinNode :=
  { n with children := n.children.insert name id }

end JoinNode

/-- The relationships joined so far. -/
structure JoinTree where
  nodes : List JoinNode
  /-- what generated aliases begin with -/
  stem : String
  /-- the number in the next alias -/
  next : Nat
deriving DecidableEq

namespace JoinTree

def start (root rootAlias stem : String) (kind : JoinKind) : JoinTree :=
  ⟨[⟨root, .reference root, kind, rootAlias, none, []⟩], stem, 1⟩

/-- The node with a number. Numbers come from the tree; one that it has not given out stands for a
node without a name, a parent and children. -/
def node (t : JoinTree) (id : Nat) : JoinNode :=
  t.nodes.getD id default

/-- The entity that the root stands for. -/
def root (t : JoinTree) : String :=
  (t.node 0).property

def rootAlias (t : JoinTree) : String :=
  (t.node 0).ownAlias

/-- How the relationships are joined. -/
def kind (t : JoinTree) : JoinKind :=
  (t.node 0).kind

/-- The number of nodes, the root included. -/
def size (t : JoinTree) : Nat :=
  t.nodes.length

/-- The number of joins. -/
def joinCount (t : JoinTree) : Nat :=
  t.size - 1

/-- The alias of a node. -/
def aliasOf (t : JoinTree) (id : Nat) : String :=
  (t.node id).ownAlias

/-- The aliases of all joins in their order. -/
def aliases (t : JoinTree) : List String :=
  t.nodes.tail.map (·.ownAlias)

/-- The node of a relationship of another node. -/
def child? (t : JoinTree) (parent : Nat) (name : String) : Option Nat :=
  (t.node parent).child? name

/-- The node that a node was joined to. -/
def parent? (t : JoinTree) (id : Nat) : Option Nat :=
  (t.node id).parent

/-- The relationship that a node stands for. -/
def property (t : JoinTree) (id : Nat) : String :=
  (t.node id).property

def declared (t : JoinTree) (id : Nat) : Declared :=
  (t.node id).declared

/-- Goes from a node up to the root and puts the relationships on the way in front of other names.
Parents stand before their nodes, so the way ends. -/
def climb (t : JoinTree) (id : Nat) (names : List String) : List String :=
  match t.parent? id with
  | none => names
  | some parent =>
    if parent < id then t.climb parent (t.property id :: names) else t.property id :: names
termination_by id

/-- The names from the root to a node, with points between them. -/
def pathOf (t : JoinTree) (id : Nat) : String :=
  ".".intercalate (t.climb id [])

/-- The alias of the next join. -/
def nextAlias (t : JoinTree) : String :=
  t.stem ++ naturalText t.next

/-- Adds the node of a relationship under the next alias, makes its parent remember it and counts
on. -/
def grow (t : JoinTree) (parent : Nat) (segment : Segment) : JoinTree :=
  let node : JoinNode :=
    ⟨segment.name, segment.declared, t.kind, t.nextAlias, some parent, []⟩
  { t with
    nodes := (t.nodes ++ [node]).modify parent (·.adopt segment.name t.size)
    next := t.next + 1 }

end JoinTree

/-- A compilation in progress: the joins it knows and the plan it writes. -/
structure Session where
  tree : JoinTree
  plan : Plan

namespace Session

/-- Gives the plan an instruction. -/
def issue (i : Instruction) : Action Session Unit :=
  Action.focus Session.plan (fun s p => { s with plan := p }) (Plan.perform i)

/-- The alias of a node. -/
def aliasOf (id : Nat) : Action Session String := do
  return (← Action.current).tree.aliasOf id

/-- The node of a relationship of a known node. A relationship that is not joined yet is joined
under the next alias; where the plan refuses the join, the tree stays as it is. -/
def join (parent : Nat) (segment : Segment) : Action Session Nat := do
  let tree := (← Action.current).tree
  match tree.child? parent segment.name with
  | some id => return id
  | none =>
    let j : Join := ⟨tree.aliasOf parent, segment.name, tree.nextAlias, tree.kind⟩
    issue (.join j)
    Action.put { (← Action.current) with tree := tree.grow parent segment }
    Action.report (.joined j)
    return tree.size

/-- The node that owns the end of a path; the relationships on the way are joined. -/
def owner (path : Path) : Action Session Nat :=
  path.navigation.foldlM join 0

/-- The end of a path, qualified by the alias of the node that owns it. -/
def qualify (path : Path) : Action Session String := do
  let id ← owner path
  return (← aliasOf id) ++ "." ++ path.terminal.name

end Session

end PathQuery
