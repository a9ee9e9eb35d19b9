import PathQuery.Error
import PathQuery.Page
import PathQuery.Predicate

/-!
# Plan — the instructions that a query handle has received

A plan starts with an entity and its alias and takes instructions. A join has to name an alias that
is known and bring one that is new; every other instruction is taken as it comes.
-/

namespace PathQuery

/-- How a relationship is joined. -/
inductive JoinKind where
  | inner
  | leftOuter
  | rightOuter
  | full
deriving DecidableEq, Repr

namespace JoinKind

def sql : JoinKind → String
  | .inner => "INNER JOIN"
  | .leftOuter => "LEFT OUTER JOIN"
  | .rightOuter => "RIGHT OUTER JOIN"
  | .full => "FULL OUTER JOIN"

/-- The name in documents and settings. -/
def name : JoinKind → String
  | .inner => "inner"
  | .leftOuter => "left_outer"
  | .rightOuter => "right_outer"
  | .full => "full"

/-- The name in event records. -/
def label : JoinKind → String
  | .inner => "Inner"
  | .leftOuter => "LeftOuter"
  | .rightOuter => "RightOuter"
  | .full => "Full"

def all : List JoinKind :=
  [.inner, .leftOuter, .rightOuter, .full]

end JoinKind

/-- A relationship of an aliased entity, joined under an alias of its own. -/
structure Join where
  parent : String
  property : String
  ownAlias : String
  kind : JoinKind
deriving DecidableEq

inductive Direction where
  | ascending
  | descending
deriving DecidableEq, Repr

/-- An alias-qualified property to order by. -/
structure Order where
  property : String
  direction : Direction
deriving DecidableEq

/-- An alias-qualified property and the name it is returned under. -/
structure Column where
  property : String
  name : String
deriving DecidableEq

/-- What a query handle has been told. -/
structure Plan where
  entity : String
  rootAlias : String
  joins : List Join
  /-- clauses that all have to hold -/
  predicates : List Predicate
  orders : List Order
  columns : List Column
  page : Page
  resultType : Option String

/-- One thing that a query handle can be told. -/
inductive Instruction where
  | join (j : Join)
  | restrict (p : Predicate)
  | order (o : Order)
  | offset (n : Nat)
  | limit (n : Nat)
  | select (cs : List Column)
  | bindResult (target : String)

namespace Plan

def start (entity rootAlias : String) : Plan :=
  ⟨entity, rootAlias, [], [], [], [], .unset, none⟩

/-- Whether the alias is that of the root or of a join. -/
def hasAlias (p : Plan) (a : String) : Bool :=
  a == p.rootAlias || p.joins.any fun j => j.ownAlias == a

/-- The first join of that property under that parent. -/
def joinFor? (p : Plan) (parent property : String) : Option Join :=
  p.joins.find? fun j => j.parent == parent && j.property == property

/-- Adds a join under a known alias with a new one. -/
def join (p : Plan) (j : Join) : Except Error Plan :=
  if !p.hasAlias j.parent then
    .error (.engine "create_sub_criteria" s!"unknown parent alias '{j.parent}'")
  else if p.hasAlias j.ownAlias then
    .error (.engine "create_sub_criteria" s!"alias '{j.ownAlias}' is already in use")
  else
    .ok { p with joins := p.joins ++ [j] }

/-- Takes one instruction. -/
def apply (p : Plan) : Instruction → Except Error Plan
  | .join j => p.join j
  | .restrict q => .ok { p with predicates := p.predicates ++ [q] }
  | .order o => .ok { p with orders := p.orders ++ [o] }
  | .offset n => .ok { p with page := { p.page with offset := some n } }
  | .limit n => .ok { p with page := { p.page with limit := some n } }
  | .select cs => .ok { p with columns := cs }
  | .bindResult target => .ok { p with resultType := some target }

/-- All clauses as one term, if there are any. -/
def where? (p : Plan) : Option Predicate :=
  match p.predicates with
  | [] => none
  | [q] => some q
  | qs => some (.and qs)

end Plan

end PathQuery
