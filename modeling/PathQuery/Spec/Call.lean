import PathQuery.Spec.Basic

/-!
# Call — specifications written as chains of calls

A plain call opens a group; a call that continues the one before goes into the group of that call.
A chain stops at its first failure.
-/

namespace PathQuery

open Condition (Kind)

/-- What one call asks for. -/
inductive Request where
  | condition (a : Accessor) (kind : Kind) (operands : Operands)
  | page (kind : Kind) (count : Int64)

namespace Request

def equal (a : Accessor) (v : Value) : Request := .condition a .equal (.single v)

def notEqual (a : Accessor) (v : Value) : Request := .condition a .notEqual (.single v)

def isIn (a : Accessor) (vs : List Value) : Request := .condition a .isIn (.many vs)

def isNotIn (a : Accessor) (vs : List Value) : Request := .condition a .isNotIn (.many vs)

def isNull (a : Accessor) : Request := .condition a .isNull .none

def isNotNull (a : Accessor) : Request := .condition a .isNotNull .none

def between (a : Accessor) (low high : Value) : Request := .condition a .between (.pair low high)

def isLike (a : Accessor) (pattern : Value) : Request := .condition a .like (.single pattern)

def isNotLike (a : Accessor) (pattern : Value) : Request :=
  .condition a .notLike (.single pattern)

def greaterThan (a : Accessor) (v : Value) : Request := .condition a .greaterThan (.single v)

def greaterThanOrEqual (a : Accessor) (v : Value) : Request :=
  .condition a .greaterOrEqual (.single v)

def lessThan (a : Accessor) (v : Value) : Request := .condition a .lessThan (.single v)

def lessThanOrEqual (a : Accessor) (v : Value) : Request := .condition a .lessOrEqual (.single v)

/-- Joins a relationship without filtering on it. -/
def fetch (a : Accessor) : Request := .condition a .fetch .none

def orderByAscending (a : Accessor) : Request := .condition a .orderAsc .none

def orderByDescending (a : Accessor) : Request := .condition a .orderDesc .none

/-- Selects a column, the columns of a relationship, or several at once by a tuple. -/
def select (a : Accessor) : Request := .condition a .select .none

def skip (count : Int64) : Request := .page .skip count

def take (count : Int64) : Request := .page .take count

end Request

/-- A request, and whether it continues the group of the call before it. -/
structure Call where
  request : Request
  continues : Bool

namespace Spec

/-- Puts a request somewhere. -/
def perform (placement : Placement) : Request → Action Spec Nat
  | .condition a kind operands => insert placement a kind operands
  | .page kind count => paginate placement kind count

/-- Where a call goes after one that went into group `previous`. -/
def Call.placement (c : Call) : Option Nat → Placement
  | some previous => if c.continues then .group previous else .newGroup
  | none => .newGroup

/-- Makes the calls one after the other, up to the first failure, and answers what each gave. -/
def chainFrom (previous : Option Nat) :
    List Call → Logged Spec → List (Except Error Nat) × Logged Spec
  | [], s => ([], s)
  | c :: cs, s =>
    match perform (Call.placement c previous) c.request s with
    | .ok index s =>
      let (answers, s) := chainFrom (some index) cs s
      (.ok index :: answers, s)
    | .error e s => ([.error e], s)

/-- Makes the calls of one chain. -/
def chain (cs : List Call) (s : Logged Spec) : List (Except Error Nat) × Logged Spec :=
  chainFrom none cs s

end Spec

end PathQuery
