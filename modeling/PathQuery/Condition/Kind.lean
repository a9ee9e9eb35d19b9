/-!
# Kind — what a condition asks for

Filters compare, tests and ranges; the other kinds fetch, order, select and paginate.
-/

namespace PathQuery.Condition

/-- What a condition asks for. -/
inductive Kind where
  | equal
  | notEqual
  | isIn
  | isNotIn
  | isNull
  | isNotNull
  | between
  | like
  | notLike
  | greaterThan
  | greaterOrEqual
  | lessThan
  | lessOrEqual
  | fetch
  | orderAsc
  | orderDesc
  | select
  | skip
  | take
deriving DecidableEq, Repr

/-- How many operands a condition carries. -/
inductive Arity where
  | none
  | one
  | two
  | many
deriving DecidableEq, Repr

/-- The name in messages. -/
def Arity.text : Arity → String
  | .none => "None"
  | .one => "One"
  | .two => "Two"
  | .many => "Many"

namespace Kind

/-- The kinds that become terms of a disjunction. -/
def isFilter : Kind → Bool
  | .fetch | .orderAsc | .orderDesc | .select | .skip | .take => false
  | _ => true

def isOrdering : Kind → Bool
  | .orderAsc | .orderDesc => true
  | _ => false

def isPagination : Kind → Bool
  | .skip | .take => true
  | _ => false

/-- The kinds whose operands are converted to the declared type of the property. -/
def converts : Kind → Bool
  | .equal | .notEqual | .isIn | .isNotIn | .between => true
  | _ => false

def arity : Kind → Arity
  | .isNull | .isNotNull | .fetch | .orderAsc | .orderDesc | .select => .none
  | .between => .two
  | .isIn | .isNotIn => .many
  | _ => .one

/-- The name in messages and documents. -/
def text : Kind → String
  | .equal => "Equal"
  | .notEqual => "NotEqual"
  | .isIn => "In"
  | .isNotIn => "NotIn"
  | .isNull => "IsNull"
  | .isNotNull => "IsNotNull"
  | .between => "Between"
  | .like => "Like"
  | .notLike => "NotLike"
  | .greaterThan => "GreaterThan"
  | .greaterOrEqual => "GreaterOrEqual"
  | .lessThan => "LessThan"
  | .lessOrEqual => "LessOrEqual"
  | .fetch => "Fetch"
  | .orderAsc => "OrderAsc"
  | .orderDesc => "OrderDesc"
  | .select => "Select"
  | .skip => "Skip"
  | .take => "Take"

def all : List Kind :=
  [.equal, .notEqual, .isIn, .isNotIn, .isNull, .isNotNull, .between, .like, .notLike,
    .greaterThan, .greaterOrEqual, .lessThan, .lessOrEqual, .fetch, .orderAsc, .orderDesc,
    .select, .skip, .take]

def ofText? (s : String) : Option Kind :=
  all.find? fun k => k.text == s

end Kind

end PathQuery.Condition
