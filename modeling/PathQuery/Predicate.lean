import PathQuery.Value.Sql

/-!
# Predicate — terms that filter rows

A term is about one alias-qualified property, or negates or combines other terms.
-/

namespace PathQuery

/-- An ordered comparison; its operand is taken as it is. -/
inductive Comparison where
  | gt
  | ge
  | lt
  | le
deriving DecidableEq, Repr

namespace Comparison

def sql : Comparison → String
  | .gt => ">"
  | .ge => ">="
  | .lt => "<"
  | .le => "<="

/-- The name in documents. -/
def name : Comparison → String
  | .gt => "gt"
  | .ge => "ge"
  | .lt => "lt"
  | .le => "le"

end Comparison

/-- A term that filters rows. -/
inductive Predicate where
  | equal (property : String) (value : Value)
  | not (term : Predicate)
  | oneOf (property : String) (values : List Value)
  | between (property : String) (low high : Value)
  | isNull (property : String)
  | isNotNull (property : String)
  | like (property : String) (pattern : Value)
  | compare (property : String) (op : Comparison) (value : Value)
  | and (terms : List Predicate)
  | or (terms : List Predicate)

namespace Predicate

/-- Texts between brackets with an operator between them; a single text stands alone. -/
def grouped (operator : String) : List String → String
  | [] => ""
  | [t] => t
  | ts => "(" ++ operator.intercalate ts ++ ")"

mutual

/-- The number of terms that are about a property. -/
def size : Predicate → Nat
  | .not term => size term
  | .and terms => sizes terms
  | .or terms => sizes terms
  | _ => 1

/-- The sum of the sizes. -/
def sizes : List Predicate → Nat
  | [] => 0
  | t :: ts => size t + sizes ts

end

mutual

/-- The term as it stands in a statement. -/
def sql : Predicate → String
  | .equal property .null => property ++ " IS NULL"
  | .equal property value => property ++ " = " ++ value.sql
  | .not term => "NOT (" ++ sql term ++ ")"
  | .oneOf property values =>
    property ++ " IN (" ++ ", ".intercalate (values.map Value.sql) ++ ")"
  | .between property low high => property ++ " BETWEEN " ++ low.sql ++ " AND " ++ high.sql
  | .isNull property => property ++ " IS NULL"
  | .isNotNull property => property ++ " IS NOT NULL"
  | .like property pattern => property ++ " LIKE " ++ pattern.sql
  | .compare property op value => property ++ " " ++ op.sql ++ " " ++ value.sql
  | .and terms => grouped " AND " (sqls terms)
  | .or terms => grouped " OR " (sqls terms)

/-- The terms as they stand in a statement, one by one. -/
def sqls : List Predicate → List String
  | [] => []
  | t :: ts => sql t :: sqls ts

end

mutual

def json : Predicate → Json
  | .equal property value =>
    .obj [("type", .str "eq"), ("property", .str property), ("value", value.json)]
  | .not term => .obj [("type", .str "not"), ("term", json term)]
  | .oneOf property values =>
    .obj [("type", .str "in"), ("property", .str property),
      ("values", .arr (values.map Value.json))]
  | .between property low high =>
    .obj [("type", .str "between"), ("property", .str property), ("low", low.json),
      ("high", high.json)]
  | .isNull property => .obj [("type", .str "is_null"), ("property", .str property)]
  | .isNotNull property => .obj [("type", .str "is_not_null"), ("property", .str property)]
  | .like property pattern =>
    .obj [("type", .str "like"), ("property", .str property), ("pattern", pattern.json)]
  | .compare property op value =>
    .obj [("type", .str "compare"), ("property", .str property), ("op", .str op.name),
      ("value", value.json)]
  | .and terms => .obj [("type", .str "and"), ("terms", .arr (jsons terms))]
  | .or terms => .obj [("type", .str "or"), ("terms", .arr (jsons terms))]

def jsons : List Predicate → List Json
  | [] => []
  | t :: ts => json t :: jsons ts

end

end Predicate

end PathQuery
