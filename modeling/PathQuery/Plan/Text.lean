import PathQuery.Plan.Basic

/-!
# Text — a plan as a statement and as a document
-/

namespace PathQuery

def Join.sql (j : Join) : String :=
  j.kind.sql ++ " " ++ j.parent ++ "." ++ j.property ++ " " ++ j.ownAlias

def Join.json (j : Join) : Json :=
  .obj [("parent_alias", .str j.parent), ("property", .str j.property), ("alias", .str j.ownAlias),
    ("kind", .str j.kind.name)]

namespace Direction

def sql : Direction → String
  | .ascending => "ASC"
  | .descending => "DESC"

/-- The name in documents. -/
def name : Direction → String
  | .ascending => "asc"
  | .descending => "desc"

end Direction

def Order.sql (o : Order) : String :=
  o.property ++ " " ++ o.direction.sql

def Order.json (o : Order) : Json :=
  .obj [("property", .str o.property), ("direction", .str o.direction.name)]

def Column.sql (c : Column) : String :=
  c.property ++ " AS " ++ c.name

def Column.json (c : Column) : Json :=
  .obj [("property", .str c.property), ("alias", .str c.name)]

namespace Plan

/-- The selected columns, or everything of the root entity. -/
def selectSql (p : Plan) : String :=
  match p.columns with
  | [] => p.rootAlias ++ ".*"
  | cs => ", ".intercalate (cs.map Column.sql)

def whereSql (p : Plan) : String :=
  match p.predicates with
  | [] => ""
  | qs => " WHERE " ++ " AND ".intercalate (qs.map Predicate.sql)

def orderSql (p : Plan) : String :=
  match p.orders with
  | [] => ""
  | os => " ORDER BY " ++ ", ".intercalate (os.map Order.sql)

/-- The joins, with a space before each. -/
def joinSql (p : Plan) : String :=
  String.join (p.joins.map fun j => " " ++ j.sql)

/-- The plan as one statement. -/
def sql (p : Plan) : String :=
  "SELECT " ++ p.selectSql ++ " FROM " ++ p.entity ++ " " ++ p.rootAlias ++ p.joinSql ++
    p.whereSql ++ p.orderSql ++ p.page.sql

def json (p : Plan) : Json :=
  .obj [("entity", .str p.entity), ("root_alias", .str p.rootAlias),
    ("joins", .arr (p.joins.map Join.json)),
    ("predicates", .arr (p.predicates.map Predicate.json)),
    ("orders", .arr (p.orders.map Order.json)),
    ("projections", .arr (p.columns.map Column.json)),
    ("pagination", p.page.json),
    ("result_type", .ofOption .str p.resultType)]

end Plan

end PathQuery
