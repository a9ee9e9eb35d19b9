import PathQuery.Proofs.Operands

/-!
# The places of operands in a statement

A statement is a sequence of pieces: texts that the plan settles, and operands. The pieces of a
term spell its text, and their operands are those that the term holds, from left to right.
-/

namespace PathQuery

/-- A part of a statement: a text of its own, or an operand. -/
inductive Piece where
  | text (s : String)
  | operand (v : Value)

namespace Piece

def sql : Piece → String
  | .text s => s
  | .operand v => v.sql

def operand? : Piece → Option Value
  | .text _ => none
  | .operand v => some v

/-- The text of pieces one after the other. -/
def spell (ps : List Piece) : String :=
  String.join (ps.map sql)

/-- The operands among pieces, in their order. -/
def operands (ps : List Piece) : List Value :=
  ps.filterMap operand?

theorem spell_cons (p : Piece) (ps : List Piece) : spell (p :: ps) = p.sql ++ spell ps := by
  simp [spell]

theorem spell_append (ps qs : List Piece) : spell (ps ++ qs) = spell ps ++ spell qs := by
  simp [spell]

theorem operands_append (ps qs : List Piece) : operands (ps ++ qs) = operands ps ++ operands qs :=
  List.filterMap_append

theorem operands_cons_text (s : String) (ps : List Piece) :
    operands (.text s :: ps) = operands ps :=
  rfl

/-- Pieces between brackets with an operator between them; those of a single term stand alone. -/
def grouped (operator : String) : List (List Piece) → List Piece
  | [] => []
  | [ps] => ps
  | pss => .text "(" :: (List.intercalate [.text operator] pss ++ [.text ")"])

theorem spell_intercalate (separator : String) (pss : List (List Piece)) :
    spell (List.intercalate [.text separator] pss) = separator.intercalate (pss.map spell) := by
  induction pss with
  | nil => rfl
  | cons ps rest ih =>
    cases rest with
    | nil => simp
    | cons qs rest =>
      rw [List.intercalate_cons_cons, spell_append, spell_append, ih]
      simp [spell, sql, String.append_assoc]

theorem operands_intercalate (separator : String) (pss : List (List Piece)) :
    operands (List.intercalate [.text separator] pss) = pss.flatMap operands := by
  induction pss with
  | nil => rfl
  | cons ps rest ih =>
    cases rest with
    | nil => simp
    | cons qs rest =>
      rw [List.intercalate_cons_cons, operands_append, operands_append, ih, List.flatMap_cons,
        List.append_assoc]
      rfl

theorem spell_grouped (operator : String) (pss : List (List Piece)) :
    spell (grouped operator pss) = Predicate.grouped operator (pss.map spell) := by
  match pss with
  | [] => rfl
  | [ps] => rfl
  | ps :: qs :: rest =>
    change spell (.text "(" :: (List.intercalate [.text operator] (ps :: qs :: rest) ++ _)) = _
    rw [spell_cons, spell_append, spell_intercalate, ← String.append_assoc]
    rfl

theorem operands_grouped (operator : String) (pss : List (List Piece)) :
    operands (grouped operator pss) = pss.flatMap operands := by
  match pss with
  | [] => rfl
  | [ps] => simp [grouped]
  | ps :: qs :: rest =>
    change operands (.text "(" :: (List.intercalate [.text operator] (ps :: qs :: rest) ++ _)) = _
    rw [operands_cons_text, operands_append, operands_intercalate]
    exact List.append_nil _

end Piece

namespace Predicate

mutual

/-- The term as it stands in a statement, with the places of its operands. -/
def pieces : Predicate → List Piece
  | .equal property .null => [.text (property ++ " IS "), .operand .null]
  | .equal property value => [.text (property ++ " = "), .operand value]
  | .not term => .text "NOT (" :: (pieces term ++ [.text ")"])
  | .oneOf property values =>
    .text (property ++ " IN (") ::
      (List.intercalate [.text ", "] (values.map fun v => [.operand v]) ++ [.text ")"])
  | .between property low high =>
    [.text (property ++ " BETWEEN "), .operand low, .text " AND ", .operand high]
  | .isNull property => [.text (property ++ " IS NULL")]
  | .isNotNull property => [.text (property ++ " IS NOT NULL")]
  | .like property pattern => [.text (property ++ " LIKE "), .operand pattern]
  | .compare property op value => [.text (property ++ " " ++ op.sql ++ " "), .operand value]
  | .and terms => Piece.grouped " AND " (allPieces terms)
  | .or terms => Piece.grouped " OR " (allPieces terms)

def allPieces : List Predicate → List (List Piece)
  | [] => []
  | t :: ts => pieces t :: allPieces ts

end

mutual

theorem spell_pieces : (p : Predicate) → Piece.spell p.pieces = p.sql
  | .not p => by
    rw [pieces, Piece.spell_cons, Piece.spell_append, spell_pieces p, sql, ← String.append_assoc]
    rfl
  | .and ps => by rw [pieces, Piece.spell_grouped, spell_allPieces ps, sql]
  | .or ps => by rw [pieces, Piece.spell_grouped, spell_allPieces ps, sql]
  | .equal property value => by
    cases value <;>
      simp [pieces, Piece.spell, Piece.sql, sql, Value.sql, String.append_assoc]
  | .oneOf property values => by
    have hvalues : (values.map fun v => [Piece.operand v]).map Piece.spell =
        values.map Value.sql := by
      simp [Piece.spell, Piece.sql, Function.comp_def]
    rw [pieces, Piece.spell_cons, Piece.spell_append, Piece.spell_intercalate, hvalues, sql,
      ← String.append_assoc]
    rfl
  | .between property low high => by
    simp [pieces, Piece.spell, Piece.sql, sql, String.append_assoc]
  | .isNull property => by
    simp [pieces, Piece.spell, Piece.sql, sql]
  | .isNotNull property => by
    simp [pieces, Piece.spell, Piece.sql, sql]
  | .like property pattern => by
    simp [pieces, Piece.spell, Piece.sql, sql, String.append_assoc]
  | .compare property op value => by
    simp [pieces, Piece.spell, Piece.sql, sql, String.append_assoc]

theorem spell_allPieces : (ps : List Predicate) → (allPieces ps).map Piece.spell = sqls ps
  | [] => rfl
  | p :: ps => by rw [allPieces, List.map_cons, spell_pieces p, spell_allPieces ps, sqls]

end

mutual

theorem operands_pieces : (p : Predicate) → Piece.operands p.pieces = p.literals
  | .not p => by
    rw [pieces, Piece.operands_cons_text, Piece.operands_append, operands_pieces p, literals]
    exact List.append_nil _
  | .and ps => by rw [pieces, Piece.operands_grouped, operands_allPieces ps, literals]
  | .or ps => by rw [pieces, Piece.operands_grouped, operands_allPieces ps, literals]
  | .equal property value => by
    cases value <;> rfl
  | .oneOf property values => by
    have hvalues : (values.map fun v => [Piece.operand v]).flatMap Piece.operands = values := by
      rw [List.flatMap_map]
      exact List.flatMap_singleton' values
    rw [pieces, Piece.operands_cons_text, Piece.operands_append, Piece.operands_intercalate,
      hvalues, literals]
    exact List.append_nil _
  | .between _ _ _ => rfl
  | .isNull _ => rfl
  | .isNotNull _ => rfl
  | .like _ _ => rfl
  | .compare _ _ _ => rfl

theorem operands_allPieces :
    (ps : List Predicate) → (allPieces ps).flatMap Piece.operands = allLiterals ps
  | [] => rfl
  | p :: ps => by
    rw [allPieces, List.flatMap_cons, operands_pieces p, operands_allPieces ps, allLiterals]

end

theorem allLiterals_eq (ps : List Predicate) : allLiterals ps = ps.flatMap literals := by
  induction ps with
  | nil => rfl
  | cons p ps ih => rw [allLiterals, ih, List.flatMap_cons]

end Predicate

namespace Plan

/-- The conditions of a plan as they stand in its statement, with the places of the operands. -/
def pieces (p : Plan) : List Piece :=
  match p.predicates with
  | [] => []
  | qs => .text " WHERE " :: List.intercalate [.text " AND "] (qs.map Predicate.pieces)

theorem spell_pieces (p : Plan) : Piece.spell p.pieces = p.whereSql := by
  unfold pieces whereSql
  cases p.predicates with
  | nil => rfl
  | cons q qs =>
    have hsqls : ((q :: qs).map Predicate.pieces).map Piece.spell =
        (q :: qs).map Predicate.sql := by
      rw [List.map_map]
      exact congrArg (List.map · (q :: qs)) (funext Predicate.spell_pieces)
    dsimp only
    rw [Piece.spell_cons, Piece.spell_intercalate, hsqls]
    rfl

theorem operands_pieces (p : Plan) :
    Piece.operands p.pieces = p.predicates.flatMap Predicate.literals := by
  unfold pieces
  cases p.predicates with
  | nil => rfl
  | cons q qs =>
    dsimp only
    rw [Piece.operands_cons_text, Piece.operands_intercalate, List.flatMap_map]
    exact congrArg (List.flatMap · (q :: qs)) (funext Predicate.operands_pieces)

end Plan

end PathQuery
