import PathQuery.Proofs.Compile

/-!
# The properties that a plan refers to

Plans name properties in the terms of their clauses, in orders and in columns. A plan that was
compiled names those of its specification, one by one and in the same order, each of them qualified
by the alias of its chain.
-/

namespace PathQuery

open Condition (Kind Group)

/-! ## References of plans and specifications -/

namespace Predicate

mutual

/-- The properties that a term is about, from left to right. -/
def properties : Predicate → List String
  | .equal property _ => [property]
  | .not term => properties term
  | .oneOf property _ => [property]
  | .between property _ _ => [property]
  | .isNull property => [property]
  | .isNotNull property => [property]
  | .like property _ => [property]
  | .compare property _ _ => [property]
  | .and terms => allProperties terms
  | .or terms => allProperties terms

/-- The properties that terms are about, one term after the other. -/
def allProperties : List Predicate → List String
  | [] => []
  | t :: ts => properties t ++ allProperties ts

end

theorem allProperties_eq (ts : List Predicate) : allProperties ts = ts.flatMap properties := by
  induction ts with
  | nil => rfl
  | cons t ts ih => rw [allProperties, ih, List.flatMap_cons]

theorem properties_or (ts : List Predicate) : (or ts).properties = ts.flatMap properties := by
  rw [properties, allProperties_eq]

end Predicate

/-- The chains and names that the conditions of some kinds refer to. -/
def Spec.references (spec : Spec) (p : Kind → Bool) : List (List String × String) :=
  (spec.conditions.filter (p ·.kind)).flatMap (Condition.references spec.schema)

-- The references of conditions are the ends of chains that are joined.
theorem Spec.mem_chains_of_mem_references {spec : Spec} {p : Kind → Bool}
    {r : List String × String} (h : r ∈ spec.references p) : r.1 = [] ∨ r.1 ∈ spec.chains := by
  rcases List.mem_flatMap.1 h with ⟨c, hc, hr⟩
  exact (Condition.mem_chains_of_mem_references hr).imp_right
    (mem_chains_of_mem (List.mem_filter.1 hc).1)

/-! ## Lists -/

section Lists

variable {α β γ : Type} {f : α → List γ} {p : α → Bool} {xs : List α} {ys : List β}

theorem flatMap_eq_of_forall₂ {g : β → List γ}
    (h : List.Forall₂ (fun x y => g y = f x) xs ys) : ys.flatMap g = xs.flatMap f := by
  induction h with
  | nil => rfl
  | cons hxy _ ih => rw [List.flatMap_cons, List.flatMap_cons, hxy, ih]

theorem flatMap_filter_eq (h : ∀ x, p x = false → f x = []) (xs : List α) :
    (xs.filter p).flatMap f = xs.flatMap f := by
  induction xs with
  | nil => rfl
  | cons x xs ih =>
    rw [List.flatMap_cons, ← ih]
    cases hx : p x with
    | true => rw [List.filter_cons_of_pos hx, List.flatMap_cons]
    | false => rw [List.filter_cons_of_neg (by rw [hx]; decide), h x hx, List.nil_append]

theorem map_flatMap_eq {k : γ → β} {g : α → List β} (hother : ∀ x, p x = false → f x = [])
    (hsame : ∀ x, p x = true → (f x).map k = g x) (xs : List α) :
    (xs.flatMap f).map k = (xs.filter p).flatMap g := by
  rw [← flatMap_filter_eq hother, List.map_flatMap]
  exact List.flatMap_congr fun x hx => hsame x (List.mem_filter.1 hx).2

end Lists

/-! ## References of terms, orders and columns -/

namespace Condition

variable {c : Condition} {path : Path} {schema : Schema} {t : JoinTree} {term : Predicate}

/-- The references of a condition as texts. -/
def qualified (schema : Schema) (t : JoinTree) (c : Condition) : List String :=
  (c.references schema).map fun r => t.reference r.1 r.2

theorem qualified_of_ne (hpath : c.path = some path) (hfetch : c.kind ≠ .fetch)
    (hselect : c.kind ≠ .select) :
    c.qualified schema t = [t.reference path.way path.terminal.name] := by
  rw [qualified, references]
  split
  next hnone => rw [hpath] at hnone; cases hnone
  next hkind => exact absurd hkind hfetch
  next hkind => exact absurd hkind hselect
  next hsome _ _ =>
    cases hpath.symm.trans hsome
    rfl

theorem Shape.properties_eq {property : String} {kind : Kind} {vs : List Value}
    (h : Shape property kind vs term) : term.properties = [property] := by
  cases h <;> rfl

theorem Shape.kind_ne {property : String} {kind : Kind} {vs : List Value}
    (h : Shape property kind vs term) : kind ≠ .fetch ∧ kind ≠ .select := by
  cases h <;> decide

theorem Becomes.properties_eq (h : c.Becomes t term) : term.properties = c.qualified schema t := by
  rcases h with ⟨path, hpath, vs, -, hshape⟩
  rcases hshape.kind_ne with ⟨hfetch, hselect⟩
  rw [hshape.properties_eq, qualified_of_ne hpath hfetch hselect]

theorem properties_orders (h : c.kind.isOrdering = true) :
    (c.orders t).map (·.property) = c.qualified schema t := by
  have hkind : c.kind = .orderAsc ∨ c.kind = .orderDesc := by
    revert h
    cases c.kind <;> decide
  cases hpath : c.path with
  | none =>
    rw [orders, qualified, references, hpath]
    rfl
  | some path =>
    rcases hkind with hkind | hkind
    · rw [qualified_of_ne hpath (by rw [hkind]; decide) (by rw [hkind]; decide), orders, hpath,
        hkind]
      rfl
    · rw [qualified_of_ne hpath (by rw [hkind]; decide) (by rw [hkind]; decide), orders, hpath,
        hkind]
      rfl

theorem properties_columns (h : c.kind = .select) :
    (c.columns schema t).map (·.property) = c.qualified schema t := by
  cases hpath : c.path with
  | none =>
    rw [columns, qualified, references, hpath]
    rfl
  | some path =>
    rw [columns, qualified, references, hpath, h]
    exact List.map_map

end Condition

namespace Spec

variable {settings : Settings} {spec : Spec} {c : Compilation} {clauses : List Predicate}
  {t : JoinTree} {after : Plan}

theorem map_references (p : Kind → Bool) :
    (spec.references p).map (fun r => t.reference r.1 r.2) =
      (spec.conditions.filter (p ·.kind)).flatMap (Condition.qualified spec.schema t) := by
  rw [references, List.map_flatMap]
  rfl

-- The filters of the groups that have some are all filters.
theorem flatMap_filters (spec : Spec) :
    (spec.groups.filter Group.hasFilter).flatMap Group.filters =
      spec.conditions.filter (·.kind.isFilter) := by
  rw [flatMap_filter_eq (fun _ => Group.filters_eq_nil.2), conditions, List.filter_flatMap]
  rfl

theorem properties_clauses
    (h : List.Forall₂ (Group.Clause t) (spec.groups.filter Group.hasFilter) clauses) :
    clauses.flatMap Predicate.properties =
      (spec.references Kind.isFilter).map fun r => t.reference r.1 r.2 := by
  -- the properties of a clause are those of its terms, one for each filter
  have hclause : ∀ g clause, Group.Clause t g clause →
      clause.properties = g.filters.flatMap (Condition.qualified spec.schema t) := by
    intro g _ hgroup
    rcases hgroup with ⟨terms, rfl, hterms⟩
    rw [Predicate.properties_or]
    exact flatMap_eq_of_forall₂ (hterms.imp fun c term => Condition.Becomes.properties_eq)
  rw [flatMap_eq_of_forall₂ (h.imp hclause), map_references, ← flatMap_filters, List.flatMap_assoc]

theorem properties_orders :
    (spec.conditions.flatMap (Condition.orders t)).map (·.property) =
      (spec.references Kind.isOrdering).map fun r => t.reference r.1 r.2 := by
  rw [map_references]
  exact map_flatMap_eq (fun _ => Condition.orders_eq_nil)
    (fun _ => Condition.properties_orders) _

theorem properties_columns :
    (spec.columns t).map (·.property) =
      (spec.references (· == .select)).map fun r => t.reference r.1 r.2 := by
  rw [map_references]
  refine map_flatMap_eq (fun c hc => ?_) (fun c hc => ?_) _
  · exact Condition.columns_eq_nil (beq_eq_false_iff_ne.1 hc)
  · exact Condition.properties_columns (beq_iff_eq.1 hc)

/-- The alias of a chain in the plan of a specification. -/
def aliasOf (settings : Settings) (spec : Spec) (chain : List String) : String :=
  chainAlias settings.rootAlias settings.stem spec.chains chain

/-- The plan refers to what the specification refers to: its terms to the properties of filters, its
orders to those of orderings and its columns to those of selections. -/
structure Named (settings : Settings) (spec : Spec) (plan : Plan) : Prop where
  predicates : plan.predicates.flatMap Predicate.properties =
    (spec.references Kind.isFilter).map fun r => aliasOf settings spec r.1 ++ "." ++ r.2
  orders : plan.orders.map (·.property) =
    (spec.references Kind.isOrdering).map fun r => aliasOf settings spec r.1 ++ "." ++ r.2
  columns : plan.columns.map (·.property) =
    (spec.references (· == .select)).map fun r => aliasOf settings spec r.1 ++ "." ++ r.2

theorem Compiled.named
    (h : Compiled settings spec (.start spec.root settings.rootAlias) c clauses after) :
    Named settings spec after := by
  have hreference : (fun r : List String × String => c.tree.reference r.1 r.2) =
      fun r => aliasOf settings spec r.1 ++ "." ++ r.2 := by
    funext r
    rw [JoinTree.reference, h.aliasAt]
    rfl
  refine ⟨?_, ?_, ?_⟩
  · rw [h.plan, ← hreference, ← properties_clauses h.groups]
    rfl
  · rw [h.plan, ← hreference, ← properties_orders]
    rfl
  · rw [h.plan, ← hreference, ← properties_columns]
    cases spec.columns c.tree <;> rfl

end Spec

end PathQuery
