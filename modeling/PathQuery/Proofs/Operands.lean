import PathQuery.Proofs.Clauses
import PathQuery.Proofs.Completeness

/-!
# The operands that an engine receives

A conversion gives a value of the type asked for, or null for null, and converting once more changes
nothing. So the terms of a plan hold operands of the type of the property that they are compared
with, wherever that property has one.
-/

namespace PathQuery

open Condition (Kind Group)

/-! ## Converted values -/

namespace Value

variable {v w : Value} {t : Scalar}

@[simp]
theorem isNull_iff : v.isNull = true ↔ v = .null := by
  cases v <;> simp [isNull]

-- Whatever the value was, it is answered under the constructor of the target.
theorem scalar?_of_readAs? (h : v.readAs? t = some w) : w.scalar? = some t := by
  cases t <;> simp only [readAs?, Option.map_eq_some_iff, Option.some.injEq] at h
  case string => rw [← h]; rfl
  all_goals
    obtain ⟨x, -, rfl⟩ := h
    rfl

-- A value that has the type already is read as it is.
theorem readAs?_of_scalar? (h : w.scalar? = some t) : w.readAs? t = some w := by
  cases w <;> cases h <;> rfl

/-- The value `w` stands for `v` where a value of the type is asked for: it is null exactly for
null, otherwise it has the type, and converting it again changes nothing. -/
structure Settled (t : Scalar) (v w : Value) : Prop where
  null : w = .null ↔ v = .null
  typed : v ≠ .null → w.scalar? = some t
  fixed : w.convert t = some w

theorem settled_of_convert (h : v.convert t = some w) : Settled t v w := by
  unfold convert at h
  split at h
  next hnull =>
    have hv : v = .null := isNull_iff.1 hnull
    obtain rfl : Value.null = w := Option.some.inj h
    exact ⟨by simp [hv], fun hne => absurd hv hne, rfl⟩
  next hnull =>
    have hv : v ≠ .null := fun heq => hnull (isNull_iff.2 heq)
    have htyped : w.scalar? = some t := scalar?_of_readAs? h
    have hw : w ≠ .null := by
      intro heq
      rw [heq] at htyped
      cases htyped
    have hread : w.isNull = false := Bool.eq_false_iff.2 fun heq => hw (isNull_iff.1 heq)
    refine ⟨by simp [hv, hw], fun _ => htyped, ?_⟩
    rw [convert, hread, if_neg Bool.false_ne_true]
    exact readAs?_of_scalar? htyped

end Value

/-! ## Operands in terms -/

namespace Predicate

mutual

/-- The operands that a term holds, from left to right. -/
def literals : Predicate → List Value
  | .equal _ value => [value]
  | .not term => literals term
  | .oneOf _ values => values
  | .between _ low high => [low, high]
  | .isNull _ => []
  | .isNotNull _ => []
  | .like _ pattern => [pattern]
  | .compare _ _ value => [value]
  | .and terms => allLiterals terms
  | .or terms => allLiterals terms

/-- The operands that terms hold, one term after the other. -/
def allLiterals : List Predicate → List Value
  | [] => []
  | t :: ts => literals t ++ allLiterals ts

end

end Predicate

/-- A property is compared by its own type; one that may be null by the type of a number or of a
time, and by none otherwise. -/
theorem Declared.comparison?_eq_some_iff {d : Declared} {t : Scalar} :
    d.comparison? = some t ↔
      d = .scalar t ∨ d = .nullable t ∧ (t.isNumeric = true ∨ t.isTemporal = true) := by
  cases d with
  | nullable u =>
    simp only [comparison?, Option.ite_none_right_eq_some, Option.some.injEq, Bool.or_eq_true,
      reduceCtorEq, false_or, nullable.injEq]
    constructor
    · rintro ⟨h, rfl⟩
      exact ⟨rfl, h⟩
    · rintro ⟨rfl, h⟩
      exact ⟨h, rfl⟩
  | _ => simp [comparison?]

namespace Condition

/-- The condition tests for equality, membership or range, and the property that it tests is
compared by the type. -/
def ComparesAs (c : Condition) (t : Scalar) : Prop :=
  c.kind ∈ [Kind.equal, .notEqual, .isIn, .isNotIn, .between] ∧
    ∃ path, c.path = some path ∧
      (path.terminal.declared = .scalar t ∨
        path.terminal.declared = .nullable t ∧ (t.isNumeric = true ∨ t.isTemporal = true))

variable {c : Condition} {t : Scalar} {property : String} {kind : Kind} {vs : List Value}
  {term : Predicate}

theorem comparesAs_iff : c.ComparesAs t ↔ c.target? = some t := by
  simp only [ComparesAs, target?_eq_some_iff, Declared.comparison?_eq_some_iff]

theorem Shape.literals_eq (h : Shape property kind vs term) : term.literals = vs := by
  cases h <;> rfl

-- The operands of a term have arrived as those of its condition, and converted ones are settled.
theorem Image.settled (h : c.Image property term) (ht : c.ComparesAs t) :
    Shape property c.kind term.literals term ∧
      List.Forall₂ (Value.Settled t) c.operands.toList term.literals := by
  obtain ⟨vs, harrive, hshape⟩ := h
  rw [hshape.literals_eq]
  refine ⟨hshape, harrive.imp fun v w hvw => ?_⟩
  unfold Arrives at hvw
  rw [comparesAs_iff.1 ht] at hvw
  exact Value.settled_of_convert hvw

end Condition

namespace Spec

variable {settings : Settings} {spec : Spec} {plan : Plan}

/-- Every clause of a plan belongs to a group with filters and every term of it to a filter. Where
that filter compares by a type, the term has the shape of its kind and holds one operand for each
operand of the filter: null for null and otherwise of that type, and no further conversion changes
it. -/
theorem toPlan_operands (h : spec.Reachable) (run : spec.toPlan settings = .ok plan) :
    List.Forall₂
      (fun g clause => ∃ terms, clause = .or terms ∧
        List.Forall₂
          (fun c term => ∀ t, c.ComparesAs t →
            (∃ property, Condition.Shape property c.kind term.literals term) ∧
              List.Forall₂ (Value.Settled t) c.operands.toList term.literals)
          g.filters terms)
      (spec.groups.filter Group.hasFilter) plan.predicates ∧
    ∀ (v w : Value) (t : Scalar), v.convert t = some w → Value.Settled t v w := by
  refine ⟨?_, fun v w t => Value.settled_of_convert⟩
  obtain ⟨c, clauses, hcompiled⟩ := (toPlan_outcomes settings h).1 plan run
  rw [hcompiled.predicates_of_start]
  refine hcompiled.clauses_of.imp fun g clause hclause => ?_
  obtain ⟨terms, rfl, hterms⟩ := hclause
  refine ⟨terms, rfl, hterms.imp fun d term hterm t ht => ?_⟩
  obtain ⟨path, -, himage⟩ := hterm
  obtain ⟨hshape, hsettled⟩ := himage.settled ht
  exact ⟨⟨_, hshape⟩, hsettled⟩

-- The age of the employees is an integer of thirty-two bits that may be null, and the operand that
-- their managers' ages are compared with was one of sixty-four.
theorem toPlan_operands_staff :
    staff.Reachable ∧ staff.toPlan .standard = .ok staffPlan ∧
      (Value.int64 50).convert .int32 = some (.int32 50) ∧
      Value.Settled .int32 (.int64 50) (.int32 50) ∧
      List.Forall₂ (Value.Settled .int32) [.int64 50]
        (Predicate.not (.equal "alias_1.age" (.int32 50))).literals := by
  obtain ⟨hclauses, hconversions⟩ := toPlan_operands reachable_staff toPlan_staff
  have hconvert : (Value.int64 50).convert .int32 = some (.int32 50) := by decide
  refine ⟨reachable_staff, toPlan_staff, hconvert, hconversions _ _ _ hconvert, ?_⟩
  have hgroups : staff.groups.filter Group.hasFilter = [⟨staff.conditions.take 2⟩] := by decide
  rw [hgroups] at hclauses
  obtain ⟨⟨terms, hterms, hfilters⟩, -⟩ := List.forall₂_cons.1 hclauses
  cases hterms
  obtain ⟨hage, -⟩ := List.forall₂_cons.1 hfilters
  exact (hage .int32 (Condition.comparesAs_iff.2 rfl)).2

end Spec

end PathQuery
