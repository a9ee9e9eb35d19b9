import PathQuery.Plan.Text
import PathQuery.Proofs.Clauses
import PathQuery.Proofs.Reading.Grammar

/-!
# The reading of a term

Groups of one term are written without brackets and the clauses of a plan without brackets around
all of them. What is written has one reading nevertheless: the term itself, in which a group of one
term is that term.
-/

namespace PathQuery

open Condition (Kind Group)

namespace Predicate

/-! ## Terms as formulas -/

mutual

/-- No conjunction and no disjunction in the term is empty. -/
def filled : Predicate → Bool
  | .not term => filled term
  | .and terms => !terms.isEmpty && allFilled terms
  | .or terms => !terms.isEmpty && allFilled terms
  | _ => true

def allFilled : List Predicate → Bool
  | [] => true
  | t :: ts => filled t && allFilled ts

end

mutual

/-- The texts of the terms about properties, from left to right. -/
def leaves : Predicate → List String
  | .not term => leaves term
  | .and terms => allLeaves terms
  | .or terms => allLeaves terms
  | leaf => [leaf.sql]

def allLeaves : List Predicate → List String
  | [] => []
  | t :: ts => leaves t ++ allLeaves ts

end

mutual

/-- What the term says about the terms about properties in it. -/
def formula : Predicate → Formula
  | .not term => .not (formula term)
  | .and terms => .all (formulas terms)
  | .or terms => .any (formulas terms)
  | leaf => .atom leaf.sql

def formulas : List Predicate → List Formula
  | [] => []
  | t :: ts => formula t :: formulas ts

end

theorem allFilled_eq_true (ts : List Predicate) :
    allFilled ts = true ↔ ∀ t ∈ ts, filled t = true := by
  induction ts with
  | nil => simp [allFilled]
  | cons t ts ih => simp [allFilled, ih]

theorem allLeaves_eq (ts : List Predicate) : allLeaves ts = ts.flatMap leaves := by
  induction ts with
  | nil => rfl
  | cons t ts ih => rw [allLeaves, ih, List.flatMap_cons]

theorem formulas_eq (ts : List Predicate) : formulas ts = ts.map formula := by
  induction ts with
  | nil => rfl
  | cons t ts ih => rw [formulas, ih, List.map_cons]

theorem sqls_eq (ts : List Predicate) : sqls ts = ts.map sql := by
  induction ts with
  | nil => rfl
  | cons t ts ih => rw [sqls, ih, List.map_cons]

/-! ## Reading one term -/

/-- The text of the term is one term of a condition, and says what the term says. -/
def ReadsAsTerm (p : Predicate) : Prop :=
  ∃ ts, Token.spell ts = p.sql ∧ Token.atoms ts = p.leaves ∧ IsTerm ts p.formula

/-- The relation is about terms that the word separates. -/
structure Separates (word : Token) (Joined : List Token → List Formula → Prop) : Prop where
  atom? : word.atom? = none
  last {ts : List Token} {f : Formula} (h : IsTerm ts f) : Joined ts [f]
  cons {ts us : List Token} {f : Formula} {fs : List Formula} (h : IsTerm ts f)
    (h' : Joined us fs) : Joined (ts ++ word :: us) (f :: fs)

theorem separates_and : Separates .and IsConjunction where
  atom? := rfl
  last := .last
  cons := .cons

theorem separates_or : Separates .or IsDisjunction where
  atom? := rfl
  last h := .last (.last h)
  cons h := .cons (.last h)

variable {word : Token} {Joined : List Token → List Formula → Prop} {p : Predicate}
  {ps : List Predicate}

theorem Separates.reads (hword : Separates word Joined) (h : ∀ q ∈ p :: ps, q.ReadsAsTerm) :
    ∃ ts, Token.spell ts = word.text.intercalate ((p :: ps).map sql) ∧
      Token.atoms ts = (p :: ps).flatMap leaves ∧ Joined ts ((p :: ps).map formula) := by
  induction ps generalizing p with
  | nil =>
    obtain ⟨ts, hspell, hatoms, hterm⟩ := h p List.mem_cons_self
    exact ⟨ts, by simp [hspell], by simp [hatoms], hword.last hterm⟩
  | cons q ps ih =>
    obtain ⟨ts, hspell, hatoms, hterm⟩ := h p List.mem_cons_self
    obtain ⟨us, hspell', hatoms', hrest⟩ := ih fun r hr => h r (List.mem_cons_of_mem _ hr)
    refine ⟨ts ++ word :: us, ?_, ?_, hword.cons hterm hrest⟩
    · simp [Token.spell_append, Token.spell_cons, hspell, hspell', String.append_assoc]
    · simp [Token.atoms_append, Token.atoms_cons, hatoms, hatoms', hword.atom?]

-- Brackets are left out around a single term.
theorem Separates.reads_grouped {combined : List Formula → Formula} (hword : Separates word Joined)
    (hone : ∀ f, combined [f] = f)
    (hbrackets : ∀ {ts fs}, Joined ts fs → IsTerm (.opening :: (ts ++ [.closing])) (combined fs))
    (hne : ps ≠ []) (h : ∀ q ∈ ps, q.ReadsAsTerm) :
    ∃ ts, Token.spell ts = grouped word.text (ps.map sql) ∧
      Token.atoms ts = ps.flatMap leaves ∧ IsTerm ts (combined (ps.map formula)) := by
  cases ps with
  | nil => exact absurd rfl hne
  | cons p ps =>
    obtain ⟨ts, hspell, hatoms, hjoined⟩ := hword.reads h
    cases ps with
    | nil =>
      obtain ⟨ts, hspell, hatoms, hterm⟩ := h p List.mem_cons_self
      exact ⟨ts, hspell, by simp [hatoms], by rwa [List.map_singleton, hone]⟩
    | cons q ps =>
      refine ⟨.opening :: (ts ++ [.closing]), ?_, ?_, hbrackets hjoined⟩
      · rw [Token.spell_brackets, hspell]
        rfl
      · rw [Token.atoms_brackets, hatoms]

theorem ReadsAsTerm.not (h : p.ReadsAsTerm) : (Predicate.not p).ReadsAsTerm := by
  obtain ⟨ts, hspell, hatoms, hterm⟩ := h
  refine ⟨.not :: .opening :: (ts ++ [.closing]), ?_, ?_, .not (.brackets (.last (.last hterm)))⟩
  · rw [Token.spell_cons, Token.spell_brackets, hspell, sql, Token.text, ← String.append_assoc,
      ← String.append_assoc]
    rfl
  · rw [Token.atoms_cons, Token.atoms_brackets, hatoms]
    rfl

theorem ReadsAsTerm.and (hne : ps ≠ []) (h : ∀ q ∈ ps, q.ReadsAsTerm) :
    (Predicate.and ps).ReadsAsTerm := by
  rw [ReadsAsTerm, sql, sqls_eq, leaves, allLeaves_eq, formula, formulas_eq]
  exact separates_and.reads_grouped (fun _ => rfl) (fun hjoined => .brackets (.last hjoined)) hne h

theorem ReadsAsTerm.or (hne : ps ≠ []) (h : ∀ q ∈ ps, q.ReadsAsTerm) :
    (Predicate.or ps).ReadsAsTerm := by
  rw [ReadsAsTerm, sql, sqls_eq, leaves, allLeaves_eq, formula, formulas_eq]
  exact separates_or.reads_grouped (fun _ => rfl) .brackets hne h

-- A term about a property is an atom.
theorem ReadsAsTerm.leaf (hleaves : p.leaves = [p.sql]) (hformula : p.formula = .atom p.sql) :
    p.ReadsAsTerm := by
  refine ⟨[.atom p.sql], ?_, hleaves.symm, ?_⟩
  · simp [Token.spell, Token.text]
  · rw [hformula]
    exact .atom p.sql

mutual

theorem readsAsTerm : (p : Predicate) → p.filled = true → p.ReadsAsTerm
  | .not p, h => (readsAsTerm p h).not
  | .and ps, h => by
    rw [filled, Bool.and_eq_true, Bool.not_eq_true', List.isEmpty_eq_false_iff] at h
    exact .and h.1 (readAsTerms ps h.2)
  | .or ps, h => by
    rw [filled, Bool.and_eq_true, Bool.not_eq_true', List.isEmpty_eq_false_iff] at h
    exact .or h.1 (readAsTerms ps h.2)
  | .equal _ _, _ => .leaf rfl rfl
  | .oneOf _ _, _ => .leaf rfl rfl
  | .between _ _ _, _ => .leaf rfl rfl
  | .isNull _, _ => .leaf rfl rfl
  | .isNotNull _, _ => .leaf rfl rfl
  | .like _ _, _ => .leaf rfl rfl
  | .compare _ _ _, _ => .leaf rfl rfl

theorem readAsTerms : (ps : List Predicate) → allFilled ps = true → ∀ q ∈ ps, q.ReadsAsTerm
  | [], _ => nofun
  | p :: ps, h => by
    rw [allFilled, Bool.and_eq_true] at h
    exact List.forall_mem_cons.2 ⟨readsAsTerm p h.1, readAsTerms ps h.2⟩

end

/-! ## Atoms -/

-- The operator of a comparison is no word of a condition.
theorem solid_comparison (op : Comparison) : Token.Solid op.sql := by
  cases op
  case gt | ge => exact ⟨'>', by decide, rfl⟩
  case lt | le => exact ⟨'<', by decide, rfl⟩

theorem solid_equal (property : String) (value : Value) :
    Token.Solid (Predicate.equal property value).sql := by
  have hnull : Token.Solid " IS NULL" := ⟨'I', by decide, rfl⟩
  have hequal : Token.Solid " = " := ⟨'=', by decide, rfl⟩
  cases value with
  | null => exact hnull.append_left _
  | _ => exact (hequal.append_left _).append_right _

mutual

theorem solid_of_mem_leaves : (p : Predicate) → ∀ a ∈ p.leaves, Token.Solid a
  | .not p => solid_of_mem_leaves p
  | .and ps => solid_of_mem_allLeaves ps
  | .or ps => solid_of_mem_allLeaves ps
  | .equal property value => List.forall_mem_singleton.2 (solid_equal property value)
  | .oneOf property values => by
    have hsign : Token.Solid " IN (" := ⟨'I', by decide, rfl⟩
    exact List.forall_mem_singleton.2 (((hsign.append_left _).append_right _).append_right _)
  | .between property low high => by
    have hsign : Token.Solid " BETWEEN " := ⟨'B', by decide, rfl⟩
    exact List.forall_mem_singleton.2
      ((((hsign.append_left _).append_right _).append_right _).append_right _)
  | .isNull property => by
    have hsign : Token.Solid " IS NULL" := ⟨'I', by decide, rfl⟩
    exact List.forall_mem_singleton.2 (hsign.append_left _)
  | .isNotNull property => by
    have hsign : Token.Solid " IS NOT NULL" := ⟨'I', by decide, rfl⟩
    exact List.forall_mem_singleton.2 (hsign.append_left _)
  | .like property pattern => by
    have hsign : Token.Solid " LIKE " := ⟨'L', by decide, rfl⟩
    exact List.forall_mem_singleton.2 ((hsign.append_left _).append_right _)
  | .compare property op value => by
    exact List.forall_mem_singleton.2
      ((((solid_comparison op).append_left _).append_right _).append_right _)

theorem solid_of_mem_allLeaves : (ps : List Predicate) → ∀ a ∈ allLeaves ps, Token.Solid a
  | [] => nofun
  | p :: ps => List.forall_mem_append.2 ⟨solid_of_mem_leaves p, solid_of_mem_allLeaves ps⟩

end

/-- A filled term reads as what it says, and as nothing else. -/
theorem readsAs_iff (h : p.filled = true) {f : Formula} :
    ReadsAs p.sql p.leaves f ↔ f = p.formula := by
  obtain ⟨ts, hspell, hatoms, hterm⟩ := readsAsTerm p h
  have hreading : IsReading ts p.formula := ⟨[p.formula], .last (.last hterm), rfl⟩
  rw [← hspell, ← hatoms]
  refine hreading.readsAs_iff fun a ha => solid_of_mem_leaves p a ?_
  rwa [← hatoms]

end Predicate

theorem Condition.Shape.filled {property : String} {kind : Kind} {vs : List Value}
    {term : Predicate} (h : Shape property kind vs term) : term.filled = true := by
  cases h <;> rfl

/-! ## Reading the conditions of a plan -/

namespace Plan

variable {plan : Plan} {q : Predicate}

/-- The statement of a plan with a text for its conditions. -/
def sqlAround (p : Plan) (conditions : String) : String :=
  "SELECT " ++ p.selectSql ++ " FROM " ++ p.entity ++ " " ++ p.rootAlias ++ p.joinSql ++
    conditions ++ p.orderSql ++ p.page.sql

/-- The clauses of a plan with AND between them. -/
def conditionSql (p : Plan) : String :=
  " AND ".intercalate (p.predicates.map Predicate.sql)

theorem sql_eq (p : Plan) : p.sql = p.sqlAround p.whereSql :=
  rfl

-- All clauses in one term say what they say one by one.
theorem of_where?_eq_some (h : plan.where? = some q) :
    plan.predicates ≠ [] ∧ q.leaves = plan.predicates.flatMap Predicate.leaves ∧
      q.formula = .all (plan.predicates.map Predicate.formula) ∧
      q.filled = Predicate.allFilled plan.predicates := by
  unfold where? at h
  split at h
  · cases h
  next r hone =>
    obtain rfl : r = q := Option.some.inj h
    rw [hone]
    exact ⟨List.cons_ne_nil _ _, by simp, rfl, by simp [Predicate.allFilled]⟩
  next hne _ =>
    obtain rfl : Predicate.and plan.predicates = q := Option.some.inj h
    have hpos : plan.predicates.isEmpty = false := List.isEmpty_eq_false_iff.2 hne
    refine ⟨hne, ?_, ?_, ?_⟩
    · rw [Predicate.leaves, Predicate.allLeaves_eq]
    · rw [Predicate.formula, Predicate.formulas_eq]
    · rw [Predicate.filled, hpos]
      rfl

theorem predicates_eq_nil (h : plan.where? = none) : plan.predicates = [] := by
  unfold where? at h
  split at h
  · assumption
  · cases h
  · cases h

theorem whereSql_of_nil (h : plan.predicates = []) : plan.whereSql = "" := by
  rw [whereSql, h]

theorem whereSql_of_ne_nil (h : plan.predicates ≠ []) :
    plan.whereSql = " WHERE " ++ plan.conditionSql := by
  unfold whereSql
  split
  next hnil => exact absurd hnil h
  next => rfl

/-- No brackets stand around all clauses of a plan, and they still read as one term. -/
theorem readsAs_conditionSql (h : ∀ q ∈ plan.predicates, q.filled = true)
    (hq : plan.where? = some q) {f : Formula} :
    ReadsAs plan.conditionSql q.leaves f ↔ f = q.formula := by
  obtain ⟨hne, hleaves, hformula, -⟩ := of_where?_eq_some hq
  unfold conditionSql
  rw [hleaves, hformula]
  cases hpredicates : plan.predicates with
  | nil => exact absurd hpredicates hne
  | cons p ps =>
    rw [hpredicates] at h
    obtain ⟨ts, hspell, hatoms, hjoined⟩ := Predicate.separates_and.reads
      (fun q hq => Predicate.readsAsTerm q (h q hq))
    have hreading : IsReading ts (.all ((p :: ps).map Predicate.formula)) :=
      ⟨_, .last hjoined, rfl⟩
    have hword : Token.and.text = " AND " := rfl
    rw [← hword, ← hspell, ← hatoms]
    refine hreading.readsAs_iff fun a ha => ?_
    rw [hatoms] at ha
    obtain ⟨q, -, haq⟩ := List.mem_flatMap.1 ha
    exact Predicate.solid_of_mem_leaves q a haq

end Plan

namespace Spec

variable {spec : Spec} {aliasOf : List String → String} {clauses : List Predicate}

-- What stands across from some item has every property that the relation gives it.
theorem forall_mem_of_forall₂ {α β : Type} {R : α → β → Prop} {P : β → Prop} {xs : List α}
    {ys : List β} (h : List.Forall₂ R xs ys) (himp : ∀ x ∈ xs, ∀ y, R x y → P y) :
    ∀ y ∈ ys, P y := by
  induction h with
  | nil => nofun
  | cons hxy _ ih =>
    obtain ⟨hx, hxs⟩ := List.forall_mem_cons.1 himp
    exact List.forall_mem_cons.2 ⟨hx _ hxy, ih hxs⟩

-- A group that has a clause has a filter, and the term of a filter is about one property.
theorem Clauses.filled (h : spec.Clauses aliasOf clauses) :
    ∀ q ∈ clauses, q.filled = true := by
  refine forall_mem_of_forall₂ h fun g hg clause hclause => ?_
  obtain ⟨terms, rfl, hterms⟩ := hclause
  have hne : terms ≠ [] := by
    intro hnil
    rw [hnil, List.forall₂_nil_right_iff, Group.filters_eq_nil, (List.mem_filter.1 hg).2] at hterms
    cases hterms
  have hfilled : ∀ t ∈ terms, t.filled = true :=
    forall_mem_of_forall₂ hterms fun c _ term hterm => by
      obtain ⟨path, -, vs, -, hshape⟩ := hterm
      exact hshape.filled
  rw [Predicate.filled, (Predicate.allFilled_eq_true terms).2 hfilled, Bool.and_true,
    Bool.not_eq_true', List.isEmpty_eq_false_iff]
  exact hne

/-- What is written of a term without empty groups reads as that term and as nothing else. The plan
of a specification has no empty groups, and its conditions, which are written exactly when there is
a clause, read as all of its clauses together and as nothing else. -/
theorem conditions_read_once :
    (∀ p : Predicate, p.filled = true → ∀ f, ReadsAs p.sql p.leaves f ↔ f = p.formula) ∧
      ∀ (settings : Settings) (spec : Spec) (plan : Plan), spec.Reachable →
        spec.toPlan settings = .ok plan →
        (∀ q ∈ plan.predicates, q.filled = true) ∧
          match plan.where? with
          | none => plan.predicates = [] ∧ plan.sql = plan.sqlAround ""
          | some q => plan.predicates ≠ [] ∧ q.filled = true ∧
            plan.sql = plan.sqlAround (" WHERE " ++ plan.conditionSql) ∧
            ∀ f, ReadsAs plan.conditionSql q.leaves f ↔ f = q.formula := by
  refine ⟨fun p hp f => Predicate.readsAs_iff hp, fun settings spec plan h run => ?_⟩
  obtain ⟨c, clauses, hcompiled⟩ := (toPlan_outcomes settings h).1 plan run
  have hfilled : ∀ q ∈ plan.predicates, q.filled = true := by
    rw [hcompiled.predicates_of_start]
    exact hcompiled.clauses_of.filled
  refine ⟨hfilled, ?_⟩
  split
  next hnone =>
    have hnil : plan.predicates = [] := Plan.predicates_eq_nil hnone
    rw [Plan.sql_eq, Plan.whereSql_of_nil hnil]
    exact ⟨hnil, rfl⟩
  next q hq =>
    obtain ⟨hne, -, -, hall⟩ := Plan.of_where?_eq_some hq
    refine ⟨hne, ?_, ?_, fun f => Plan.readsAs_conditionSql hfilled hq⟩
    · rw [hall]
      exact (Predicate.allFilled_eq_true _).2 hfilled
    · rw [Plan.sql_eq, Plan.whereSql_of_ne_nil hne]

/-- Two alternatives: one thing and not another, or a third in groups of its own. -/
def nested : Predicate :=
  .or [.and [.isNull "a", .not (.or [.isNull "b", .isNull "c"])], .and [.or [.isNull "d"]]]

-- Brackets that are left out around a single term are not needed, and a negation keeps its own.
theorem conditions_read_once_nested :
    nested.filled = true ∧
      nested.sql = "((a IS NULL AND NOT ((b IS NULL OR c IS NULL))) OR d IS NULL)" ∧
      ReadsAs nested.sql ["a IS NULL", "b IS NULL", "c IS NULL", "d IS NULL"]
        (.or [.and [.atom "a IS NULL", .not (.or [.atom "b IS NULL", .atom "c IS NULL"])],
          .atom "d IS NULL"]) ∧
      staff.Reachable ∧ staff.toPlan .standard = .ok staffPlan ∧
      ∀ f,
        ReadsAs "(NOT (alias_1.age = 50) OR alias_2.name IS NULL)"
          ["alias_1.age = 50", "alias_2.name IS NULL"] f ↔
        f = .or [.not (.atom "alias_1.age = 50"), .atom "alias_2.name IS NULL"] := by
  obtain ⟨hterm, hplan⟩ := conditions_read_once
  have hstaff := hplan .standard staff staffPlan reachable_staff toPlan_staff
  have hwhere := hstaff.2.2.2.2
  refine ⟨rfl, by decide, (hterm nested rfl _).2 rfl, reachable_staff, toPlan_staff, ?_⟩
  exact hwhere

end Spec

end PathQuery
