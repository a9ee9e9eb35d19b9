import PathQuery.Proofs.Compile

/-!
# Completeness of compilations

Under valid settings a reachable specification has a plan as soon as all operands can be converted
to the types of their properties. If not, the first operand that cannot be is the error.
-/

namespace PathQuery

open Condition (Kind)

namespace Condition

/-- Every operand that is compared for equality, membership or range can be converted to the type
of the property that it is compared with. -/
def Convertible (c : Condition) : Prop :=
  ∀ path t, c.kind ∈ [Kind.equal, .notEqual, .isIn, .isNotIn, .between] → c.path = some path →
    path.terminal.declared.comparison? = some t →
    ∀ v ∈ c.operands.toList, (v.convert t).isSome = true

/-- The error names the path, the type and the operand, which is the first one of the condition
that cannot be converted. -/
def Refuses (c : Condition) (e : Error) : Prop :=
  ∃ path t before v after, c.kind ∈ [Kind.equal, .notEqual, .isIn, .isNotIn, .between] ∧
    c.path = some path ∧ path.terminal.declared.comparison? = some t ∧
    c.operands.toList = before ++ v :: after ∧
    (∀ u ∈ before, (u.convert t).isSome = true) ∧ v.convert t = none ∧
    e = .operandConversion path.dotted t.text s!"{v.typeName} '{v.text}'"

theorem Kind.converts_iff {kind : Kind} :
    kind.converts = true ↔ kind ∈ [Kind.equal, .notEqual, .isIn, .isNotIn, .between] := by
  cases kind <;> decide

variable {c : Condition} {t : Scalar} {e : Error}

theorem target?_eq_some_iff :
    c.target? = some t ↔
      c.kind ∈ [Kind.equal, .notEqual, .isIn, .isNotIn, .between] ∧
        ∃ path, c.path = some path ∧ path.terminal.declared.comparison? = some t := by
  rw [target?, ← Kind.converts_iff, Option.ite_none_right_eq_some, Option.bind_eq_some_iff]

theorem convertible_iff_checks : c.Convertible ↔ ∀ k ∈ c.checks, k.passes = true := by
  constructor
  · intro h k hk
    rcases of_mem_checks hk with ⟨hpath, ht, hv⟩
    rcases target?_eq_some_iff.1 ht with ⟨hkind, path, hpath, hdeclared⟩
    exact h path k.target hkind hpath hdeclared k.operand hv
  · intro h path t hkind hpath hdeclared v hv
    have ht := target?_eq_some_iff.2 ⟨hkind, path, hpath, hdeclared⟩
    rw [checks_of_target? hpath ht] at h
    exact h ⟨path, t, v⟩ (List.mem_map_of_mem hv)

theorem refuses_of_firstRefusal (h : FirstRefusal c.checks e) : c.Refuses e := by
  rcases h with ⟨⟨path, t, v⟩, hk, rfl⟩
  rcases firstRefused?_eq_some.1 hk with ⟨before, after, hsplit, hbefore, hrefused⟩
  rcases of_mem_checks (List.mem_of_find?_eq_some hk) with ⟨hpath, ht, -⟩
  rcases target?_eq_some_iff.1 ht with ⟨hkind, path', hpath', hdeclared⟩
  cases hpath'.symm.trans hpath
  -- the split of the checks is one of the operands
  rw [checks_of_target? hpath ht, List.map_eq_append_iff] at hsplit
  rcases hsplit with ⟨vs, rest, hvs, rfl, hrest⟩
  rcases List.map_eq_cons_iff.1 hrest with ⟨u, ws, rfl, hu, -⟩
  cases hu
  refine ⟨path, t, vs, v, ws, hkind, hpath, hdeclared, hvs, fun u hu => ?_, ?_, rfl⟩
  · exact hbefore _ (List.mem_map_of_mem hu)
  · exact Option.isNone_iff_eq_none.1 (Option.isSome_eq_false_iff.1 hrefused)

end Condition

-- The first operand that cannot be converted belongs to the first condition with such an
-- operand.
theorem FirstRefusal.exists_condition {cs : List Condition} {e : Error}
    (h : FirstRefusal (cs.flatMap Condition.checks) e) :
    ∃ before c after, cs = before ++ c :: after ∧ (∀ d ∈ before, d.Convertible) ∧ c.Refuses e := by
  rcases h with ⟨k, hk, he⟩
  rw [firstRefused?, List.find?_flatMap, List.findSome?_eq_some_iff] at hk
  rcases hk with ⟨before, c, after, hsplit, hfirst, hbefore⟩
  refine ⟨before, c, after, hsplit, fun d hd => ?_,
    Condition.refuses_of_firstRefusal ⟨k, hfirst, he⟩⟩
  exact Condition.convertible_iff_checks.2 (firstRefused?_eq_none.1 (hbefore d hd))

namespace Spec

variable {settings : Settings} {spec : Spec}

theorem convertible_of_checks :
    (∀ k ∈ spec.checks, k.passes = true) ↔ ∀ c ∈ spec.conditions, c.Convertible := by
  simp only [checks, List.forall_mem_flatMap, Condition.convertible_iff_checks]

/-- There is a plan exactly when all operands can be converted, and the only error is that of the
first operand that cannot be. -/
theorem toPlan_complete (hvalid : settings.validate = .ok ()) (h : spec.Reachable) :
    ((∃ plan, spec.toPlan settings = .ok plan) ↔ ∀ c ∈ spec.conditions, c.Convertible) ∧
    ∀ e, spec.toPlan settings = .error e →
      ∃ before c after, spec.conditions = before ++ c :: after ∧
        (∀ d ∈ before, d.Convertible) ∧ c.Refuses e := by
  rcases toPlan_outcomes settings h with ⟨hok, herror⟩
  refine ⟨⟨?_, fun hall => ?_⟩, fun e he => ?_⟩
  · intro hplan
    rcases hplan with ⟨plan, run⟩
    rcases hok plan run with ⟨c, clauses, hcompiled⟩
    exact convertible_of_checks.1 hcompiled.passes
  -- an error would be that of an operand, and all of them can be converted
  · cases run : spec.toPlan settings with
    | ok plan => exact ⟨plan, rfl⟩
    | error e =>
      rcases herror e run (clear_of_validate hvalid) with ⟨k, hk, -⟩
      rw [firstRefused?_eq_none.2 (convertible_of_checks.2 hall)] at hk
      cases hk
  · exact (herror e he (clear_of_validate hvalid)).exists_condition

-- All operands of the employees can be converted, so there is a plan.
theorem toPlan_complete_staff :
    Settings.standard.validate = .ok () ∧ staff.Reachable ∧
      (∀ c ∈ staff.conditions, c.Convertible) ∧ ∃ plan, staff.toPlan .standard = .ok plan := by
  have hvalid : Settings.standard.validate = .ok () := by decide
  have hall : ∀ c ∈ staff.conditions, c.Convertible :=
    convertible_of_checks.1 (by decide)
  exact ⟨hvalid, reachable_staff, hall, (toPlan_complete hvalid reachable_staff).1.2 hall⟩

end Spec

end PathQuery
