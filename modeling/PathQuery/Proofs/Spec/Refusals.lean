import PathQuery.Proofs.Spec.WellFormed

/-!
# Refused calls and failed compilations

Errors tell whether they belong to the insertion of a condition. No error of a compilation does, and
almost every error of a call: the exceptions are operands that do not fit their kind, and
relationships to entities that are not registered.
-/

namespace PathQuery

open Condition (Kind)

/-- The operands are of another number than the kind takes, or a list without values. -/
def Operands.Misfit (operands : Operands) (kind : Kind) : Prop :=
  operands.arity ≠ kind.arity ∨ operands = .many []

namespace Schema

variable {s : Schema} {entity target root : String} {ps : List Segment} {a : Accessor} {e : Error}

/-- Some entity declares a relationship to the name, and no entity is registered under it. -/
def Dangles (s : Schema) (name : String) : Prop :=
  s.entity? name = none ∧ ∃ owner p, s.Declares owner p ∧ p.declared.target? = some name

-- Relationships lead nowhere else than where the last of them points.
theorem Leads.eq_or_exists (h : s.Leads entity ps target) :
    target = entity ∨ ∃ owner p, s.Declares owner p ∧ p.declared.target? = some target := by
  induction h with
  | here => exact .inl rfl
  | @along entity next _ p _ hp htarget _ ih =>
    refine .inr (ih.elim (fun hnext => ?_) id)
    rw [hnext]
    exact ⟨entity, p, hp, htarget⟩

end Schema

namespace Spec

/-- The errors that a call can fail with: those that say that they belong to an insertion, those of
operands that do not fit, and those of relationships that lead nowhere. -/
inductive Refusal (schema : Schema) (kind : Kind) (operands : Operands) : Error → Prop where
  | insertion {e : Error} (h : e.isInsertion = true) : Refusal schema kind operands e
  | misfit {expected : String} (h : operands.Misfit kind) :
    Refusal schema kind operands (.operandShape kind.text expected)
  | dangling {name : String} (h : schema.Dangles name) :
    Refusal schema kind operands (.unknownEntity name)

variable {spec : Spec} {schema : Schema} {kind : Kind} {operands : Operands} {root : String}
  {a : Accessor} {p : Path} {e : Error} {settings : Settings}

/-- Errors that do not say so are of the other two kinds. -/
theorem Refusal.isInsertion_eq_false_iff (h : Refusal schema kind operands e) :
    e.isInsertion = false ↔
      (operands.Misfit kind ∧ ∃ expected, e = .operandShape kind.text expected) ∨
        ∃ name, schema.Dangles name ∧ e = .unknownEntity name := by
  constructor
  · intro hother
    cases h with
    | insertion h => rw [h] at hother; cases hother
    | misfit h => exact .inl ⟨h, _, rfl⟩
    | dangling h => exact .inr ⟨_, h, rfl⟩
  · rintro (⟨-, expected, rfl⟩ | ⟨name, -, rfl⟩) <;> rfl

/-! ## The steps of a call -/

-- Only a dangling relationship leads to an entity that is not known.
theorem refusal_of_path (hroot : schema.entity? root ≠ none) (h : schema.path root a = .error e) :
    Refusal schema kind operands e := by
  rcases Schema.path_eq_error_iff.1 h with
    ⟨-, rfl⟩ | ⟨-, rfl⟩ | ⟨before, faulty, behind, target, -, hleads, hfault⟩
  · exact .insertion rfl
  · exact .insertion rfl
  · cases hfault with
    | unknownEntity hnone =>
      refine .dangling ⟨hnone, hleads.eq_or_exists.resolve_left ?_⟩
      rintro rfl
      exact hroot hnone
    | unknownProperty => exact .insertion rfl
    | nonNavigable => exact .insertion rfl

theorem refusal_of_paths (hroot : schema.entity? root ≠ none)
    (h : schema.paths root a = .error e) : Refusal schema kind operands e := by
  unfold Schema.paths at h
  split at h
  next items _ =>
    obtain ⟨_, item, _, -, -, hitem⟩ := Except.mapM_eq_error_iff.1 h
    exact refusal_of_path hroot hitem
  next =>
    rcases Except.bind_eq_error_iff.1 h with h | ⟨_, -, h⟩
    · exact refusal_of_path hroot h
    · cases h

theorem refusal_of_make {path : Option Path}
    (h : Condition.make path kind operands = .error e) : Refusal schema kind operands e := by
  unfold Condition.make at h
  split at h
  next harity =>
    cases h
    exact .misfit (.inl harity)
  split at h
  next hempty =>
    cases h
    exact .misfit (.inr hempty)
  split at h
  · cases h
    exact .insertion rfl
  · cases h

theorem refusal_of_paginate {count : Int64} (h : Condition.paginate kind count = .error e) :
    Refusal schema kind (.single (.int64 count)) e := by
  unfold Condition.paginate at h
  split at h
  · cases h
    exact .insertion rfl
  · exact refusal_of_make h

theorem isInsertion_of_selectedEntity (h : p.selectedEntity = .error e) :
    e.isInsertion = true := by
  unfold Path.selectedEntity at h
  dsimp only at h
  split at h
  · cases h
  split at h
  · cases h
    rfl
  split at h <;> cases h
  rfl

-- The end of a path is asked for columns or for a relationship.
theorem refusal_of_checkTerminal {owner : String}
    (hdeclares : spec.schema.Declares owner p.terminal)
    (h : spec.checkTerminal p kind = .error e) : Refusal spec.schema kind operands e := by
  cases kind
  case select =>
    rcases Except.bind_eq_error_iff.1 h with h | ⟨target, htarget, h⟩
    · exact .insertion (isInsertion_of_selectedEntity h)
    · cases target with
      | none => cases h
      | some name =>
        obtain ⟨hname, -⟩ := Path.selectedEntity_eq_ok htarget
        rcases Except.bind_eq_error_iff.1 h with h | ⟨_, -, h⟩
        · obtain ⟨hnone, rfl⟩ := Schema.entity_eq_error_iff.1 h
          exact .dangling ⟨hnone, owner, p.terminal, hdeclares, hname.symm⟩
        · cases h
  case fetch =>
    change (if p.terminal.declared.isNavigation = true then Except.ok () else _) = _ at h
    split at h
    · cases h
    · cases h
      exact .insertion rfl
  all_goals cases h

theorem refusal_of_prepare (hroot : spec.schema.entity? spec.root ≠ none)
    (h : spec.prepare a kind operands = .error e) : Refusal spec.schema kind operands e := by
  rcases Except.bind_eq_error_iff.1 h with h | ⟨paths, hpaths, h⟩
  · exact refusal_of_paths hroot h
  split at h
  · cases h
    exact .insertion rfl
  · obtain ⟨before, p, after, hsplit, -, hp⟩ := Except.mapM_eq_error_iff.1 h
    rcases Except.bind_eq_error_iff.1 hp with hp | ⟨_, -, hp⟩
    · -- the path was resolved, so its end is declared
      have hmem : p ∈ paths := by simp [hsplit]
      obtain ⟨item, hitem⟩ := Schema.exists_item_of_mem_paths hpaths hmem
      obtain ⟨-, -, owner, -, hdeclares⟩ := Schema.path_eq_ok_iff.1 hitem
      exact refusal_of_checkTerminal hdeclares hp
    · exact refusal_of_make hp

theorem refusal_of_prepared {request : Request} (hroot : spec.schema.entity? spec.root ≠ none)
    (h : spec.prepared request = .error e) :
    Refusal spec.schema request.kind request.operands e := by
  cases request with
  | condition a kind operands => exact refusal_of_prepare hroot h
  | page kind count =>
    rw [prepared] at h
    cases hpage : Condition.paginate kind count with
    | ok c => rw [hpage] at h; cases h
    | error e' =>
      rw [hpage] at h
      cases h
      exact refusal_of_paginate hpage

/-! ## Whole calls -/

-- The root of a specification stays registered.
theorem Reachable.root_registered (h : spec.Reachable) : spec.schema.entity? spec.root ≠ none := by
  induction h with
  | start h =>
    obtain ⟨x, hx, h⟩ := Except.bind_eq_ok_iff.1 h
    cases h
    rw [Schema.entity_eq_ok_iff.1 hx]
    exact Option.some_ne_none x
  | withJoinKind _ _ ih | withResultType _ _ ih => exact ih
  | accepted _ run ih =>
    have hgrown := (grown_of_perform _ _ _).of_ok run
    rwa [hgrown.schema, hgrown.root]
  | refused _ run ih =>
    have hgrown := (grown_of_perform _ _ _).of_error run
    rwa [hgrown.schema, hgrown.root]

theorem refusal_of_perform {placement : Placement} {request : Request} {s t : Logged Spec}
    (h : s.state.Reachable) (run : perform placement request s = .error e t) :
    Refusal s.state.schema request.kind request.operands e := by
  rcases ((ensures_perform_arrange _ _ _).of_error run).2 with he | ⟨m, -, rfl⟩
  · exact refusal_of_prepared h.root_registered he
  · exact .insertion rfl

/-- Errors tell calls from compilations, with two exceptions. A call on a specification that calls
have built fails with an error that says that it belongs to an insertion, unless operands do not fit
their kind or a relationship leads to an entity that is not registered. Under valid settings no
compilation fails with such an error. -/
theorem insertion_errors (h : spec.Reachable) :
    (∀ placement request events e t, perform placement request ⟨spec, events⟩ = .error e t →
      (e.isInsertion = false ↔
        (request.operands.Misfit request.kind ∧
          ∃ expected, e = .operandShape request.kind.text expected) ∨
        ∃ name, spec.schema.Dangles name ∧ e = .unknownEntity name)) ∧
    ∀ settings e, settings.validate = .ok () → spec.toPlan settings = .error e →
      e.isInsertion = false := by
  refine ⟨fun placement request events e t run => ?_, fun settings e hvalid run => ?_⟩
  · exact (refusal_of_perform h run).isInsertion_eq_false_iff
  · obtain ⟨k, -, rfl⟩ := (toPlan_outcomes settings h).2 e run (clear_of_validate hvalid)
    rfl

/-- An age that is not a number. -/
def agelessStaff : Spec :=
  (chain [⟨.equal (.chain ["age"]) (.string "old"), false⟩] ⟨staffStart, []⟩).2.state

-- A property that is not there, and an operand that comes up in the compilation only.
theorem insertion_errors_staff :
    staffStart.Reachable ∧
      perform .newGroup (.isNull (.chain ["salary"])) ⟨staffStart, []⟩ =
        .error (.unknownProperty "Employee" "salary") ⟨staffStart, []⟩ ∧
      (Error.unknownProperty "Employee" "salary").isInsertion ≠ false ∧
      agelessStaff.Reachable ∧ Settings.standard.validate = .ok () ∧
      agelessStaff.toPlan .standard =
        .error (.operandConversion "age" "int32" "string 'old'") ∧
      (Error.operandConversion "age" "int32" "string 'old'").isInsertion = false := by
  have hvalid : Settings.standard.validate = .ok () := by decide
  have hageless : agelessStaff.Reachable := .chain reachable_staffStart _
  have hcall : perform .newGroup (.isNull (.chain ["salary"])) ⟨staffStart, []⟩ =
      .error (.unknownProperty "Employee" "salary") ⟨staffStart, []⟩ := rfl
  have hrun : agelessStaff.toPlan .standard =
      .error (.operandConversion "age" "int32" "string 'old'") := rfl
  have hmarked := (insertion_errors reachable_staffStart).1 _ _ _ _ _ hcall
  refine ⟨reachable_staffStart, hcall, fun hunmarked => ?_, hageless, hvalid, hrun,
    (insertion_errors hageless).2 _ _ hvalid hrun⟩
  rcases hmarked.1 hunmarked with ⟨-, _, h⟩ | ⟨_, -, h⟩ <;> cases h

/-- Employees whose managers are of an entity that is not registered. -/
def orphanStart : Spec :=
  ⟨⟨[⟨"Employee", [⟨"name", .scalar .string⟩, ⟨"manager", .reference "Manager"⟩]⟩]⟩, "Employee",
    .inner, [], none⟩

/-- Membership in an empty list and a relationship to an unknown entity are refused while conditions
are inserted, and neither error says so. -/
theorem unmarked_refusals :
    staffStart.Reachable ∧
      perform .newGroup (.isIn (.chain ["name"]) []) ⟨staffStart, []⟩ =
        .error (.operandShape "In" "at least one value") ⟨staffStart, []⟩ ∧
      (Error.operandShape "In" "at least one value").isInsertion = false ∧
      orphanStart.Reachable ∧
      perform .newGroup (.isNull (.chain ["manager", "name"])) ⟨orphanStart, []⟩ =
        .error (.unknownEntity "Manager") ⟨orphanStart, []⟩ ∧
      (Error.unknownEntity "Manager").isInsertion = false :=
  ⟨reachable_staffStart, rfl, rfl,
    .start (show start orphanStart.schema "Employee" = .ok orphanStart by rfl), rfl, rfl⟩

end Spec

end PathQuery
