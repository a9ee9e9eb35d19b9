import PathQuery.Proofs.Resolution
import PathQuery.Proofs.Spec.Appending
import PathQuery.Proofs.Spec.Sequence

/-!
# Well-formed specifications

Whatever calls have built a specification, and whichever of them have failed, its groups are orderly
and its conditions are well-formed: they have the operands and the path that their kind asks for,
and the path is one that the schema declares from the root on.
-/

namespace PathQuery

open Condition (Kind Group)

/-- Operands, path and the end of the path are what the kind asks for, and the path is declared by
the schema from the root on. -/
structure Condition.WellFormed (schema : Schema) (root : String) (c : Condition) : Prop where
  arity : c.operands.arity = c.kind.arity
  nonempty : c.operands ≠ .many []
  pathless : c.path = none ↔ c.kind = .skip ∨ c.kind = .take
  count : c.kind = .skip ∨ c.kind = .take →
    ∃ n : Int64, 0 ≤ n.toInt ∧ c.operands = .single (.int64 n)
  declared : ∀ p, c.path = some p → p.root = root ∧
    ∃ target, schema.Leads root p.navigation target ∧ schema.Declares target p.terminal
  fetch : ∀ p, c.path = some p → c.kind = .fetch → p.terminal.declared.isNavigation = true
  select : ∀ p, c.path = some p → c.kind = .select → p.terminal.declared.isNavigation = true →
    ∃ name entity, (p.terminal.declared = .reference name ∨
      p.terminal.declared = .collection (.reference name)) ∧ schema.entity? name = some entity

theorem Condition.Kind.isPagination_iff {kind : Kind} :
    kind.isPagination = true ↔ kind = .skip ∨ kind = .take := by
  cases kind <;> decide

theorem Declared.target?_eq_some_iff {d : Declared} {name : String} :
    d.target? = some name ↔ d = .reference name ∨ d = .collection (.reference name) := by
  cases d with
  | collection element => cases element <;> simp [target?]
  | _ => simp [target?]

-- Every path of an accessor is that of one of its items, or its own.
theorem Schema.exists_item_of_mem_paths {s : Schema} {root : String} {a : Accessor}
    {ps : List Path} {p : Path} (h : s.paths root a = .ok ps) (hp : p ∈ ps) :
    ∃ item, s.path root item = .ok p := by
  unfold paths at h
  split at h
  next items _ =>
    obtain ⟨item, -, hitem⟩ := Except.exists_item_of_mem h hp
    exact ⟨item, hitem⟩
  next =>
    obtain ⟨q, hq, h⟩ := Except.bind_eq_ok_iff.1 h
    cases h
    rw [List.mem_singleton.1 hp]
    exact ⟨_, hq⟩

/-! ## What is checked beside usability -/

/-- Lists of operands are not empty, and paths are declared from the root on. -/
structure Condition.Resolved (schema : Schema) (root : String) (c : Condition) : Prop where
  nonempty : c.operands ≠ .many []
  declared : ∀ p, c.path = some p → p.root = root ∧
    ∃ target, schema.Leads root p.navigation target ∧ schema.Declares target p.terminal

-- A selected relationship leads to an entity that the schema knows.
theorem Condition.Usable.exists_entity {schema : Schema} {c : Condition} {p : Path}
    (h : c.Usable schema) (hpath : c.path = some p) (hkind : c.kind = .select)
    (hnav : p.terminal.declared.isNavigation = true) :
    ∃ name entity, (p.terminal.declared = .reference name ∨
      p.terminal.declared = .collection (.reference name)) ∧
      schema.entity? name = some entity := by
  obtain ⟨target, htarget, hentity⟩ := h.select p hpath hkind
  obtain ⟨hdeclared, hsome⟩ := Path.selectedEntity_eq_ok htarget
  obtain ⟨name, rfl⟩ := Option.isSome_iff_exists.1 (hsome.symm.trans hnav)
  obtain ⟨entity, he⟩ := hentity name rfl
  exact ⟨name, entity, Declared.target?_eq_some_iff.1 hdeclared.symm, Schema.entity_eq_ok_iff.1 he⟩

/-- A usable condition with a declared path is well-formed. -/
theorem Condition.Resolved.wellFormed {schema : Schema} {root : String} {c : Condition}
    (h : c.Resolved schema root) (husable : c.Usable schema) : c.WellFormed schema root where
  arity := husable.arity
  nonempty := h.nonempty
  pathless := by
    rw [← Kind.isPagination_iff, ← husable.path, Option.isNone_iff_eq_none]
  count hkind := husable.count (Kind.isPagination_iff.2 hkind)
  declared := h.declared
  fetch := husable.fetch
  select _ := husable.exists_entity

namespace Spec

variable {spec : Spec} {request : Request} {added : List Condition}

-- What is made of a request has paths that are declared from the root of the specification.
theorem resolved_of_prepared (h : spec.prepared request = .ok added) :
    ∀ c ∈ added, c.Resolved spec.schema spec.root := by
  intro c hc
  cases request with
  | condition a kind operands =>
    obtain ⟨paths, hpaths, -, rfl, hmade⟩ := prepare_eq_ok h
    obtain ⟨p, hp, rfl⟩ := List.mem_map.1 hc
    refine ⟨(Condition.make_eq_ok (hmade p hp).2).2.1, fun q hq => ?_⟩
    cases hq
    obtain ⟨item, hitem⟩ := Schema.exists_item_of_mem_paths hpaths hp
    obtain ⟨hroot, -, hleads⟩ := Schema.path_eq_ok_iff.1 hitem
    exact ⟨hroot, hleads⟩
  | page kind count =>
    obtain ⟨d, hd, rfl⟩ := prepared_page_eq_ok.1 h
    obtain rfl := List.mem_singleton.1 hc
    obtain rfl := eq_of_paginate hd
    exact ⟨nofun, nofun⟩

/-! ## Runs -/

-- What holds without groups, and after every call that lands, holds of all that can be reached.
theorem Reachable.invariant {motive : Schema → String → List Group → Prop} (h : spec.Reachable)
    (hnil : ∀ schema root, motive schema root [])
    (hstep : ∀ {placement request before added index after},
      before.prepared request = .ok added → Landed placement request before added index after →
      motive before.schema before.root before.groups →
      motive after.schema after.root after.groups) :
    motive spec.schema spec.root spec.groups := by
  induction h with
  | start h =>
    rw [Started.groups_eq_nil ⟨_, _, h⟩]
    exact hnil _ _
  | withJoinKind _ _ ih | withResultType _ _ ih => exact ih
  | @accepted s t placement request index _ run ih =>
    obtain ⟨added, hprepared, ht, -, hsome⟩ := (ensures_perform_arrange _ _ _).of_ok run
    rw [ht]
    by_cases hempty : added = []
    · rw [hempty, arrange_nil]
      exact ih
    · obtain ⟨-, i, hslot⟩ := hsome hempty
      exact hstep hprepared (landed_of_prepared hprepared hempty hslot) ih
  | refused _ run ih =>
    rw [((ensures_perform _ _ _).of_error run).1]
    exact ih

-- A call that lands brings in resolved conditions and leaves the groups orderly.
theorem Landed.kept_resolved {placement : Placement} {before after : Spec} {index : Nat}
    (hprepared : before.prepared request = .ok added)
    (h : Landed placement request before added index after)
    (hbefore : Kept before.groups ∧
      ∀ c ∈ before.groups.flatMap Group.conditions, c.Resolved before.schema before.root) :
    Kept after.groups ∧
      ∀ c ∈ after.groups.flatMap Group.conditions, c.Resolved after.schema after.root := by
  have hsame : after.schema = before.schema ∧ after.root = before.root := by
    rw [h.state]
    cases placement <;> exact ⟨rfl, rfl⟩
  refine ⟨h.kept hbefore.1, fun c hc => ?_⟩
  rw [hsame.1, hsame.2]
  rcases List.mem_append.1 (h.perm.mem_iff.1 hc) with hc | hc
  · exact hbefore.2 c hc
  · exact resolved_of_prepared hprepared c hc

/-- In every specification that calls have built, no group is empty, an ordering stands alone of its
kind at the front of its group and has no filter with it, and every condition is well-formed. -/
theorem wellFormed_of_reachable (h : spec.Reachable) :
    (∀ g ∈ spec.groups, g.Orderly) ∧
      ∀ c ∈ spec.conditions, c.WellFormed spec.schema spec.root := by
  have hkept : Kept spec.groups ∧
      ∀ c ∈ spec.groups.flatMap Group.conditions, c.Resolved spec.schema spec.root :=
    h.invariant (motive := fun schema root groups => Kept groups ∧
        ∀ c ∈ groups.flatMap Group.conditions, c.Resolved schema root)
      (fun _ _ => ⟨⟨List.forall_mem_nil _, .nil⟩, List.forall_mem_nil _⟩)
      fun hprepared hlanded => hlanded.kept_resolved hprepared
  exact ⟨hkept.1.orderly, fun c hc => (hkept.2 c hc).wellFormed (h.usable c hc)⟩

-- Filters, an order, a selection and a page stand side by side in the specification of employees.
theorem wellFormed_of_reachable_staff :
    staff.Reachable ∧ staff.groups.map Group.size = [2, 1, 1, 1] ∧
      (∀ g ∈ staff.groups, g.Orderly) ∧
      ∀ c ∈ staff.conditions, c.WellFormed staffSchema "Employee" :=
  ⟨reachable_staff, rfl, wellFormed_of_reachable reachable_staff⟩

end Spec

end PathQuery
