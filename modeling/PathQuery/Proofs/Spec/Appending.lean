import PathQuery.Proofs.Spec.Fluent

/-!
# Insertions append

An insertion that succeeds leaves the specification with its conditions behind what was there: in
groups of their own, or at the end of one group. An insertion that fails leaves it as it was, also
when only a late item of a tuple is to blame.
-/

namespace PathQuery

open Condition (Kind Group)

namespace Spec

/-- Conditions have been appended: each of them in a group of its own behind the old ones, or all of
them at the end of one group. Nothing else has changed. -/
structure Appended (placement : Placement) (before : Spec) (added : List Condition)
    (after : Spec) : Prop where
  schema : after.schema = before.schema
  root : after.root = before.root
  joinKind : after.joinKind = before.joinKind
  resultType : after.resultType = before.resultType
  groups : match placement with
    | .newGroup => after.groups = before.groups ++ added.map fun c => ⟨[c]⟩
    | .group index =>
      after.groups.length = before.groups.length ∧
      (added ≠ [] → index < before.groups.length) ∧
      after.groups[index]? = before.groups[index]?.map (·.extend added) ∧
      ∀ other, other ≠ index → after.groups[other]? = before.groups[other]?

variable {spec : Spec} {placement : Placement} {kind : Kind} {added : List Condition}

-- Putting conditions where they have a place appends them.
theorem appended_arrange (hslot : added ≠ [] → ∃ i, spec.slot placement kind = .ok i) :
    Appended placement spec added (spec.arrange placement added) := by
  cases placement with
  | newGroup => exact ⟨rfl, rfl, rfl, rfl, rfl⟩
  | group index =>
    refine ⟨rfl, rfl, rfl, rfl, List.length_modify .., fun hadded => ?_, ?_, fun other hother => ?_⟩
    · obtain ⟨i, hplace⟩ := hslot hadded
      obtain ⟨⟨g, hg, -⟩, -⟩ := slot_group_eq_ok.1 hplace
      exact (List.getElem?_eq_some_iff.1 hg).1
    · exact List.getElem?_modify_eq ..
    · exact List.getElem?_modify_ne _ _ hother.symm

/-- An insertion that succeeds has appended one condition for each path of its accessor, in the
order of the paths, and a pagination its one condition. If either fails, its conditions could not be
made or there is no place for the first of them, and the specification is what it was. -/
theorem insert_appends (s : Logged Spec) (placement : Placement) :
    (∀ (a : Accessor) (kind : Kind) (operands : Operands),
      (insert placement a kind operands).Ensures s
        (fun _ t => ∃ paths, s.state.schema.paths s.state.root a = .ok paths ∧
          Appended placement s.state (paths.map fun p => ⟨some p, kind, operands⟩) t.state)
        (fun e t => t.state = s.state ∧
          (s.state.prepare a kind operands = .error e ∨
            ∃ m, s.state.slot placement kind = .error m ∧ e = .invalidSequence m.reason))) ∧
    ∀ (kind : Kind) (count : Int64),
      (paginate placement kind count).Ensures s
        (fun _ t => Appended placement s.state [⟨none, kind, .single (.int64 count)⟩] t.state)
        (fun e t => t.state = s.state ∧
          (Condition.paginate kind count = .error e ∨
            ∃ m, s.state.slot placement kind = .error m ∧ e = .invalidSequence m.reason)) := by
  refine ⟨fun a kind operands => ?_, fun kind count => ?_⟩
  · refine (ensures_perform_arrange placement (.condition a kind operands) s).imp
      (fun index t hdone => ?_) fun _ _ => id
    obtain ⟨added, hprepared, ht, -, hsome⟩ := hdone
    obtain ⟨paths, hpaths, -, rfl, -⟩ := prepare_eq_ok hprepared
    refine ⟨paths, hpaths, ?_⟩
    rw [ht]
    exact appended_arrange fun hadded => (hsome hadded).2
  · rw [paginate, Action.ensures_bind, Action.ensures_ofExcept]
    refine ⟨fun c hc => ?_, fun e he => ⟨rfl, .inl he⟩⟩
    obtain rfl := eq_of_paginate hc
    refine (ensures_place placement _ s).imp (fun index t hplaced => ?_) fun e t hrefused => ?_
    · obtain ⟨hslot, ht⟩ := hplaced
      rw [ht, putAt_eq_arrange hslot]
      exact appended_arrange fun _ => ⟨index, hslot⟩
    · obtain ⟨m, hm, he, ht⟩ := hrefused
      exact ⟨ht, .inr ⟨m, hm, he⟩⟩

-- The second item is no property, so the first is not put anywhere either.
example :
    insert .newGroup (.tuple [.chain ["name"], .chain ["salary"]]) .select .none ⟨staffStart, []⟩ =
      .error (.unknownProperty "Employee" "salary") ⟨staffStart, []⟩ :=
  rfl

end Spec

end PathQuery
