import PathQuery.Proofs.Mirror
import PathQuery.Proofs.Strict.Schema
import PathQuery.Spec.Call

/-!
# Calls on strict specifications

The strict form of a specification is the one over the strict schema. A call on it gives the same
answer or the same error as on the specification itself, and what it leaves is the strict form of
what it leaves there.
-/

namespace PathQuery

open Condition (Kind Group)

/-! ## Conditions and groups -/

namespace Condition

def strict (c : Condition) : Condition :=
  { c with path := c.path.map Path.strict }

theorem make_strict (path : Option Path) (kind : Kind) (operands : Operands) :
    make (path.map Path.strict) kind operands = strict <$> make path kind operands := by
  rw [make, make, Option.isNone_map]
  split_ifs <;> rfl

-- A condition that paginates names no property.
theorem paginate_strict (kind : Kind) (count : Int64) :
    paginate kind count = strict <$> paginate kind count := by
  rw [paginate]
  split
  · rfl
  · exact make_strict none kind _

def Group.strict (g : Group) : Group :=
  ⟨g.conditions.map Condition.strict⟩

@[simp]
theorem Group.size_strict (g : Group) : g.strict.size = g.size :=
  List.length_map _

@[simp]
theorem Group.hasOrdering_strict (g : Group) : g.strict.hasOrdering = g.hasOrdering := by
  rw [hasOrdering, strict, List.any_map]
  rfl

theorem Group.push_strict (g : Group) (c : Condition) :
    (g.push c).strict = g.strict.push c.strict := by
  simp [push, strict]

end Condition

namespace Spec

def strict (spec : Spec) : Spec :=
  { spec with schema := spec.schema.strict, groups := spec.groups.map Group.strict }

variable (spec : Spec)

/-! ## Placing conditions -/

@[simp]
theorem slot_strict (placement : Placement) (kind : Kind) :
    spec.strict.slot placement kind = spec.slot placement kind := by
  cases placement with
  | newGroup => simp [slot, strict, Function.comp_def]
  | group index =>
    simp only [slot, strict, List.getElem?_map]
    cases spec.groups[index]? with
    | none => rfl
    | some g => simp

@[simp]
theorem groupSize_strict (index : Nat) : spec.strict.groupSize index = spec.groupSize index := by
  simp [groupSize, strict, Function.comp_def]

theorem putAt_strict (index : Nat) (c : Condition) :
    (spec.putAt index c).strict = spec.strict.putAt index c.strict := by
  have hlength : spec.strict.groups.length = spec.groups.length := List.length_map _
  rw [putAt, putAt, hlength]
  split
  · -- the group at the index has the same conditions in either order of the two changes
    have hgroups : (spec.groups.modify index fun g => g.push c).map Group.strict =
        (spec.groups.map Group.strict).modify index fun g => g.push c.strict := by
      apply List.ext_getElem?
      intro i
      simp only [List.getElem?_map, List.getElem?_modify]
      by_cases hi : index = i <;> simp [hi, Function.comp_def, Group.push_strict]
    simp only [strict, hgroups]
  · simp [strict, Group.strict]

/-- A condition is put into the same group. -/
theorem place_strict (placement : Placement) (c : Condition) :
    (place placement c).Mirrors strict id (place placement c.strict) := by
  apply Action.mirrors_current.bind
  intro spec
  rw [show c.strict.kind = c.kind from rfl, slot_strict]
  cases spec.slot placement c.kind with
  | ok index =>
    simp only [← putAt_strict, groupSize_strict]
    apply (Action.mirrors_put _).bind
    intro _
    apply (Action.mirrors_report _).bind
    intro _
    exact Action.mirrors_pure id index
  | error m =>
    cases m with
    | noGroup index => exact Action.mirrors_throw id _
    | outOfOrder cause =>
      apply (Action.mirrors_report _).bind
      intro _
      exact Action.mirrors_throw id _

/-! ## Calls -/

theorem checkTerminal_strict (path : Path) (kind : Kind) :
    spec.strict.checkTerminal path.strict kind = spec.checkTerminal path kind := by
  cases kind with
  | select =>
    simp only [checkTerminal, Path.selectedEntity_strict]
    congr
    funext target
    cases target with
    | none => rfl
    | some entity =>
      simp only [strict, Schema.entity_strict, bind_map_left]
  | fetch =>
    simp only [checkTerminal, Path.dotted_strict]
    rw [show path.strict.terminal.declared.isNavigation = path.terminal.declared.isNavigation from
      Declared.isNavigation_strict _]
    rfl
  | _ => rfl

theorem prepare_strict (a : Accessor) (kind : Kind) (operands : Operands) :
    spec.strict.prepare a kind operands =
      List.map Condition.strict <$> spec.prepare a kind operands := by
  have hpaths : spec.strict.schema.paths spec.strict.root a =
      List.map Path.strict <$> spec.schema.paths spec.root a :=
    spec.schema.paths_strict spec.root a
  have hitem : ∀ path : Path,
      (spec.strict.checkTerminal path.strict kind >>= fun _ =>
        Condition.make (some path.strict) kind operands) =
      Condition.strict <$> (spec.checkTerminal path kind >>= fun _ =>
        Condition.make (some path) kind operands) := by
    intro path
    rw [checkTerminal_strict, map_bind]
    congr
    funext _
    exact Condition.make_strict (some path) kind operands
  rw [prepare, prepare, hpaths, bind_map_left, map_bind]
  congr
  funext paths
  simp only [List.length_map]
  split
  · rfl
  · simp only [List.mapM_map, Function.comp_def, hitem]
    exact Except.mapM_map _ _ paths

/-- A call gives the same answer or the same error. -/
theorem perform_strict (placement : Placement) (request : Request) :
    (perform placement request).Mirrors strict id (perform placement request) := by
  cases request with
  | condition a kind operands =>
    apply Action.mirrors_current.bind
    intro spec
    rw [prepare_strict]
    apply (Action.mirrors_ofExcept _ _).bind
    intro cs
    exact Action.mirrors_foldlM (fun _ c => place_strict placement c) cs 0
  | page kind count =>
    have hmake : (Action.ofExcept (Condition.paginate kind count)).Mirrors strict Condition.strict
        (Action.ofExcept (Condition.paginate kind count)) := by
      have hmirrors := Action.mirrors_ofExcept (f := strict) Condition.strict
        (Condition.paginate kind count)
      rw [← Condition.paginate_strict] at hmirrors
      exact hmirrors
    exact hmake.bind (place_strict placement)

theorem chainFrom_strict (previous : Option Nat) (cs : List Call) (s : Logged Spec) :
    chainFrom previous cs (s.map strict) =
      Prod.map id (Logged.map strict) (chainFrom previous cs s) := by
  induction cs generalizing previous s with
  | nil => rfl
  | cons c cs ih =>
    rw [chainFrom, chainFrom, perform_strict _ _ s]
    cases perform (Call.placement c previous) c.request s with
    | ok index t =>
      simp only [ih]
      rfl
    | error e t => rfl

end Spec

end PathQuery
