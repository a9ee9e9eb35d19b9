import Mathlib.Tactic.Tauto
import PathQuery.Proofs.Action
import PathQuery.Proofs.Except
import PathQuery.Spec.Call

/-!
# Reachable specifications

A specification is reached by calls, whichever of them fail. Whatever the calls were, its conditions
are usable: the operands fit the kind, the path is there when it is needed, and what the path ends
in is what the kind asks for.
-/

namespace PathQuery

open Condition (Kind Group)

/-! ## Usable conditions -/

/-- What the compilation of a condition relies on. -/
structure Condition.Usable (schema : Schema) (c : Condition) : Prop where
  arity : c.operands.arity = c.kind.arity
  path : c.path.isNone = c.kind.isPagination
  count : c.kind.isPagination = true →
    ∃ n : Int64, 0 ≤ n.toInt ∧ c.operands = .single (.int64 n)
  select : ∀ p, c.path = some p → c.kind = .select →
    ∃ target, p.selectedEntity = .ok target ∧
      ∀ name, target = some name → ∃ entity, schema.entity name = .ok entity
  fetch : ∀ p, c.path = some p → c.kind = .fetch → p.terminal.declared.isNavigation = true

namespace Condition

-- A condition is made only when its operands and its path fit its kind.
theorem make_eq_ok {path : Option Path} {kind : Kind} {operands : Operands} {c : Condition}
    (h : make path kind operands = .ok c) :
    operands.arity = kind.arity ∧ operands ≠ .many [] ∧ path.isNone = kind.isPagination ∧
      c = ⟨path, kind, operands⟩ := by
  unfold make at h
  split at h
  · cases h
  rename_i harity
  split at h
  · cases h
  rename_i hnonempty
  split at h
  · cases h
  rename_i hpath
  cases h
  exact ⟨not_not.1 harity, hnonempty, not_not.1 hpath, rfl⟩

-- A pagination is made of a count that is not negative.
theorem paginate_eq_ok {kind : Kind} {count : Int64} {c : Condition}
    (h : paginate kind count = .ok c) :
    0 ≤ count.toInt ∧ make none kind (.single (.int64 count)) = .ok c := by
  unfold paginate at h
  split at h
  · cases h
  next hcount => exact ⟨Int.not_lt.1 hcount, h⟩

theorem usable_of_paginate {schema : Schema} {kind : Kind} {count : Int64} {c : Condition}
    (h : paginate kind count = .ok c) : c.Usable schema := by
  obtain ⟨hcount, hmake⟩ := paginate_eq_ok h
  obtain ⟨harity, -, hpath, rfl⟩ := make_eq_ok hmake
  exact ⟨harity, hpath, fun _ => ⟨count, hcount, rfl⟩, nofun, nofun⟩

-- The pages of usable conditions have a count.
theorem Usable.exists_count {schema : Schema} {c : Condition} (h : c.Usable schema)
    (hpage : c.kind.isPagination = true) : ∃ n, c.count = .ok n := by
  obtain ⟨n, hn, hoperands⟩ := h.count hpage
  refine ⟨n.toInt.toNat, ?_⟩
  rw [Condition.count, Condition.single, hoperands]
  exact if_neg (by omega)

end Condition

namespace Spec

theorem usable_of_make {spec : Spec} {path : Path} {kind : Kind} {operands : Operands}
    {c : Condition} (hterminal : spec.checkTerminal path kind = .ok ())
    (h : Condition.make (some path) kind operands = .ok c) : c.Usable spec.schema := by
  rcases Condition.make_eq_ok h with ⟨harity, -, hpath, rfl⟩
  -- a condition with a path does not page; the terminal was checked for the other two
  refine ⟨harity, hpath, fun hpage => ?_, ?_, ?_⟩
  · rw [← hpath] at hpage
    cases hpage
  · intro p hp hkind
    cases hp
    cases hkind
    rcases Except.bind_eq_ok_iff.1 hterminal with ⟨target, htarget, hentity⟩
    refine ⟨target, htarget, ?_⟩
    intro name heq
    subst heq
    rcases Except.bind_eq_ok_iff.1 hentity with ⟨entity, hentity, -⟩
    exact ⟨entity, hentity⟩
  · intro p hp hkind
    cases hp
    cases hkind
    change (if path.terminal.declared.isNavigation = true then Except.ok () else _) = _ at hterminal
    split at hterminal
    · assumption
    · cases hterminal

-- An insertion prepares one condition for each path, in the order of the paths, and every one of
-- them has passed all checks.
theorem prepare_eq_ok {spec : Spec} {a : Accessor} {kind : Kind} {operands : Operands}
    {cs : List Condition} (h : spec.prepare a kind operands = .ok cs) :
    ∃ paths, spec.schema.paths spec.root a = .ok paths ∧
      (kind ≠ .select → paths.length ≤ 1) ∧
      cs = paths.map (fun p => ⟨some p, kind, operands⟩) ∧
      ∀ p ∈ paths, spec.checkTerminal p kind = .ok () ∧
        Condition.make (some p) kind operands = .ok ⟨some p, kind, operands⟩ := by
  obtain ⟨paths, hpaths, h⟩ := Except.bind_eq_ok_iff.1 h
  refine ⟨paths, hpaths, ?_⟩
  split at h
  · cases h
  next hfew =>
    obtain ⟨rfl, hitems⟩ := Except.eq_map_of_mapM h fun p c hc => by
      obtain ⟨⟨⟩, -, hmake⟩ := Except.bind_eq_ok_iff.1 hc
      exact (Condition.make_eq_ok hmake).2.2.2
    refine ⟨fun hkind => Nat.not_lt.1 fun hmany => hfew ⟨hmany, hkind⟩, rfl, fun p hp => ?_⟩
    obtain ⟨⟨⟩, hterminal, hmake⟩ := Except.bind_eq_ok_iff.1 (hitems p hp)
    exact ⟨hterminal, hmake⟩

-- All conditions that an insertion prepares are usable.
theorem usable_of_prepare {spec : Spec} {a : Accessor} {kind : Kind} {operands : Operands}
    {cs : List Condition} (h : spec.prepare a kind operands = .ok cs) :
    ∀ c ∈ cs, c.Usable spec.schema := by
  obtain ⟨paths, -, -, rfl, hmade⟩ := prepare_eq_ok h
  intro c hc
  obtain ⟨p, hp, rfl⟩ := List.mem_map.1 hc
  exact usable_of_make (hmade p hp).1 (hmade p hp).2

/-! ## What a call changes -/

/-- A call leaves everything but the groups as it is, and the conditions it adds are usable. -/
structure Grown (before after : Spec) : Prop where
  schema : after.schema = before.schema
  root : after.root = before.root
  joinKind : after.joinKind = before.joinKind
  resultType : after.resultType = before.resultType
  conditions : ∀ c ∈ after.conditions, c ∈ before.conditions ∨ c.Usable before.schema

theorem Grown.refl (spec : Spec) : Grown spec spec :=
  ⟨rfl, rfl, rfl, rfl, fun _ => .inl⟩

theorem Grown.trans {first second third : Spec} (h : Grown first second) (h' : Grown second third) :
    Grown first third := by
  refine ⟨h'.schema.trans h.schema, h'.root.trans h.root, h'.joinKind.trans h.joinKind,
    h'.resultType.trans h.resultType, fun c hc => ?_⟩
  rcases h'.conditions c hc with hc | hc
  · exact h.conditions c hc
  · rw [h.schema] at hc
    exact .inr hc

-- A condition is put into a group or becomes one; no other condition comes in.
theorem mem_conditions_putAt {spec : Spec} {index : Nat} {c d : Condition}
    (h : d ∈ (spec.putAt index c).conditions) : d ∈ spec.conditions ∨ d = c := by
  unfold putAt at h
  split at h
  next hlt =>
    rcases List.exists_of_modify (fun g => g.push c) hlt with ⟨front, g, back, hgroups, -, hput⟩
    -- only the group at the index has changed, and it has the new condition at its end
    change d ∈ (spec.groups.modify index fun g => g.push c).flatMap Group.conditions at h
    rw [hput] at h
    simp only [List.flatMap_append, List.flatMap_cons, Group.push, List.mem_append,
      List.mem_singleton] at h
    simp only [conditions, hgroups, List.flatMap_append, List.flatMap_cons, List.mem_append]
    tauto
  next =>
    simp only [conditions, List.flatMap_append, List.flatMap_singleton, List.mem_append,
      List.mem_singleton] at h ⊢
    exact h

theorem grown_putAt {spec : Spec} {index : Nat} {c : Condition} (h : c.Usable spec.schema) :
    Grown spec (spec.putAt index c) := by
  have hother : (spec.putAt index c).schema = spec.schema ∧ (spec.putAt index c).root = spec.root ∧
      (spec.putAt index c).joinKind = spec.joinKind ∧
      (spec.putAt index c).resultType = spec.resultType := by
    unfold putAt
    split <;> exact ⟨rfl, rfl, rfl, rfl⟩
  rcases hother with ⟨hschema, hroot, hkind, htype⟩
  refine ⟨hschema, hroot, hkind, htype, fun d hd => ?_⟩
  rcases mem_conditions_putAt hd with hd | rfl
  · exact .inl hd
  · exact .inr h

theorem ensures_place (placement : Placement) (c : Condition) (s : Logged Spec) :
    (place placement c).Ensures s
      (fun i t => s.state.slot placement c.kind = .ok i ∧ t.state = s.state.putAt i c)
      (fun e t => ∃ m, s.state.slot placement c.kind = .error m ∧
        e = .invalidSequence m.reason ∧ t.state = s.state) := by
  rw [place, Action.ensures_bind, Action.ensures_current]
  rcases s.state.slot placement c.kind with (_ | _) | i <;> simp

theorem grown_of_place {placement : Placement} {c : Condition} {s : Logged Spec}
    (h : c.Usable s.state.schema) :
    (place placement c).Ensures s (fun _ t => Grown s.state t.state)
      (fun _ t => Grown s.state t.state) := by
  apply (ensures_place placement c s).imp
  · intro i t hdone
    rcases hdone with ⟨-, ht⟩
    rw [ht]
    exact grown_putAt h
  · intro e t hdone
    rcases hdone with ⟨m, -, -, ht⟩
    rw [ht]
    exact Grown.refl _

-- Placing conditions one after the other adds usable ones only, even if it stops midway.
theorem grown_of_placeAll {placement : Placement} {cs : List Condition} {s : Logged Spec}
    {last : Nat} (h : ∀ c ∈ cs, c.Usable s.state.schema) :
    (cs.foldlM (fun _ c => place placement c) last : Action Spec Nat).Ensures s
      (fun _ t => Grown s.state t.state) (fun _ t => Grown s.state t.state) := by
  induction cs generalizing s last with
  | nil => exact Grown.refl _
  | cons c cs ih =>
    rcases List.forall_mem_cons.1 h with ⟨hc, hcs⟩
    rw [List.foldlM_cons, Action.ensures_bind]
    refine (grown_of_place hc).imp (fun i t ht => ?_) (fun _ _ ht => ht)
    -- the schema is still the same, so the conditions that are left are usable in it
    have hrest : ∀ d ∈ cs, d.Usable t.state.schema := by
      rw [ht.schema]
      exact hcs
    exact (ih hrest).imp (fun _ _ => ht.trans) (fun _ _ => ht.trans)

/-- Whatever a call asks for and wherever, what it leaves has grown from what it found. -/
theorem grown_of_perform (placement : Placement) (request : Request) (s : Logged Spec) :
    (perform placement request).Ensures s (fun _ t => Grown s.state t.state)
      (fun _ t => Grown s.state t.state) := by
  cases request with
  | condition a kind operands =>
    rw [perform, insert, Action.ensures_bind, Action.ensures_current, Action.ensures_bind,
      Action.ensures_ofExcept]
    exact ⟨fun cs hcs => grown_of_placeAll (usable_of_prepare hcs), fun _ _ => Grown.refl _⟩
  | page kind count =>
    rw [perform, paginate, Action.ensures_bind, Action.ensures_ofExcept]
    exact ⟨fun c hc => grown_of_place (Condition.usable_of_paginate hc), fun _ _ => Grown.refl _⟩

/-! ## Runs of calls -/

/-- The specifications that calls build, whichever of the calls fail. -/
inductive Reachable : Spec → Prop where
  | start {schema : Schema} {root : String} {spec : Spec} (h : start schema root = .ok spec) :
    Reachable spec
  | withJoinKind {spec : Spec} (h : Reachable spec) (kind : JoinKind) :
    Reachable (spec.withJoinKind kind)
  | withResultType {spec : Spec} (h : Reachable spec) (target : String) :
    Reachable (spec.withResultType target)
  | accepted {s t : Logged Spec} {placement : Placement} {request : Request} {index : Nat}
    (h : Reachable s.state) (run : perform placement request s = .ok index t) : Reachable t.state
  | refused {s t : Logged Spec} {placement : Placement} {request : Request} {e : Error}
    (h : Reachable s.state) (run : perform placement request s = .error e t) : Reachable t.state

-- Chains of calls reach nothing else.
theorem Reachable.chain {s : Logged Spec} (h : Reachable s.state) (cs : List Call) :
    Reachable (Spec.chain cs s).2.state := by
  -- the call before decides only where a call goes, so it may be any
  suffices hfrom : ∀ previous, Reachable (chainFrom previous cs s).2.state from hfrom none
  induction cs generalizing s with
  | nil => exact fun _ => h
  | cons c cs ih =>
    intro previous
    rw [chainFrom]
    split
    next index t run => exact ih (h.accepted run) (some index)
    next e t run => exact h.refused run

/-- Every condition of a reachable specification is usable. -/
theorem Reachable.usable {spec : Spec} (h : spec.Reachable) :
    ∀ c ∈ spec.conditions, c.Usable spec.schema := by
  -- growth keeps the invariant, whether the call has gone through or not
  have kept : ∀ {before after : Spec}, Grown before after →
      (∀ c ∈ before.conditions, c.Usable before.schema) →
      ∀ c ∈ after.conditions, c.Usable after.schema := by
    intro before after hgrown hbefore c hc
    rw [hgrown.schema]
    exact (hgrown.conditions c hc).elim (hbefore c) id
  induction h with
  | start h =>
    rcases Except.bind_eq_ok_iff.1 h with ⟨entity, -, h⟩
    cases h
    intro c hc
    cases hc
  | withJoinKind _ _ ih => exact ih
  | withResultType _ _ ih => exact ih
  | accepted _ run ih => exact kept ((grown_of_perform _ _ _).of_ok run) ih
  | refused _ run ih => exact kept ((grown_of_perform _ _ _).of_error run) ih

end Spec

end PathQuery
