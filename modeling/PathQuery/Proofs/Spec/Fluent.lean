import PathQuery.Proofs.Compile
import PathQuery.Proofs.Spec.Landing

/-!
# Fluent calls

A statement of fluent calls puts every call into a new group or continues the group that the call
before has answered. As long as no call has a tuple without items for its accessor, that group is
the last one and ends in the condition of the call before, so alternatives come together where they
were written.
-/

namespace PathQuery

open Condition (Kind Group)

namespace Spec

/-- The specifications that statements of fluent calls build from those in `init` when all of the
calls satisfy `p`, with the group that the last call has answered. A failure ends its statement, and
the first call of the next one has no group to continue. -/
inductive Fluent (init : Spec → Prop) (p : Spec → Placement → Request → Prop) :
    Spec → Option Nat → Prop where
  | init {spec : Spec} (h : init spec) : Fluent init p spec none
  | withJoinKind {spec : Spec} {previous : Option Nat} (h : Fluent init p spec previous)
    (kind : JoinKind) : Fluent init p (spec.withJoinKind kind) none
  | withResultType {spec : Spec} {previous : Option Nat} (h : Fluent init p spec previous)
    (target : String) : Fluent init p (spec.withResultType target) none
  | ended {spec : Spec} {previous : Option Nat} (h : Fluent init p spec previous) :
    Fluent init p spec none
  | accepted {s t : Logged Spec} {previous : Option Nat} {c : Call} {index : Nat}
    (h : Fluent init p s.state previous) (hc : p s.state (Call.placement c previous) c.request)
    (run : perform (Call.placement c previous) c.request s = .ok index t) :
    Fluent init p t.state (some index)
  | refused {s t : Logged Spec} {previous : Option Nat} {c : Call} {e : Error}
    (h : Fluent init p s.state previous) (hc : p s.state (Call.placement c previous) c.request)
    (run : perform (Call.placement c previous) c.request s = .error e t) :
    Fluent init p t.state none

-- A chain is a statement of fluent calls.
theorem Fluent.chain {init : Spec → Prop} {p : Spec → Placement → Request → Prop} {s : Logged Spec}
    (h : Fluent init p s.state none) (cs : List Call)
    (hcs : ∀ c ∈ cs, ∀ spec previous, p spec (Call.placement c previous) c.request) :
    Fluent init p (Spec.chain cs s).2.state none := by
  suffices hfrom : ∀ previous, Fluent init p s.state previous →
      Fluent init p (chainFrom previous cs s).2.state none from hfrom none h
  clear h
  induction cs generalizing s with
  | nil => exact fun _ => .ended
  | cons c cs ih =>
    obtain ⟨hc, hcs⟩ := List.forall_mem_cons.1 hcs
    intro previous h
    rw [chainFrom]
    split
    next index t run => exact ih hcs (some index) (h.accepted (hc _ _) run)
    next e t run => exact h.refused (hc _ _) run

/-! ## Counting conditions -/

/-- The number of filters. -/
def filterCount (spec : Spec) : Nat :=
  (spec.conditions.filter (·.kind.isFilter)).length

-- A place that takes conditions keeps all that were there.
theorem perm_conditions_arrange {spec : Spec} {placement : Placement} {kind : Kind} {index : Nat}
    (h : spec.slot placement kind = .ok index) (cs : List Condition) :
    (spec.arrange placement cs).conditions.Perm (spec.conditions ++ cs) := by
  cases placement with
  | newGroup => simp [arrange, conditions, List.flatMap_map]
  | group target =>
    obtain ⟨⟨g, hg, -, -⟩, -⟩ := slot_group_eq_ok.1 h
    obtain ⟨hlt, -⟩ := List.getElem?_eq_some_iff.1 hg
    obtain ⟨front, g, back, hgroups, -, hput⟩ :=
      List.exists_of_modify (Group.extend · cs) hlt
    simp only [conditions, arrange, hput]
    simp only [hgroups, Group.extend, List.flatMap_append, List.flatMap_cons, List.append_assoc]
    exact (List.perm_append_comm.append_left g.conditions).append_left _

theorem Landed.perm {placement : Placement} {request : Request} {before after : Spec}
    {added : List Condition} {index : Nat} (h : Landed placement request before added index after) :
    after.conditions.Perm (before.conditions ++ added) := by
  obtain ⟨i, hslot⟩ := h.place
  rw [h.state]
  exact perm_conditions_arrange hslot added

-- A filter is one condition.
theorem Landed.filterCount_eq {placement : Placement} {request : Request} {before after : Spec}
    {added : List Condition} {index : Nat} (h : Landed placement request before added index after)
    (hfilter : request.kind.isFilter = true) : after.filterCount = before.filterCount + 1 := by
  have hkind : request.kind ≠ .select := by
    intro heq
    rw [heq] at hfilter
    cases hfilter
  have hadded : added.filter (·.kind.isFilter) = added := by
    rw [List.filter_eq_self]
    intro c hc
    rw [(h.each c hc).1]
    exact hfilter
  rw [filterCount, (h.perm.filter _).length_eq, List.filter_append, hadded, List.length_append,
    h.single hkind]
  rfl

/-! ## The group of the call before -/

-- Calls that name a property have landed if they have succeeded.
theorem landed_of_perform {placement : Placement} {request : Request} {s t : Logged Spec}
    {index : Nat} (hnamed : request.isVacant = false)
    (run : perform placement request s = .ok index t) :
    ∃ added, Landed placement request s.state added index t.state := by
  rcases (ensures_perform placement request s).of_ok run with ⟨hvacant, -⟩ | ⟨-, hlanded⟩
  · rw [hnamed] at hvacant
    cases hvacant
  · exact hlanded

-- Conditions in groups of their own come last.
theorem Landed.index_of_newGroup {request : Request} {before after : Spec}
    {added : List Condition} {index : Nat} (h : Landed .newGroup request before added index after) :
    index + 1 = after.groups.length := by
  have hpos : 0 < added.length := List.length_pos_iff.2 h.some_added
  have hlength : after.groups.length = before.groups.length + added.length := by
    simp [h.state, arrange]
  have hindex : index = after.groups.length - 1 := h.receiver
  omega

/-- The call names a property. -/
def NamesProperty (_ : Spec) (_ : Placement) (request : Request) : Prop :=
  request.isVacant = false

-- A call lands in the last group if that is the group that the call before has answered.
theorem Landed.index_succ {previous : Option Nat} {c : Call} {before after : Spec}
    {added : List Condition} {index : Nat}
    (hprevious : ∀ i, previous = some i → i + 1 = before.groups.length)
    (h : Landed (Call.placement c previous) c.request before added index after) :
    index + 1 = after.groups.length := by
  cases previous with
  | none => exact h.index_of_newGroup
  | some i =>
    rw [Call.placement] at h
    split at h
    · -- the group that is continued is still the last one
      have hindex : index = i := h.receiver
      have hlength : after.groups.length = before.groups.length := by
        rw [h.state, arrange, List.length_modify]
      have hlast := hprevious i rfl
      omega
    · exact h.index_of_newGroup

-- The group that the call before has answered is the last one.
theorem Fluent.index_succ {init : Spec → Prop} {spec : Spec} {previous : Option Nat}
    (h : Fluent init NamesProperty spec previous) :
    ∀ i, previous = some i → i + 1 = spec.groups.length := by
  induction h with
  | init _ | withJoinKind _ _ _ | withResultType _ _ _ | ended _ _ | refused _ _ _ _ => nofun
  | accepted h hnamed run ih =>
    intro i hi
    cases hi
    obtain ⟨added, hlanded⟩ := landed_of_perform hnamed run
    exact hlanded.index_succ ih

/-- An insertion that succeeds has landed, unless its accessor is a tuple without items: then it
succeeds with nothing done. In runs of calls that all name a property every call that succeeds lands
in the last group, and a call that continues it lands there too. Every filter counts once. -/
theorem insert_lands (s : Logged Spec) :
    (∀ (placement : Placement) (a : Accessor) (kind : Kind) (operands : Operands),
      s.state.Reachable →
      (a.bare = .tuple [] → insert placement a kind operands s = .ok 0 s) ∧
      (a.bare ≠ .tuple [] → ∀ index t, insert placement a kind operands s = .ok index t →
        (∃ added, Landed placement (.condition a kind operands) s.state added index t.state) ∧
        (kind.isFilter = true → t.state.filterCount = s.state.filterCount + 1))) ∧
    ∀ (previous : Option Nat) (c : Call) (index : Nat) (t : Logged Spec),
      Fluent Reachable NamesProperty s.state previous → c.request.isVacant = false →
      perform (Call.placement c previous) c.request s = .ok index t →
      (∃ added, Landed (Call.placement c previous) c.request s.state added index t.state) ∧
      index + 1 = t.state.groups.length ∧
      (c.request.kind.isFilter = true → t.state.filterCount = s.state.filterCount + 1) ∧
      ∀ (d : Call) (i : Nat) (u : Logged Spec), d.continues = true →
        d.request.isVacant = false → perform (Call.placement d (some index)) d.request t = .ok i u →
        i = index ∧ ∃ more, Landed (.group index) d.request t.state more i u.state := by
  refine ⟨fun placement a kind operands _ => ⟨fun hvacant => ?_, fun hnamed index t run => ?_⟩,
    fun previous c index t h hnamed run => ?_⟩
  · exact insert_of_vacant hvacant placement kind operands s
  · have hrequest : (Request.condition a kind operands).isVacant = false :=
      Bool.eq_false_iff.2 fun h => hnamed (Request.isVacant_condition_iff.1 h)
    have hperform : perform placement (.condition a kind operands) s = .ok index t := run
    obtain ⟨added, hlanded⟩ := landed_of_perform hrequest hperform
    exact ⟨⟨added, hlanded⟩, hlanded.filterCount_eq⟩
  · obtain ⟨added, hlanded⟩ := landed_of_perform hnamed run
    refine ⟨⟨added, hlanded⟩, hlanded.index_succ h.index_succ, hlanded.filterCount_eq,
      fun d i u hd hdnamed hdrun => ?_⟩
    rw [Call.placement, if_pos hd] at hdrun
    obtain ⟨more, hmore⟩ := landed_of_perform hdnamed hdrun
    exact ⟨hmore.receiver, more, hmore⟩

/-- The employees before any call. -/
def staffStart : Spec :=
  ⟨staffSchema, "Employee", .inner, [], none⟩

theorem reachable_staffStart : staffStart.Reachable :=
  .start (show start staffSchema "Employee" = .ok staffStart by rfl)

/-- A name, and behind it the employees without an age as an alternative. -/
def annCalls : List Call :=
  [⟨.equal (.chain ["name"]) (.string "Ann"), false⟩, ⟨.isNull (.chain ["age"]), true⟩]

-- A name is inserted alone, and in a chain the alternative joins it.
theorem insert_lands_staff :
    staffStart.Reachable ∧ (Accessor.chain ["name"]).bare ≠ .tuple [] ∧
      (∃ t, insert .newGroup (.chain ["name"]) .equal (.single (.string "Ann")) ⟨staffStart, []⟩ =
        .ok 0 t ∧ t.state.filterCount = 1) ∧
      ∃ t u, perform .newGroup annCalls[0].request ⟨staffStart, []⟩ = .ok 0 t ∧
        t.state.groups.length = 1 ∧ perform (.group 0) annCalls[1].request t = .ok 0 u ∧
        ∃ more, Landed (.group 0) annCalls[1].request t.state more 0 u.state := by
  obtain ⟨hinsert, hfluent⟩ := insert_lands ⟨staffStart, []⟩
  have hname : (Accessor.chain ["name"]).bare ≠ .tuple [] := nofun
  have hinserted := (hinsert .newGroup (.chain ["name"]) .equal (.single (.string "Ann"))
    reachable_staffStart).2 hname 0 _ rfl
  have hfirst := hfluent none annCalls[0] 0 _ (.init reachable_staffStart) rfl rfl
  refine ⟨reachable_staffStart, hname, ⟨_, rfl, hinserted.2 rfl⟩, _, _, rfl, hfirst.2.1.symm, rfl,
    ?_⟩
  exact (hfirst.2.2.2 annCalls[1] 0 _ rfl rfl rfl).2

/-- A name, an age, a filter on no property at all, and an alternative behind it. -/
def strayCalls : List Call :=
  [⟨.equal (.chain ["name"]) (.string "Ann"), false⟩,
   ⟨.equal (.chain ["age"]) (.int64 50), false⟩,
   ⟨.equal (.tuple []) (.int64 50), false⟩,
   ⟨.isNull (.chain ["manager", "name"]), true⟩]

-- The filter on no property is lost, and the alternative goes into the first group, not the last.
theorem insert_empty_tuple_lost :
    staffStart.Reachable ∧
      insert .newGroup (.tuple []) .equal (.single (.int64 50)) ⟨staffStart, []⟩ =
        .ok 0 ⟨staffStart, []⟩ ∧
      staffStart.groups = [] ∧
      (chain strayCalls ⟨staffStart, []⟩).1 = [.ok 0, .ok 1, .ok 0, .ok 0] ∧
      (chain strayCalls ⟨staffStart, []⟩).2.state.groups.map Group.size = [2, 1] :=
  ⟨reachable_staffStart, insert_of_vacant rfl _ _ _ _, rfl, rfl, rfl⟩

end Spec

end PathQuery
