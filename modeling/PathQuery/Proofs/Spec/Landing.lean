import PathQuery.Proofs.Spec.Reachable

/-!
# Where conditions land

A call makes all of its conditions before it puts the first one in its place. They are of one kind,
and a place that takes one of them takes the others as well, so a call that fails has put nothing
anywhere. A call that succeeds has put at least one condition, unless its accessor is a tuple
without items.
-/

namespace PathQuery

open Condition (Kind Group)

namespace Request

/-- The kind of the conditions that are asked for. -/
def kind : Request → Kind
  | .condition _ kind _ => kind
  | .page kind _ => kind

/-- The operands of each of them. -/
def operands : Request → Operands
  | .condition _ _ operands => operands
  | .page _ count => .single (.int64 count)

/-- Whether the accessor is a tuple without items, with or without widenings around it. -/
def isVacant : Request → Bool
  | .condition a _ _ =>
    match a.bare with
    | .tuple [] => true
    | _ => false
  | .page _ _ => false

theorem isVacant_condition_iff {a : Accessor} {kind : Kind} {operands : Operands} :
    (condition a kind operands).isVacant = true ↔ a.bare = .tuple [] := by
  change (match a.bare with | .tuple [] => true | _ => false) = true ↔ _
  split
  next hbare => simp [hbare]
  next hbare => simpa using hbare

end Request

/-- The group with more conditions at its end. -/
def Condition.Group.extend (g : Group) (cs : List Condition) : Group :=
  ⟨g.conditions ++ cs⟩

@[simp]
theorem Condition.Group.hasOrdering_extend (g : Group) (cs : List Condition) :
    (g.extend cs).hasOrdering = (g.hasOrdering || cs.any (·.kind.isOrdering)) :=
  List.any_append

theorem Condition.Kind.isOrdering_of_isFilter {kind : Kind} (h : kind.isFilter = true) :
    kind.isOrdering = false := by
  revert h
  cases kind <;> decide

namespace Spec

variable {spec : Spec} {placement : Placement} {request : Request} {kind : Kind} {index : Nat}
  {c : Condition} {cs : List Condition}

/-! ## Making conditions -/

/-- The conditions that a request asks for. -/
def prepared (spec : Spec) : Request → Except Error (List Condition)
  | .condition a kind operands => spec.prepare a kind operands
  | .page kind count => (Condition.paginate kind count).map fun c => [c]

-- Only a tuple without items has no path.
theorem paths_eq_nil_iff {schema : Schema} {root : String} {a : Accessor} {ps : List Path}
    (h : schema.paths root a = .ok ps) : ps = [] ↔ a.bare = .tuple [] := by
  unfold Schema.paths at h
  split at h
  next items hbare =>
    have hlength := (Except.mapM_eq_ok_iff.1 h).length_eq
    rw [hbare, Accessor.tuple.injEq, ← List.length_eq_zero_iff, ← hlength, List.length_eq_zero_iff]
  next hbare =>
    obtain ⟨p, -, hp⟩ := Except.bind_eq_ok_iff.1 h
    cases hp
    simpa using hbare []

theorem eq_of_paginate {count : Int64} (h : Condition.paginate kind count = .ok c) :
    c = ⟨none, kind, .single (.int64 count)⟩ :=
  (Condition.make_eq_ok (Condition.paginate_eq_ok h).2).2.2.2

theorem prepared_page_eq_ok {count : Int64} :
    spec.prepared (.page kind count) = .ok cs ↔
      ∃ c, Condition.paginate kind count = .ok c ∧ cs = [c] := by
  rw [prepared]
  cases Condition.paginate kind count <;> simp [Except.map, eq_comm]

/-- What is made has the kind and the operands that are asked for: one condition, or any number of
selections, and nothing at all only for a tuple without items. -/
structure Made (request : Request) (cs : List Condition) : Prop where
  vacant : cs = [] ↔ request.isVacant = true
  single : request.kind ≠ .select → cs.length ≤ 1
  each : ∀ c ∈ cs, c.kind = request.kind ∧ c.operands = request.operands

theorem made_of_prepared (h : spec.prepared request = .ok cs) : Made request cs := by
  cases request with
  | condition a kind operands =>
    obtain ⟨paths, hpaths, hfew, rfl, -⟩ := prepare_eq_ok h
    refine ⟨?_, fun hkind => ?_, fun c hc => ?_⟩
    · rw [Request.isVacant_condition_iff, ← paths_eq_nil_iff hpaths, List.map_eq_nil_iff]
    · rw [List.length_map]
      exact hfew hkind
    · obtain ⟨p, -, rfl⟩ := List.mem_map.1 hc
      exact ⟨rfl, rfl⟩
  | page kind count =>
    obtain ⟨c, hc, rfl⟩ := prepared_page_eq_ok.1 h
    obtain rfl := eq_of_paginate hc
    refine ⟨by simp [Request.isVacant], fun _ => Nat.le_refl 1, fun d hd => ?_⟩
    rw [List.mem_singleton.1 hd]
    exact ⟨rfl, rfl⟩

/-! ## Putting conditions -/

-- A new group is there for every condition but a filter behind an ordering.
theorem slot_newGroup_eq_ok :
    spec.slot .newGroup kind = .ok index ↔
      (kind.isFilter = true → spec.groups.any Group.hasOrdering = false) ∧
        spec.groups.length = index := by
  unfold slot
  cases kind.isFilter <;> cases spec.groups.any Group.hasOrdering <;> simp

-- A group that is there takes everything but orderings, and with an ordering in it no filter.
theorem slot_group_eq_ok {target : Nat} :
    spec.slot (.group target) kind = .ok index ↔
      (∃ g, spec.groups[target]? = some g ∧ kind.isOrdering = false ∧
        (kind.isFilter = true → g.hasOrdering = false)) ∧ target = index := by
  unfold slot
  cases hg : spec.groups[target]? with
  | none => simp [hg]
  | some g =>
    cases kind.isOrdering <;> cases kind.isFilter <;> cases ho : g.hasOrdering <;> simp [hg, ho]

/-- The specification with conditions put somewhere: each of them into a group of its own, or all
of them behind those of one group. -/
def arrange (spec : Spec) : Placement → List Condition → Spec
  | .newGroup, cs => { spec with groups := spec.groups ++ cs.map fun c => ⟨[c]⟩ }
  | .group index, cs => { spec with groups := spec.groups.modify index (·.extend cs) }

/-- The group that has the last of the conditions put somewhere. -/
def receiver (spec : Spec) : Placement → Nat
  | .newGroup => spec.groups.length - 1
  | .group index => index

theorem arrange_nil (placement : Placement) : spec.arrange placement [] = spec := by
  cases placement with
  | newGroup => simp [arrange]
  | group index =>
    have hid : (fun g : Group => g.extend []) = id := by
      funext g
      rw [Group.extend, List.append_nil, id]
    rw [arrange, hid, List.modify_id]

theorem arrange_cons (placement : Placement) (c : Condition) (cs : List Condition) :
    (spec.arrange placement [c]).arrange placement cs = spec.arrange placement (c :: cs) := by
  cases placement with
  | newGroup => simp [arrange]
  | group index =>
    simp only [arrange, List.modify_modify_eq]
    congr 2
    funext g
    simp [Group.extend]

-- One condition is put where its place is.
theorem putAt_eq_arrange (h : spec.slot placement c.kind = .ok index) :
    spec.putAt index c = spec.arrange placement [c] := by
  cases placement with
  | newGroup =>
    obtain ⟨-, rfl⟩ := slot_newGroup_eq_ok.1 h
    rw [putAt, if_neg (Nat.lt_irrefl _)]
    rfl
  | group target =>
    obtain ⟨⟨g, hg, -, -⟩, rfl⟩ := slot_group_eq_ok.1 h
    obtain ⟨hlt, -⟩ := List.getElem?_eq_some_iff.1 hg
    rw [putAt, if_pos hlt]
    rfl

theorem receiver_arrange (h : spec.slot placement c.kind = .ok index) :
    (spec.arrange placement [c]).receiver placement = index := by
  cases placement with
  | newGroup =>
    obtain ⟨-, rfl⟩ := slot_newGroup_eq_ok.1 h
    simp [arrange, receiver]
  | group target => exact (slot_group_eq_ok.1 h).2

-- What has been put does not stand in the way of more of its kind.
theorem exists_slot_arrange (h : spec.slot placement c.kind = .ok index) :
    ∃ next, (spec.arrange placement [c]).slot placement c.kind = .ok next := by
  cases placement with
  | newGroup =>
    obtain ⟨hfilter, -⟩ := slot_newGroup_eq_ok.1 h
    refine ⟨_, slot_newGroup_eq_ok.2 ⟨fun hc => ?_, rfl⟩⟩
    have hc' := Kind.isOrdering_of_isFilter hc
    simp [arrange, Group.hasOrdering, hfilter hc, hc']
  | group target =>
    obtain ⟨⟨g, hg, hordering, hfilter⟩, -⟩ := slot_group_eq_ok.1 h
    refine ⟨target, slot_group_eq_ok.2 ⟨⟨g.extend [c], ?_, hordering, fun hc => ?_⟩, rfl⟩⟩
    · simp [arrange, hg]
    · simp [hfilter hc, hordering]

/-- Conditions of one kind are all put, or none of them is. -/
theorem ensures_placeAll (placement : Placement) (kind : Kind) (cs : List Condition) (last : Nat)
    (s : Logged Spec) (hcs : ∀ c ∈ cs, c.kind = kind) :
    (cs.foldlM (fun _ c => place placement c) last : Action Spec Nat).Ensures s
      (fun index t => t.state = s.state.arrange placement cs ∧
        (cs = [] → index = last) ∧
        (cs ≠ [] → index = t.state.receiver placement ∧
          ∃ i, s.state.slot placement kind = .ok i))
      (fun e t => t.state = s.state ∧
        ∃ m, s.state.slot placement kind = .error m ∧ e = .invalidSequence m.reason) := by
  induction cs generalizing s last with
  | nil => exact ⟨(arrange_nil placement).symm, fun _ => rfl, fun h => absurd rfl h⟩
  | cons c cs ih =>
    obtain ⟨rfl, hcs⟩ := List.forall_mem_cons.1 hcs
    rw [List.foldlM_cons, Action.ensures_bind]
    refine (ensures_place placement c s).imp (fun index t hplaced => ?_) fun e t hrefused => ?_
    · obtain ⟨hslot, ht⟩ := hplaced
      rw [putAt_eq_arrange hslot] at ht
      obtain ⟨next, hnext⟩ := exists_slot_arrange hslot
      rw [← ht] at hnext
      refine (ih index t hcs).imp (fun i u hrest => ?_) fun e u hrest => ?_
      · obtain ⟨hu, hnil, hmore⟩ := hrest
        rw [ht, arrange_cons] at hu
        refine ⟨hu, fun h => absurd h (List.cons_ne_nil c cs), fun _ => ⟨?_, index, hslot⟩⟩
        by_cases hlast : cs = []
        · -- the condition just put was the last one
          rw [hnil hlast, hu, hlast, receiver_arrange hslot]
        · exact (hmore hlast).1
      · -- the place that has taken one condition takes the next
        obtain ⟨-, m, hm, -⟩ := hrest
        rw [hnext] at hm
        cases hm
    · obtain ⟨m, hm, he, ht⟩ := hrefused
      exact ⟨ht, m, hm, he⟩

/-! ## Whole calls -/

/-- A call has landed: its place has taken its conditions, at least one and only of a selection more
than one, and the last of them is the last one of the group that it answers. -/
structure Landed (placement : Placement) (request : Request) (before : Spec)
    (added : List Condition) (index : Nat) (after : Spec) : Prop where
  some_added : added ≠ []
  single : request.kind ≠ .select → added.length = 1
  each : ∀ c ∈ added, c.kind = request.kind ∧ c.operands = request.operands
  place : ∃ i, before.slot placement request.kind = .ok i
  state : after = before.arrange placement added
  receiver : index = after.receiver placement
  last : ∃ g, after.groups[index]? = some g ∧ g.conditions.getLast? = added.getLast?

-- The group that has the last condition ends in it.
theorem getLast?_receiver {added : List Condition} (hadded : added ≠ [])
    (h : spec.slot placement kind = .ok index) :
    ∃ g, (spec.arrange placement added).groups[(spec.arrange placement added).receiver placement]? =
      some g ∧ g.conditions.getLast? = added.getLast? := by
  cases placement with
  | newGroup =>
    obtain ⟨front, c, rfl⟩ := (List.eq_nil_or_concat' added).resolve_left hadded
    refine ⟨⟨[c]⟩, ?_, by simp⟩
    simp [arrange, receiver, ← List.append_assoc]
  | group target =>
    obtain ⟨⟨g, hg, -, -⟩, -⟩ := slot_group_eq_ok.1 h
    refine ⟨g.extend added, by simp [arrange, receiver, hg], ?_⟩
    exact List.getLast?_append_of_ne_nil _ hadded

theorem ensures_perform_iff {s : Logged Spec} {ok : Nat → Logged Spec → Prop}
    {fail : Error → Logged Spec → Prop} :
    (perform placement request).Ensures s ok fail ↔
      (∀ cs, s.state.prepared request = .ok cs →
        (cs.foldlM (fun _ c => place placement c) 0 : Action Spec Nat).Ensures s ok fail) ∧
      ∀ e, s.state.prepared request = .error e → fail e s := by
  cases request with
  | condition a kind operands =>
    rw [perform, insert, Action.ensures_bind, Action.ensures_current, Action.ensures_bind,
      Action.ensures_ofExcept]
    rfl
  | page kind count =>
    rw [perform, paginate, Action.ensures_bind, Action.ensures_ofExcept, prepared]
    -- a single condition is put like a list of one
    cases Condition.paginate kind count <;> simp [Except.map]

/-- A call that succeeds has put all that it has made where it was to go, and a call that fails
leaves the specification as it was: its conditions could not be made, or the first of them has no
place. -/
theorem ensures_perform_arrange (placement : Placement) (request : Request) (s : Logged Spec) :
    (perform placement request).Ensures s
      (fun index t => ∃ added, s.state.prepared request = .ok added ∧
        t.state = s.state.arrange placement added ∧ (added = [] → index = 0) ∧
        (added ≠ [] → index = t.state.receiver placement ∧
          ∃ i, s.state.slot placement request.kind = .ok i))
      (fun e t => t.state = s.state ∧
        (s.state.prepared request = .error e ∨
          ∃ m, s.state.slot placement request.kind = .error m ∧
            e = .invalidSequence m.reason)) := by
  rw [ensures_perform_iff]
  refine ⟨fun cs hcs => ?_, fun e he => ⟨rfl, .inl he⟩⟩
  have hkind : ∀ c ∈ cs, c.kind = request.kind := fun c hc => ((made_of_prepared hcs).each c hc).1
  exact (ensures_placeAll placement request.kind cs 0 s hkind).imp
    (fun _ _ hdone => ⟨cs, hcs, hdone⟩) fun _ _ hrefused => ⟨hrefused.1, .inr hrefused.2⟩

-- What has been made of a request and put in its place has landed.
theorem landed_of_prepared {added : List Condition} (h : spec.prepared request = .ok added)
    (hadded : added ≠ []) (hslot : spec.slot placement request.kind = .ok index) :
    Landed placement request spec added ((spec.arrange placement added).receiver placement)
      (spec.arrange placement added) := by
  have hmade := made_of_prepared h
  refine ⟨hadded, fun hkind => ?_, hmade.each, ⟨index, hslot⟩, rfl, rfl,
    getLast?_receiver hadded hslot⟩
  have hle := hmade.single hkind
  have hpos := List.length_pos_iff.2 hadded
  omega

/-- A call that succeeds has landed or had no path to put anywhere, and a call that fails leaves the
specification as it was. -/
theorem ensures_perform (placement : Placement) (request : Request) (s : Logged Spec) :
    (perform placement request).Ensures s
      (fun index t =>
        (request.isVacant = true ∧ index = 0 ∧ t.state = s.state) ∨
        (request.isVacant = false ∧
          ∃ added, Landed placement request s.state added index t.state))
      (fun e t => t.state = s.state ∧
        (s.state.prepared request = .error e ∨
          ∃ m, s.state.slot placement request.kind = .error m ∧
            e = .invalidSequence m.reason)) := by
  refine (ensures_perform_arrange placement request s).imp (fun index t hdone => ?_) fun _ _ => id
  obtain ⟨added, hprepared, ht, hnil, hsome⟩ := hdone
  have hvacant := (made_of_prepared hprepared).vacant
  by_cases hempty : added = []
  · refine .inl ⟨hvacant.1 hempty, hnil hempty, ?_⟩
    rw [ht, hempty, arrange_nil]
  · obtain ⟨rfl, i, hslot⟩ := hsome hempty
    refine .inr ⟨Bool.eq_false_iff.2 fun h => hempty (hvacant.2 h), added, ?_⟩
    rw [ht]
    exact landed_of_prepared hprepared hempty hslot

-- Whatever else is asked for, nothing is made of a tuple without items.
theorem insert_of_vacant {a : Accessor} (h : a.bare = .tuple []) (placement : Placement)
    (kind : Kind) (operands : Operands) (s : Logged Spec) :
    insert placement a kind operands s = .ok 0 s := by
  have hprepare : s.state.prepare a kind operands = .ok [] := by
    rw [prepare, Schema.paths, h]
    rfl
  simp only [insert, bind, EStateM.bind, Action.current, hprepare, Action.ofExcept]
  rfl

end Spec

end PathQuery
