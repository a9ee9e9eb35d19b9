import PathQuery.Proofs.Session.Groups

/-!
# Carrying out the selection of a relationship

The selection of a relationship joins the whole path and brings the columns of its entity. Selecting
these columns one by one joins the same path first and then finds it joined, so that groups do the
same with either.
-/

namespace PathQuery

open Condition (Group)

/-! ## Paths to columns -/

/-- The path to a property of the entity that a path leads to. -/
def Path.extend (p : Path) (q : Property) : Path :=
  ⟨p.root, p.segments, q⟩

/-- A condition that selects a path. -/
def Condition.selection (p : Path) : Condition :=
  ⟨some p, .select, .none⟩

/-- What may stand for a group: the group itself, or for the selection of a relationship the
selections of the columns of its entity, each of them in a group of its own. -/
inductive Condition.Group.Expands (schema : Schema) : Group → List Group → Prop where
  | same (g : Group) : Expands schema g [g]
  | relationship {p : Path} {name : String} {entity : Entity}
    (h : p.terminal.declared = .reference name ∨
      p.terminal.declared = .collection (.reference name))
    (he : schema.entity? name = some entity) (hcolumns : entity.columns ≠ []) :
    Expands schema ⟨[Condition.selection p]⟩
      (entity.columns.map fun q => ⟨[Condition.selection (p.extend q)]⟩)

-- A relationship to an entity stands for the columns of that entity.
theorem Path.selectedEntity_of_entity {p : Path} {name : String}
    (h : p.terminal.declared = .reference name ∨
      p.terminal.declared = .collection (.reference name)) :
    p.selectedEntity = .ok (some name) := by
  unfold selectedEntity
  rcases h with h | h <;> rw [h] <;> rfl

theorem Path.selectedEntity_extend {p : Path} {q : Property}
    (h : q.declared.isNavigation = false) : (p.extend q).selectedEntity = .ok none := by
  have hterminal : (p.extend q).terminal.declared.isNavigation = false := h
  rw [selectedEntity, hterminal]
  rfl

-- Columns are plain by definition.
theorem Entity.isNavigation_of_mem_columns {e : Entity} {q : Property} (h : q ∈ e.columns) :
    q.declared.isNavigation = false := by
  have hplain := (List.mem_filter.1 h).2
  rwa [Bool.not_eq_true'] at hplain

namespace Session

variable {before : Plan} {s t : Logged Session} {schema : Schema} {path : Path} {q : Property}
  {chain : List String} {parent id : Nat}

/-! ## Joining what is joined -/

-- A relationship that is joined already is found.
theorem join_known {segment : Segment}
    (h : s.state.tree.child? parent segment.name = some id) : join parent segment s = .ok id s := by
  refine Action.bind_eq_ok_iff.2 ⟨s.state, s, rfl, ?_⟩
  dsimp only
  rw [h]
  rfl

-- In a sound tree the way to a node that is there consists of nodes that are there.
theorem walk_known {segments : List Segment} (h : s.state.tree.Sound)
    (hparent : s.state.tree.id? chain = some parent)
    (hid : s.state.tree.id? (chain ++ segments.map (·.name)) = some id) :
    (segments.foldlM join parent : Action Session Nat) s = .ok id s := by
  induction segments generalizing chain parent with
  | nil =>
    rw [List.map_nil, List.append_nil, hparent] at hid
    cases hid
    rfl
  | cons segment segments ih =>
    rw [List.map_cons, List.append_cons] at hid
    have hshorter : chain ++ [segment.name] <+: chain ++ [segment.name] ++ segments.map (·.name) :=
      List.prefix_append _ _
    obtain ⟨next, hnext⟩ := h.exists_id? (h.closed.mem_of_prefix hshorter (h.mem_of_id? hid))
    rw [List.foldlM_cons]
    refine Action.bind_eq_ok_iff.2 ⟨next, s, join_known ?_, ih hnext hid⟩
    rw [JoinTree.child?_of_id? hparent, hnext]

/-- Joins all relationships of a path, the one at its end included. -/
def reach (path : Path) : Action Session Nat :=
  path.segments.foldlM join 0

theorem reach_eq (path : Path) :
    reach path = owner path >>= fun parent => join parent path.terminal := by
  rw [reach, Path.segments, List.foldlM_append, owner]
  simp only [List.foldlM_cons, List.foldlM_nil, bind_pure]

theorem owner_extend (path : Path) (q : Property) : owner (path.extend q) = reach path :=
  rfl

/-- A path that has been joined is joined without any change. -/
theorem reach_again (h : InStep before s.state) (run : reach path s = .ok id t) :
    reach path t = .ok id t := by
  have hroot : s.state.tree.id? [] = some 0 := rfl
  obtain ⟨hwalk, hid⟩ := (ensures_walk path.segments h hroot).of_ok run
  exact walk_known hwalk.inStep.sound rfl hid

/-! ## Selecting -/

/-- The columns of properties under an alias. -/
def columnsOf (qualifier : String) (properties : List Property) : List Column :=
  properties.map fun q => ⟨qualifier ++ "." ++ q.name, q.name⟩

/-- Joins a whole path and answers, with no clause, the columns of properties at its end. -/
def selectAt (path : Path) (properties : List Property) : Action Session (Nat × List Column) := do
  return (0, columnsOf (← aliasOf (← reach path)) properties)

theorem selectAt_eq_ok (run : reach path s = .ok id t) (properties : List Property) :
    selectAt path properties s =
      .ok (0, columnsOf (t.state.tree.aliasOf id) properties) t :=
  Action.bind_eq_ok_iff.2 ⟨id, t, run, rfl⟩

theorem selectAt_eq_error {e : Error} (run : reach path s = .error e t)
    (properties : List Property) : selectAt path properties s = .error e t :=
  Action.bind_eq_error_iff.2 (.inl run)

-- A group with nothing but a selection brings its columns and no clause.
theorem group_selection (path : Path) :
    group schema ⟨[Condition.selection path]⟩ = do return (0, ← select schema path) := by
  have hcondition : condition schema (Condition.selection path) =
      do return ⟨[], ← select schema path⟩ := rfl
  simp only [group, conditions, hcondition, bind_assoc, pure_bind, Contribution.nothing,
    List.append_nil, List.isEmpty_nil, if_true]

theorem group_relationship {name : String} {entity : Entity}
    (h : path.selectedEntity = .ok (some name)) (he : schema.entity? name = some entity) :
    group schema ⟨[Condition.selection path]⟩ = selectAt path entity.columns := by
  have hselect : select schema path =
      do return columnsOf (← aliasOf (← reach path)) entity.columns := by
    have hentity : schema.entity name = .ok entity := by rw [Schema.entity, he]
    rw [reach_eq, select, h, bind_assoc]
    refine congrArg (owner path >>= ·) (funext fun parent => ?_)
    show (do
      let e ← Action.ofExcept (schema.entity name)
      let qualifier ← aliasOf (← join parent path.terminal)
      return columnsOf qualifier e.columns) = _
    rw [hentity]
    rfl
  rw [group_selection, hselect]
  simp only [selectAt, bind_assoc, pure_bind]

theorem group_column (h : q.declared.isNavigation = false) :
    group schema ⟨[Condition.selection (path.extend q)]⟩ = selectAt path [q] := by
  have hselect : select schema (path.extend q) =
      do return columnsOf (← aliasOf (← reach path)) [q] := by
    rw [select, owner_extend, Path.selectedEntity_extend h]
    rfl
  rw [group_selection, hselect]
  simp only [selectAt, bind_assoc, pure_bind]

/-! ## One group or several -/

-- Where the path is joined already, columns are brought without any change.
theorem groups_columns_known {properties : List Property} (run : reach path t = .ok id t)
    (h : ∀ q ∈ properties, q.declared.isNavigation = false) :
    groups schema (properties.map fun q => ⟨[Condition.selection (path.extend q)]⟩) t =
      .ok (0, columnsOf (t.state.tree.aliasOf id) properties) t := by
  induction properties with
  | nil => rfl
  | cons q properties ih =>
    obtain ⟨hq, hrest⟩ := List.forall_mem_cons.1 h
    have hfirst : group schema ⟨[Condition.selection (path.extend q)]⟩ t =
        .ok (0, columnsOf (t.state.tree.aliasOf id) [q]) t := by
      rw [group_column hq]
      exact selectAt_eq_ok run [q]
    exact Action.bind_eq_ok_iff.2 ⟨_, t, hfirst, Action.bind_eq_ok_iff.2 ⟨_, t, ih hrest, rfl⟩⟩

-- The first of several columns joins the path for all of them.
theorem groups_columns {properties : List Property} (hstep : InStep before s.state)
    (hne : properties ≠ []) (h : ∀ q ∈ properties, q.declared.isNavigation = false) :
    groups schema (properties.map fun q => ⟨[Condition.selection (path.extend q)]⟩) s =
      selectAt path properties s := by
  obtain ⟨q, rest, rfl⟩ := List.exists_cons_of_ne_nil hne
  obtain ⟨hq, hrest⟩ := List.forall_mem_cons.1 h
  rw [List.map_cons, groups, group_column hq]
  cases run : reach path s with
  | ok id t =>
    have hmore : groups schema (rest.map fun q => ⟨[Condition.selection (path.extend q)]⟩) t =
        .ok (0, columnsOf (t.state.tree.aliasOf id) rest) t :=
      groups_columns_known (reach_again hstep run) hrest
    rw [selectAt_eq_ok run]
    exact Action.bind_eq_ok_iff.2
      ⟨_, t, selectAt_eq_ok run [q], Action.bind_eq_ok_iff.2 ⟨_, t, hmore, rfl⟩⟩
  | error e t =>
    rw [selectAt_eq_error run]
    exact Action.bind_eq_error_iff.2 (.inl (selectAt_eq_error run [q]))

theorem groups_expands {g : Group} {part : List Group} (hstep : InStep before s.state)
    (h : g.Expands schema part) : groups schema [g] s = groups schema part s := by
  cases h with
  | same => rfl
  | @relationship path name entity h he hcolumns =>
    have hplain : ∀ q ∈ entity.columns, q.declared.isNavigation = false :=
      fun q => Entity.isNavigation_of_mem_columns
    rw [groups_columns hstep hcolumns hplain,
      ← group_relationship (Path.selectedEntity_of_entity h) he]
    simp only [groups, pure_bind, Nat.add_zero, List.append_nil]
    exact congrFun (bind_pure (group schema ⟨[Condition.selection path]⟩)) s

/-- Groups do the same, down to errors and reports, when some of them are expanded. -/
theorem groups_flatten {gs : List Group} {parts : List (List Group)}
    (hstep : InStep before s.state) (husable : ∀ c ∈ gs.flatMap Group.conditions, c.Usable schema)
    (h : List.Forall₂ (Group.Expands schema) gs parts) :
    groups schema gs s = groups schema parts.flatten s := by
  induction h generalizing s with
  | nil => rfl
  | @cons g part gs parts hg _ ih =>
    rw [← List.singleton_append, List.flatMap_append] at husable
    obtain ⟨hfirst, hrest⟩ := List.forall_mem_append.1 husable
    rw [← List.singleton_append, List.flatten_cons, groups_append, groups_append]
    refine Action.bind_congr (groups_expands hstep hg) fun out t run => ?_
    obtain ⟨clauses, hserved, -⟩ := (served_groups [g] hstep hfirst).of_ok run
    exact Action.bind_congr (ih hserved.carried.inStep hrest) fun _ _ _ => rfl

end Session

end PathQuery
