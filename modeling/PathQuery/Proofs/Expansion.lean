import PathQuery.Proofs.Frame
import PathQuery.Proofs.Session.Expansion
import PathQuery.Proofs.Widening

/-!
# Selections of relationships, expanded

Selecting a relationship stands for selecting all plain columns of its entity by a tuple. Plain
calls do not notice which of the two was made, and the plan at the end is the same.
-/

namespace PathQuery

open Condition (Group)

/-! ## Resolving columns -/

/-- No entity lists a property name twice. -/
def Schema.Distinct (s : Schema) : Prop :=
  ∀ e ∈ s.entities, (e.properties.map (·.name)).Nodup

/-- The accessor resolves to a relationship to an entity, or to a collection of it. -/
structure Schema.Relates (s : Schema) (root : String) (a : Accessor) (path : Path)
    (entity : Entity) : Prop where
  resolves : s.path root a = .ok path
  entity : ∃ name, (path.terminal.declared = .reference name ∨
    path.terminal.declared = .collection (.reference name)) ∧ s.entity? name = some entity

-- Among names that are all different every property is the first one of its name.
theorem Entity.declares_of_nodup {e : Entity} {q : Property}
    (h : (e.properties.map (·.name)).Nodup) (hq : q ∈ e.properties) : e.Declares q := by
  obtain ⟨before, after, hsplit⟩ := List.append_of_mem hq
  refine ⟨before, after, hsplit, fun other hother heq => ?_⟩
  rw [hsplit, List.map_append, List.map_cons, List.nodup_append] at h
  exact h.2.2 _ (List.mem_map_of_mem hother) _ List.mem_cons_self heq

namespace Schema

variable {s : Schema} {root first last : String} {ps : List Segment} {p q : Property}
  {a : Accessor} {path : Path} {entity : Entity}

theorem Leads.concat (h : s.Leads root ps first) (hp : s.Declares first p)
    (htarget : p.declared.target? = some last) : s.Leads root (ps ++ [p]) last := by
  induction h with
  | here => exact .along hp htarget (.here last)
  | along hq hnext _ ih => exact .along hq hnext (ih hp)

-- An accessor that resolves to one path is no tuple.
theorem paths_of_path (h : s.path root a = .ok path) : s.paths root a = .ok [path] := by
  rw [← s.path_unwidened] at h
  rw [← s.paths_unwidened, paths, a.bare_unwidened]
  cases hplain : a.unwidened with
  | tuple items =>
    rw [hplain] at h
    cases h
  | root | member _ _ | widen _ _ =>
    rw [hplain] at h
    show (do return [← s.path root _]) = _
    rw [h]
    rfl

/-- A column of the entity that an accessor leads to resolves behind that accessor. -/
theorem Relates.path_member (h : s.Relates root a path entity) (hs : s.Distinct)
    (hq : q ∈ entity.columns) : s.path root (.member a q.name) = .ok (path.extend q) := by
  obtain ⟨hroot, hplain, target, hleads, hterminal⟩ := path_eq_ok_iff.1 h.resolves
  obtain ⟨name, hdeclared, he⟩ := h.entity
  have hnames : (path.extend q).segments.map (·.name) =
      path.segments.map (·.name) ++ [q.name] := List.map_append
  have hdeclares : entity.Declares q :=
    Entity.declares_of_nodup (hs entity (List.mem_of_find?_eq_some he)) (List.mem_filter.1 hq).1
  refine path_eq_ok_iff.2 ⟨hroot, ?_, name, ?_, entity, he, hdeclares⟩
  · rw [Accessor.plain, hplain, hnames, Accessor.chain_concat]
  · exact hleads.concat hterminal (Declared.target?_eq_some_iff.2 hdeclared)

end Schema

/-! ## What a plain call adds -/

/-- One request may stand for another: it is the same, or where the other selects a relationship it
selects the columns of the entity, one by one and in the order of their declaration. -/
inductive Request.Expands (schema : Schema) (root : String) : Request → Request → Prop where
  | same (r : Request) : Expands schema root r r
  | relationship {a : Accessor} {path : Path} {entity : Entity}
    (h : schema.Relates root a path entity) (hcolumns : entity.columns ≠ []) :
    Expands schema root (.select a)
      (.select (.tuple (entity.columns.map fun q => .member a q.name)))

namespace Spec

variable {spec other : Spec} {request request' : Request} {s s' : Logged Spec} {settings : Settings}

-- A selection is made of paths that end in a column or in a relationship to a known entity.
theorem prepare_selections {a : Accessor} {paths : List Path}
    (hpaths : spec.schema.paths spec.root a = .ok paths)
    (h : ∀ p ∈ paths, spec.checkTerminal p .select = .ok ()) :
    spec.prepared (.select a) = .ok (paths.map Condition.selection) := by
  have hmade : (paths.mapM fun p => do
      spec.checkTerminal p .select
      Condition.make (some p) .select .none) = .ok (paths.map Condition.selection) := by
    rw [Except.mapM_eq_ok_iff, List.forall₂_map_right_iff, List.forall₂_same]
    intro p hp
    rw [h p hp]
    rfl
  show spec.prepare a .select .none = _
  rw [prepare, hpaths, ← hmade]
  show (if paths.length > 1 ∧ Condition.Kind.select ≠ .select then _ else _) = _
  rw [if_neg (fun hmany => hmany.2 rfl)]

theorem prepared_relationship {a : Accessor} {path : Path} {entity : Entity}
    (h : spec.schema.Relates spec.root a path entity) :
    spec.prepared (.select a) = .ok [Condition.selection path] := by
  obtain ⟨name, hdeclared, he⟩ := h.entity
  have hterminal : spec.checkTerminal path .select = .ok () := by
    rw [checkTerminal, Path.selectedEntity_of_entity hdeclared]
    show (do let _ ← spec.schema.entity name) = _
    rw [Schema.entity_eq_ok_iff.2 he]
    rfl
  exact prepare_selections (Schema.paths_of_path h.resolves)
    fun p hp => by rwa [List.mem_singleton.1 hp]

theorem prepared_columns {a : Accessor} {path : Path} {entity : Entity}
    (h : spec.schema.Relates spec.root a path entity) (hs : spec.schema.Distinct) :
    spec.prepared (.select (.tuple (entity.columns.map fun q => .member a q.name))) =
      .ok (entity.columns.map fun q => Condition.selection (path.extend q)) := by
  have hpaths : spec.schema.paths spec.root
      (.tuple (entity.columns.map fun q => .member a q.name)) =
        .ok (entity.columns.map path.extend) := by
    refine Except.mapM_eq_ok_iff.2 ?_
    rw [List.forall₂_map_left_iff, List.forall₂_map_right_iff, List.forall₂_same]
    exact fun q hq => h.path_member hs hq
  have hterminal : ∀ p ∈ entity.columns.map path.extend,
      spec.checkTerminal p .select = .ok () := by
    intro p hp
    obtain ⟨q, hq, rfl⟩ := List.mem_map.1 hp
    rw [checkTerminal, Path.selectedEntity_extend (Entity.isNavigation_of_mem_columns hq)]
    rfl
  rw [prepare_selections hpaths hterminal, List.map_map]
  rfl

/-- The conditions that a plain call adds, or its error. -/
def gained (spec : Spec) (request : Request) : Except Error (List Condition) := do
  let cs ← spec.prepared request
  if cs ≠ [] ∧ request.kind.isFilter = true ∧ spec.groups.any Group.hasOrdering = true then
    throw (.invalidSequence (Misplacement.outOfOrder .filterAfterOrdering).reason)
  return cs

theorem gained_of_prepared {cs : List Condition} (h : spec.prepared request = .ok cs) :
    spec.gained request =
      if cs ≠ [] ∧ request.kind.isFilter = true ∧ spec.groups.any Group.hasOrdering = true then
        .error (.invalidSequence (Misplacement.outOfOrder .filterAfterOrdering).reason)
      else .ok cs := by
  rw [gained, h]
  show (if _ then _ else _) = _
  split <;> rfl

-- What is no filter is not held back by orderings.
theorem gained_of_not_isFilter {cs : List Condition} (h : spec.prepared request = .ok cs)
    (hkind : request.kind.isFilter = false) : spec.gained request = .ok cs := by
  rw [gained_of_prepared h, if_neg]
  rintro ⟨-, hfilter, -⟩
  rw [hkind] at hfilter
  cases hfilter

theorem ensures_perform_newGroup (request : Request) (s : Logged Spec) :
    (perform .newGroup request).Ensures s
      (fun _ t => ∃ cs, s.state.gained request = .ok cs ∧ t.state = s.state.arrange .newGroup cs)
      (fun e t => s.state.gained request = .error e ∧ t.state = s.state) := by
  rw [ensures_perform_iff]
  refine ⟨fun cs hcs => ?_, fun e he => ⟨by rw [gained, he]; rfl, rfl⟩⟩
  have hgained := gained_of_prepared hcs
  by_cases hnil : cs = []
  · rw [if_neg fun hfilter => hfilter.1 hnil] at hgained
    rw [hnil] at hgained ⊢
    exact ⟨[], hgained, (arrange_nil _).symm⟩
  have hkind : ∀ c ∈ cs, c.kind = request.kind := fun c hc => ((made_of_prepared hcs).each c hc).1
  refine (ensures_placeAll .newGroup request.kind cs 0 s hkind).imp (fun _ t hdone => ?_)
    fun e t hrefused => ?_
  · obtain ⟨ht, -, hmore⟩ := hdone
    obtain ⟨-, i, hslot⟩ := hmore hnil
    have hplain := (slot_newGroup_eq_ok.1 hslot).1
    rw [if_neg fun hfilter => by rw [hplain hfilter.2.1] at hfilter; exact absurd hfilter.2.2 nofun]
      at hgained
    exact ⟨cs, hgained, ht⟩
  · obtain ⟨ht, m, hslot, rfl⟩ := hrefused
    unfold slot at hslot
    dsimp only at hslot
    split at hslot
    next hfilter =>
      cases hslot
      rw [Bool.and_eq_true] at hfilter
      rw [if_pos ⟨hnil, hfilter⟩] at hgained
      exact ⟨hgained, ht⟩
    next => cases hslot

theorem exists_ok_of_gained {cs : List Condition} (h : s.state.gained request = .ok cs) :
    ∃ i t, perform .newGroup request s = .ok i t ∧ t.state = s.state.arrange .newGroup cs := by
  rw [← Action.exists_ok_iff]
  refine (ensures_perform_newGroup request s).imp (fun i t hdone => ?_) fun e t hrefused => ?_
  · obtain ⟨_, hcs, ht⟩ := hdone
    rw [h] at hcs
    cases hcs
    exact ht
  · rw [h] at hrefused
    cases hrefused.1

theorem exists_error_of_gained {e : Error} (h : s.state.gained request = .error e) :
    ∃ t, perform .newGroup request s = .error e t ∧ t.state = s.state := by
  obtain ⟨f, t, run, heq, ht⟩ : ∃ f t, perform .newGroup request s = .error f t ∧ f = e ∧
      t.state = s.state := by
    rw [← Action.exists_error_iff]
    refine (ensures_perform_newGroup request s).imp (fun i t hdone => ?_) fun f t hrefused => ?_
    · obtain ⟨_, hcs, -⟩ := hdone
      rw [h] at hcs
      cases hcs
    · rw [h] at hrefused
      exact ⟨(Except.error.inj hrefused.1).symm, hrefused.2⟩
  rw [heq] at run
  exact ⟨t, run, ht⟩

/-! ## Specifications that stand for one another -/

/-- One specification may stand for another: some selections of relationships are expanded. -/
structure Expands (spec other : Spec) : Prop where
  schema : other.schema = spec.schema
  root : other.root = spec.root
  joinKind : other.joinKind = spec.joinKind
  resultType : other.resultType = spec.resultType
  groups : ∃ parts, List.Forall₂ (Group.Expands spec.schema) spec.groups parts ∧
    other.groups = parts.flatten

-- Groups may stay as they are.
theorem exists_parts (schema : Schema) (gs : List Group) :
    ∃ parts, List.Forall₂ (Group.Expands schema) gs parts ∧ gs = parts.flatten := by
  refine ⟨gs.map fun g => [g], ?_, ?_⟩
  · rw [List.forall₂_map_right_iff, List.forall₂_same]
    exact fun g _ => .same g
  · rw [← List.flatMap_def, List.flatMap_singleton']

theorem Expands.refl (spec : Spec) : Expands spec spec :=
  ⟨rfl, rfl, rfl, rfl, exists_parts spec.schema spec.groups⟩

-- A selection is no ordering, expanded or not.
theorem any_hasOrdering_of_expands {schema : Schema} {g : Group} {part : List Group}
    (h : g.Expands schema part) : part.any Group.hasOrdering = g.hasOrdering := by
  cases h with
  | same => simp
  | relationship => simp [Group.hasOrdering, Condition.selection, Condition.Kind.isOrdering]

theorem Expands.any_hasOrdering (h : Expands spec other) :
    other.groups.any Group.hasOrdering = spec.groups.any Group.hasOrdering := by
  obtain ⟨parts, hparts, hgroups⟩ := h.groups
  rw [hgroups]
  clear hgroups
  generalize spec.groups = gs at hparts
  induction hparts with
  | nil => rfl
  | cons hg _ ih =>
    rw [List.flatten_cons, List.any_append, any_hasOrdering_of_expands hg, ih, List.any_cons]

theorem Expands.arrange {cs cs' : List Condition} {parts : List (List Group)}
    (h : Expands spec other)
    (hparts : List.Forall₂ (Group.Expands spec.schema) (cs.map fun c => ⟨[c]⟩) parts)
    (hcs : (cs'.map fun c => (⟨[c]⟩ : Group)) = parts.flatten) :
    Expands (spec.arrange .newGroup cs) (other.arrange .newGroup cs') := by
  obtain ⟨before, hbefore, hgroups⟩ := h.groups
  refine ⟨h.schema, h.root, h.joinKind, h.resultType, before ++ parts,
    List.rel_append hbefore hparts, ?_⟩
  rw [Spec.arrange, hgroups, hcs, List.flatten_append]

/-- Specifications that stand for one another come to the same plan or to the same error. -/
theorem Expands.toPlan_eq (h : Expands spec other) (hreachable : spec.Reachable)
    (settings : Settings) :
    other.toPlan settings = spec.toPlan settings := by
  obtain ⟨parts, hparts, hgroups⟩ := h.groups
  have hstart : startSession settings other = startSession settings spec := by
    rw [startSession, startTree, h.root, h.joinKind]
    rfl
  have hsame : Session.groups other.schema other.groups (startSession settings other) =
      Session.groups spec.schema spec.groups (startSession settings spec) := by
    rw [hstart, h.schema, hgroups]
    exact (Session.groups_flatten (inStep_startSession settings spec) hreachable.usable hparts).symm
  cases hplan : spec.toPlan settings with
  | ok plan =>
    rw [toPlan_eq_ok_iff] at hplan ⊢
    rwa [hsame, h.resultType]
  | error e =>
    rw [toPlan_eq_error_iff] at hplan ⊢
    rwa [hsame]

/-! ## Calls -/

-- A plain call looks at the schema, the root and whether there are orderings.
theorem Expands.gained_eq (h : Expands spec other) (request : Request) :
    other.gained request = spec.gained request := by
  have hprepared : other.prepared request = spec.prepared request := by
    cases request with
    | condition a kind operands => simp only [prepared, prepare, checkTerminal, h.schema, h.root]
    | page kind count => rfl
  rw [gained, gained, hprepared, h.any_hasOrdering]

/-- What plain calls add to specifications that stand for one another does so as well. -/
theorem Expands.gained (h : Expands spec other) (hs : spec.schema.Distinct)
    (hrequest : request.Expands spec.schema spec.root request') :
    (∃ e, spec.gained request = .error e ∧ other.gained request' = .error e) ∨
      ∃ cs cs' parts, spec.gained request = .ok cs ∧ other.gained request' = .ok cs' ∧
        List.Forall₂ (Group.Expands spec.schema) (cs.map fun c => ⟨[c]⟩) parts ∧
        (cs'.map fun c => (⟨[c]⟩ : Group)) = parts.flatten := by
  rw [h.gained_eq]
  cases hrequest with
  | same =>
    cases hgained : spec.gained request with
    | error e => exact .inl ⟨e, rfl, rfl⟩
    | ok cs =>
      obtain ⟨parts, hparts, hflat⟩ := exists_parts spec.schema (cs.map fun c => ⟨[c]⟩)
      exact .inr ⟨cs, cs, parts, rfl, rfl, hparts, hflat⟩
  | @relationship a path entity hrelates hcolumns =>
    obtain ⟨name, hdeclared, he⟩ := hrelates.entity
    have hexpands : Group.Expands spec.schema ⟨[Condition.selection path]⟩
        (entity.columns.map fun q => ⟨[Condition.selection (path.extend q)]⟩) :=
      .relationship hdeclared he hcolumns
    refine .inr ⟨_, _, [_], gained_of_not_isFilter (prepared_relationship hrelates) rfl,
      gained_of_not_isFilter (prepared_columns hrelates hs) rfl, .cons hexpands .nil, ?_⟩
    rw [List.map_map, List.flatten_singleton]
    rfl

/-- The two calls succeed together and leave specifications that stand for one another, or they
fail with the same error and leave the specifications as they were. -/
theorem Expands.perform (h : Expands s.state s'.state) (hs : s.state.schema.Distinct)
    (hrequest : request.Expands s.state.schema s.state.root request') :
    (∃ i i' t t', perform .newGroup request s = .ok i t ∧
      perform .newGroup request' s' = .ok i' t' ∧ Expands t.state t'.state) ∨
    ∃ e t t', perform .newGroup request s = .error e t ∧
      perform .newGroup request' s' = .error e t' ∧ Expands t.state t'.state := by
  rcases h.gained hs hrequest with ⟨e, hgained, hgained'⟩ |
    ⟨cs, cs', parts, hgained, hgained', hparts, hflat⟩
  · obtain ⟨t, run, ht⟩ := exists_error_of_gained hgained
    obtain ⟨t', run', ht'⟩ := exists_error_of_gained hgained'
    exact .inr ⟨e, t, t', run, run', by rwa [ht, ht']⟩
  · obtain ⟨i, t, run, ht⟩ := exists_ok_of_gained hgained
    obtain ⟨i', t', run', ht'⟩ := exists_ok_of_gained hgained'
    exact .inl ⟨i, i', t, t', run, run', by rw [ht, ht']; exact h.arrange hparts hflat⟩

/-! ## Runs -/

/-- Plain moves, one of which may stand for the other: none of their calls continues a group, and
some of their selections of relationships are expanded. -/
inductive Move.Expands (schema : Schema) (root : String) : Move → Move → Prop where
  | put {r r' : Request} (h : r.Expands schema root r') :
    Expands schema root (.put .newGroup r) (.put .newGroup r')
  | chain {cs cs' : List Call}
    (h : List.Forall₂ (fun c c' => c.request.Expands schema root c'.request) cs cs')
    (hplain : (∀ c ∈ cs, c.continues = false) ∧ ∀ c ∈ cs', c.continues = false) :
    Expands schema root (.chain cs) (.chain cs')
  | joinKind (kind : JoinKind) : Expands schema root (.joinKind kind) (.joinKind kind)
  | resultType (target : String) : Expands schema root (.resultType target) (.resultType target)

/-- Two runs have come equally far: what they have built stands for one another. -/
structure Abreast (schema : Schema) (root : String) (s s' : Logged Spec) : Prop where
  schema : s.state.schema = schema
  root : s.state.root = root
  reachable : s.state.Reachable
  expands : Expands s.state s'.state

/-- Whether a call has succeeded, or its error. -/
def verdict (answer : Except Error Nat) : Except Error Unit :=
  answer.map fun _ => ()

namespace Abreast

variable {schema : Schema} {root : String} {m m' : Move}

theorem perform (h : Abreast schema root s s') (hs : schema.Distinct)
    (hrequest : request.Expands schema root request') :
    (∃ i i' t t', Spec.perform .newGroup request s = .ok i t ∧
      Spec.perform .newGroup request' s' = .ok i' t' ∧ Abreast schema root t t') ∨
    ∃ e t t', Spec.perform .newGroup request s = .error e t ∧
      Spec.perform .newGroup request' s' = .error e t' ∧ Abreast schema root t t' := by
  obtain ⟨rfl, rfl, hreachable, hexpands⟩ := h
  have hgrown := grown_of_perform .newGroup request s
  rcases hexpands.perform hs hrequest with ⟨i, i', t, t', run, run', ht⟩ | ⟨e, t, t', run, run', ht⟩
  · obtain ⟨hschema, hroot, -⟩ := hgrown.of_ok run
    exact .inl ⟨i, i', t, t', run, run', hschema, hroot, hreachable.accepted run, ht⟩
  · obtain ⟨hschema, hroot, -⟩ := hgrown.of_error run
    exact .inr ⟨e, t, t', run, run', hschema, hroot, hreachable.refused run, ht⟩

theorem chainFrom {cs cs' : List Call} (h : Abreast schema root s s') (hs : schema.Distinct)
    (hcs : List.Forall₂ (fun c c' => c.request.Expands schema root c'.request) cs cs')
    (hplain : ∀ c ∈ cs, c.continues = false) (hplain' : ∀ c ∈ cs', c.continues = false)
    (previous previous' : Option Nat) :
    (Spec.chainFrom previous cs s).1.map verdict = (Spec.chainFrom previous' cs' s').1.map verdict ∧
      Abreast schema root (Spec.chainFrom previous cs s).2 (Spec.chainFrom previous' cs' s').2 := by
  induction hcs generalizing s s' previous previous' with
  | nil => exact ⟨rfl, h⟩
  | @cons c c' cs cs' hc _ ih =>
    obtain ⟨hfirst, hrest⟩ := List.forall_mem_cons.1 hplain
    obtain ⟨hfirst', hrest'⟩ := List.forall_mem_cons.1 hplain'
    rw [Spec.chainFrom, Spec.chainFrom, Call.placement_of_plain hfirst,
      Call.placement_of_plain hfirst']
    rcases h.perform hs hc with ⟨i, i', t, t', run, run', ht⟩ | ⟨e, t, t', run, run', ht⟩
    · obtain ⟨hanswers, hmore⟩ := ih ht hrest hrest' (some i) (some i')
      rw [run, run']
      exact ⟨congrArg (List.cons (Except.ok ())) hanswers, hmore⟩
    · rw [run, run']
      exact ⟨rfl, ht⟩

theorem move (h : Abreast schema root s s') (hs : schema.Distinct)
    (hm : m.Expands schema root m') :
    (m.play s).1.map verdict = (m'.play s').1.map verdict ∧
      Abreast schema root (m.play s).2 (m'.play s').2 := by
  cases hm with
  | put hrequest =>
    rw [Move.play, Move.play]
    rcases h.perform hs hrequest with ⟨i, i', t, t', run, run', ht⟩ | ⟨e, t, t', run, run', ht⟩
    · rw [run, run']
      exact ⟨rfl, ht⟩
    · rw [run, run']
      exact ⟨rfl, ht⟩
  | chain hcs hplain => exact h.chainFrom hs hcs hplain.1 hplain.2 none none
  | joinKind kind =>
    obtain ⟨hschema, hroot, hreachable, hexpands⟩ := h
    exact ⟨rfl, hschema, hroot, hreachable.withJoinKind kind, hexpands.schema, hexpands.root, rfl,
      hexpands.resultType, hexpands.groups⟩
  | resultType target =>
    obtain ⟨hschema, hroot, hreachable, hexpands⟩ := h
    exact ⟨rfl, hschema, hroot, hreachable.withResultType target, hexpands.schema, hexpands.root,
      hexpands.joinKind, rfl, hexpands.groups⟩

theorem play {ms ms' : List Move} (h : Abreast schema root s s') (hs : schema.Distinct)
    (hms : List.Forall₂ (Move.Expands schema root) ms ms') :
    (play ms s).1.map (List.map verdict) = (play ms' s').1.map (List.map verdict) ∧
      Abreast schema root (play ms s).2 (play ms' s').2 := by
  induction hms generalizing s s' with
  | nil => exact ⟨rfl, h⟩
  | cons hm _ ih =>
    obtain ⟨hfirst, hstep⟩ := h.move hs hm
    obtain ⟨hrest, hend⟩ := ih hstep
    exact ⟨congrArg₂ List.cons hfirst hrest, hend⟩

end Abreast

/-- Selecting a relationship and selecting its columns are the same. Where an accessor leads to an
entity with plain columns, or to a collection of it, both calls succeed; and runs of plain calls
that differ in nothing but in which of the two they make, in one place or in several, succeed and
fail with the same errors call by call, and come to the same plan or to the same error. -/
theorem outcome_expanded {schema : Schema} (hs : schema.Distinct) (root : String) :
    (∀ a path entity, schema.Relates root a path entity → entity.columns ≠ [] →
      ∀ s : Logged Spec, s.state.schema = schema → s.state.root = root →
        (∃ i t, perform .newGroup (.select a) s = .ok i t) ∧
        ∃ i t, perform .newGroup
          (.select (.tuple (entity.columns.map fun q => .member a q.name))) s = .ok i t) ∧
    ∀ moves moves', List.Forall₂ (Move.Expands schema root) moves moves' → ∀ settings,
      (fun o => (o.1.map (List.map verdict), o.2)) <$> outcome settings schema root moves =
        (fun o => (o.1.map (List.map verdict), o.2)) <$> outcome settings schema root moves' := by
  refine ⟨fun a path entity hrelates hcolumns s hschema hroot => ?_,
    fun moves moves' hmoves settings => ?_⟩
  · subst hschema hroot
    obtain ⟨i, t, run, -⟩ :=
      exists_ok_of_gained (gained_of_not_isFilter (prepared_relationship hrelates) rfl)
    obtain ⟨i', t', run', -⟩ :=
      exists_ok_of_gained (gained_of_not_isFilter (prepared_columns hrelates hs) rfl)
    exact ⟨⟨i, t, run⟩, i', t', run'⟩
  · cases hstart : start schema root with
    | error e =>
      rw [outcome, outcome, hstart]
      rfl
    | ok spec =>
      have hfields : spec.schema = schema ∧ spec.root = root := by
        obtain ⟨entity, -, h⟩ := Except.bind_eq_ok_iff.1 hstart
        cases h
        exact ⟨rfl, rfl⟩
      have hsame : Abreast schema root ⟨spec, []⟩ ⟨spec, []⟩ :=
        ⟨hfields.1, hfields.2, .start hstart, .refl spec⟩
      obtain ⟨hanswers, hend⟩ := hsame.play hs hmoves
      have hplan := hend.expands.toPlan_eq hend.reachable settings
      rw [outcome, outcome, hstart]
      exact congrArg Except.ok (Prod.ext hanswers hplan.symm)

/-- Employees by the age of their managers, with these managers. -/
def managerMoves : List Move :=
  [.put .newGroup (.greaterThan (.chain ["manager", "age"]) (.int32 50)),
   .put .newGroup (.select (.chain ["manager"])),
   .chain [⟨.orderByDescending (.chain ["manager", "manager", "name"]), false⟩, ⟨.take 10, false⟩]]

/-- The same with the columns of the managers. -/
def columnMoves : List Move :=
  managerMoves.set 1 (.put .newGroup (.select (.tuple
    [.member (.chain ["manager"]) "name", .member (.chain ["manager"]) "age"])))

def managerPlan : Plan where
  entity := "Employee"
  rootAlias := "this"
  joins := [⟨"this", "manager", "alias_1", .inner⟩, ⟨"alias_1", "manager", "alias_2", .inner⟩]
  predicates := [.or [.compare "alias_1.age" .gt (.int32 50)]]
  orders := [⟨"alias_2.name", .descending⟩]
  columns := [⟨"alias_1.name", "name"⟩, ⟨"alias_1.age", "age"⟩]
  page := { limit := some 10, offset := none }
  resultType := none

-- One more group is there when the columns are selected, and the plan is the same.
theorem outcome_expanded_managers :
    staffSchema.Distinct ∧
      List.Forall₂ (Move.Expands staffSchema "Employee") managerMoves columnMoves ∧
      outcome .standard staffSchema "Employee" managerMoves =
        .ok ([[.ok 0], [.ok 1], [.ok 2, .ok 3]], .ok managerPlan) ∧
      ∃ answers, outcome .standard staffSchema "Employee" columnMoves =
        .ok (answers, .ok managerPlan) := by
  have hdistinct : staffSchema.Distinct := by
    unfold Schema.Distinct
    decide
  have hrelates : staffSchema.Relates "Employee" (.chain ["manager"])
      ⟨"Employee", [], ⟨"manager", .reference "Employee"⟩⟩
      ⟨"Employee", [⟨"name", .scalar .string⟩, ⟨"age", .nullable .int32⟩,
        ⟨"manager", .reference "Employee"⟩]⟩ :=
    ⟨rfl, "Employee", .inl rfl, rfl⟩
  have hmoves : List.Forall₂ (Move.Expands staffSchema "Employee") managerMoves columnMoves :=
    .cons (.put (.same _)) (.cons (.put (.relationship hrelates (by decide)))
      (.cons (.chain (.cons (.same _) (.cons (.same _) .nil)) (by decide)) .nil))
  have hrun : outcome .standard staffSchema "Employee" managerMoves =
      .ok ([[.ok 0], [.ok 1], [.ok 2, .ok 3]], .ok managerPlan) := by
    cbv
  have hsame := (outcome_expanded hdistinct "Employee").2 managerMoves columnMoves hmoves .standard
  rw [hrun] at hsame
  refine ⟨hdistinct, hmoves, hrun, ?_⟩
  cases hother : outcome .standard staffSchema "Employee" columnMoves with
  | error e =>
    rw [hother] at hsame
    cases hsame
  | ok o =>
    rw [hother] at hsame
    have hplan : .ok managerPlan = o.2 := congrArg Prod.snd (Except.ok.inj hsame)
    exact ⟨o.1, by rw [hplan]⟩

end Spec

end PathQuery
