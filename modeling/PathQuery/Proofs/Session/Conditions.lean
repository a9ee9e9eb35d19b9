import PathQuery.Proofs.Condition
import PathQuery.Proofs.Session.Join

/-!
# Carrying out conditions

What conditions bring into a plan is said by the tree that is there afterwards. Since a tree only
grows, later conditions do not change it. A condition that is usable can only fail where an alias is
in the way or an operand cannot be converted.
-/

namespace PathQuery

open Condition (Kind Group)

/-! ## What conditions bring -/

namespace Condition

/-- The orders of a condition. -/
def orders (t : JoinTree) (c : Condition) : List Order :=
  match c.path, c.kind with
  | some path, .orderAsc => [⟨t.reference path.way path.terminal.name, .ascending⟩]
  | some path, .orderDesc => [⟨t.reference path.way path.terminal.name, .descending⟩]
  | _, _ => []

/-- The columns of the properties that a selection stands for. -/
def selectedColumns (schema : Schema) (t : JoinTree) (path : Path) : List Column :=
  (selected schema path).map fun r => ⟨t.reference r.1 r.2, r.2⟩

theorem selectedColumns_of_column {schema : Schema} {t : JoinTree} {path : Path}
    (h : path.terminal.declared.isNavigation = false) :
    selectedColumns schema t path =
      [⟨t.reference path.way path.terminal.name, path.terminal.name⟩] := by
  rw [selectedColumns, selected, if_neg (by rw [h]; decide)]
  rfl

theorem selectedColumns_of_entity {schema : Schema} {t : JoinTree} {path : Path} {name : String}
    {entity : Entity} (h : path.terminal.declared.isNavigation = true)
    (htarget : path.terminal.declared.target? = some name)
    (hentity : schema.entity name = .ok entity) :
    selectedColumns schema t path =
      entity.columns.map fun p => ⟨t.reference path.names p.name, p.name⟩ := by
  have hfound : schema.entity? name = some entity := by
    unfold Schema.entity at hentity
    split at hentity
    next hsome => cases hentity; exact hsome
    next => cases hentity
  rw [selectedColumns, selected, if_pos h, htarget, Option.bind_some, hfound, List.map_map]
  rfl

/-- The columns of a condition. -/
def columns (schema : Schema) (t : JoinTree) (c : Condition) : List Column :=
  match c.path, c.kind with
  | some path, .select => selectedColumns schema t path
  | _, _ => []

theorem orders_eq_nil {t : JoinTree} {c : Condition} (h : c.kind.isOrdering = false) :
    c.orders t = [] := by
  unfold orders
  split
  next hkind => rw [hkind] at h; cases h
  next hkind => rw [hkind] at h; cases h
  next => rfl

theorem columns_eq_nil {schema : Schema} {t : JoinTree} {c : Condition} (h : c.kind ≠ .select) :
    c.columns schema t = [] := by
  unfold columns
  split
  next hkind => exact absurd hkind h
  next => rfl

/-- The term is the image of the condition about the end of its path. -/
def Becomes (t : JoinTree) (c : Condition) (term : Predicate) : Prop :=
  ∃ path, c.path = some path ∧ c.Image (t.reference path.way path.terminal.name) term

variable {t u : JoinTree} {used : List (List String)} {c : Condition} {schema : Schema}

theorem orders_eq (hu : t.Reaches used u) (ht : ClosedChains t.chains)
    (hc : ∀ chain ∈ c.chains, chain ∈ t.chains) : c.orders u = c.orders t := by
  unfold orders
  split
  next path hpath _ => rw [hu.reference ht ((mem_chains_of_path hpath).imp_right (hc _))]
  next path hpath _ => rw [hu.reference ht ((mem_chains_of_path hpath).imp_right (hc _))]
  next => rfl

theorem columns_eq (hu : t.Reaches used u) (ht : ClosedChains t.chains)
    (hc : ∀ chain ∈ c.chains, chain ∈ t.chains) : c.columns schema u = c.columns schema t := by
  unfold columns
  split
  next path hpath hkind =>
    refine List.map_congr_left fun r hr => ?_
    have hmem : r ∈ c.references schema := by
      rw [references, hpath, hkind]
      exact hr
    rw [hu.reference ht ((mem_chains_of_mem_references hmem).imp_right (hc _))]
  next => rfl

theorem Becomes.reaches {term : Predicate} (h : c.Becomes t term) (hu : t.Reaches used u)
    (ht : ClosedChains t.chains) (hc : ∀ chain ∈ c.chains, chain ∈ t.chains) :
    c.Becomes u term := by
  rcases h with ⟨path, hpath, himage⟩
  refine ⟨path, hpath, ?_⟩
  rw [hu.reference ht ((mem_chains_of_path hpath).imp_right (hc _))]
  exact himage

end Condition

-- The target of a selection is the entity that the path continues with, if it leads to one.
theorem Path.selectedEntity_eq_ok {p : Path} {target : Option String}
    (h : p.selectedEntity = .ok target) :
    target = p.terminal.declared.target? ∧ p.terminal.declared.isNavigation = target.isSome := by
  unfold selectedEntity at h
  cases hd : p.terminal.declared with
  | scalar t => rw [hd] at h; cases h; exact ⟨rfl, rfl⟩
  | nullable t => rw [hd] at h; cases h; exact ⟨rfl, rfl⟩
  | reference entity => rw [hd] at h; cases h; exact ⟨rfl, rfl⟩
  | keyed key value => rw [hd] at h; cases h
  | collection element =>
    rw [hd] at h
    cases element with
    | reference entity => cases h; exact ⟨rfl, rfl⟩
    | _ => cases h

namespace Session

variable {before : Plan} {s : Logged Session} {c : Condition} {path : Path} {schema : Schema}

/-! ## One condition -/

theorem ensures_issue {i : Instruction} {p : Plan} {ok : Unit → Logged Session → Prop}
    {fail : Error → Logged Session → Prop} (h : s.state.plan.apply i = .ok p)
    (hok : ok () ⟨⟨s.state.tree, p⟩, s.events ++ i.events⟩) : (issue i).Ensures s ok fail := by
  rw [issue, Action.ensures_focus]
  apply (Plan.ensures_perform i _).imp
  · intro _ t htake
    rcases t with ⟨q, events⟩
    rcases htake with ⟨hq, rfl⟩
    -- the plan takes the instruction, so it is not refused
    cases hq.symm.trans h
    exact hok
  · intro e t hdone
    rcases hdone with ⟨he, -⟩
    cases he.symm.trans h

theorem ensures_filter (h : InStep before s.state) (husable : c.Usable schema)
    (hpath : c.path = some path) (hf : c.kind.isFilter = true) :
    (filter c path).Ensures s
      (fun term t => Walked before s.state (chainsAlong path.way) t.state ∧
        c.Image (t.state.tree.reference path.way path.terminal.name) term ∧
        ∀ k ∈ c.checks, k.passes = true)
      (fun e _ => Clear before s.state.tree → FirstRefusal c.checks e) := by
  rw [filter, Action.ensures_bind]
  refine (ensures_qualify path h).imp ?_ fun _ _ hfail hclear => absurd hclear hfail
  intro _ t hdone
  rcases hdone with ⟨hwalk, rfl⟩
  -- what is left is to build the term and to report it; the session stays as it is
  simp only [Action.ensures_bind, Action.ensures_ofExcept, Action.ensures_report,
    Action.ensures_pure]
  refine ⟨fun term hterm => ?_, fun e he _ => Condition.firstRefusal_of_term husable hpath hf he⟩
  exact ⟨⟨hwalk.inStep, hwalk.tree, hwalk.plan⟩, Condition.image_of_term husable hpath hf hterm⟩

theorem ensures_order (h : InStep before s.state) (direction : Direction) :
    (order path direction).Ensures s
      (fun _ t => InStep before t.state ∧
        s.state.tree.Reaches (chainsAlong path.way) t.state.tree ∧
        t.state.plan = { s.state.plan with
          joins := t.state.plan.joins
          orders := s.state.plan.orders ++
            [⟨t.state.tree.reference path.way path.terminal.name, direction⟩] })
      (fun _ _ => ¬ Clear before s.state.tree) := by
  rw [order, Action.ensures_bind]
  refine (ensures_qualify path h).imp ?_ fun _ _ => id
  intro _ t hdone
  rcases hdone with ⟨hwalk, rfl⟩
  refine ensures_issue rfl ⟨hwalk.inStep.congr rfl rfl, hwalk.tree, ?_⟩
  rw [hwalk.plan]

theorem ensures_fetch (h : InStep before s.state) :
    (fetch path).Ensures s
      (fun _ t => Walked before s.state (chainsAlong path.way ++ [path.names]) t.state)
      (fun _ _ => ¬ Clear before s.state.tree) := by
  rw [fetch, Action.ensures_bind]
  refine (ensures_owner path h).imp ?_ fun _ _ hfail => hfail.2
  intro parent t hdone
  rcases hdone with ⟨hwalk, hid⟩
  simp only [Action.ensures_bind, Action.ensures_pure]
  exact (hwalk.ensures_join path.terminal hid).imp (fun _ _ hdone => hdone.1) fun _ _ => id

-- The chains of a selection: the way, and the relationship itself where it is one.
theorem ensures_select (h : InStep before s.state)
    (hselect : ∃ target, path.selectedEntity = .ok target ∧
      ∀ name, target = some name → ∃ entity, schema.entity name = .ok entity) :
    (select schema path).Ensures s
      (fun columns t => Walked before s.state (chainsAlong path.way ++
          if path.terminal.declared.isNavigation then [path.names] else []) t.state ∧
        columns = Condition.selectedColumns schema t.state.tree path)
      (fun _ _ => ¬ Clear before s.state.tree) := by
  rcases hselect with ⟨target, htarget, hentity⟩
  rcases Path.selectedEntity_eq_ok htarget with ⟨hdeclared, hnav⟩
  rw [select, Action.ensures_bind]
  refine (ensures_owner path h).imp ?_ fun _ _ hfail => hfail.2
  intro parent t hdone
  rcases hdone with ⟨hwalk, hid⟩
  rw [htarget, Action.ensures_bind, Action.ensures_ofExcept_ok]
  cases target with
  | none =>
    -- a plain column is named after its owner
    have hcolumn : path.terminal.declared.isNavigation = false := hnav
    rw [if_neg (by rw [hcolumn]; decide), List.append_nil]
    refine ⟨hwalk, ?_⟩
    rw [Condition.selectedColumns_of_column hcolumn, JoinTree.reference,
      hwalk.inStep.sound.aliasOf_of_id? hid]
  | some name =>
    -- a relationship is joined before its columns can be named
    have hrelationship : path.terminal.declared.isNavigation = true := hnav
    rcases hentity name rfl with ⟨entity, he⟩
    rw [if_pos hrelationship, Action.ensures_bind, he, Action.ensures_ofExcept_ok,
      Action.ensures_bind]
    refine (hwalk.ensures_join path.terminal hid).imp ?_ fun _ _ => id
    intro id u hdone
    rcases hdone with ⟨hjoin, hend⟩
    refine ⟨hjoin, ?_⟩
    rw [Condition.selectedColumns_of_entity hrelationship hdeclared.symm he,
      hjoin.inStep.sound.aliasOf_of_id? hend]
    rfl

/-- Conditions were carried out: the tree has grown by their chains, the plan by their orders and
the page by their counts. Clauses and columns are handed over by groups and specifications. -/
structure Carried (before : Plan) (cs : List Condition) (s t : Session) : Prop where
  inStep : InStep before t
  tree : s.tree.Reaches (cs.flatMap Condition.chains) t.tree
  plan : t.plan = { s.plan with
    joins := t.plan.joins
    predicates := t.plan.predicates
    orders := s.plan.orders ++ cs.flatMap (Condition.orders t.tree)
    page := (cs.filter (·.kind.isPagination)).foldl Spec.turnPage s.plan.page }

/-- The terms and the columns of conditions, in their order. -/
structure Contributes (schema : Schema) (t : JoinTree) (cs : List Condition) (out : Contribution) :
    Prop where
  terms : List.Forall₂ (Condition.Becomes t) (cs.filter (·.kind.isFilter)) out.terms
  columns : out.columns = cs.flatMap (Condition.columns schema t)

/-- What carrying out conditions ensures when it succeeds. -/
structure Fulfilled (before : Plan) (schema : Schema) (cs : List Condition) (s t : Session)
    (out : Contribution) : Prop where
  carried : Carried before cs s t
  predicates : t.plan.predicates = s.plan.predicates
  contributes : Contributes schema t.tree cs out
  passes : ∀ k ∈ cs.flatMap Condition.checks, k.passes = true

-- One condition is carried out when its own chains, order, page, term and columns are there.
theorem fulfilled_singleton {t u : Session} {out : Contribution} (hstep : InStep before u)
    (htree : t.tree.Reaches c.chains u.tree)
    (hplan : u.plan = { t.plan with
      joins := u.plan.joins
      orders := t.plan.orders ++ c.orders u.tree
      page := if c.kind.isPagination then Spec.turnPage t.plan.page c else t.plan.page })
    (hterms : List.Forall₂ (Condition.Becomes u.tree) (if c.kind.isFilter then [c] else [])
      out.terms)
    (hcolumns : out.columns = c.columns schema u.tree)
    (hpasses : ∀ k ∈ c.checks, k.passes = true) :
    Fulfilled before schema [c] t u out := by
  refine ⟨⟨hstep, ?_, ?_⟩, ?_, ⟨?_, ?_⟩, ?_⟩
  · rwa [List.flatMap_singleton]
  · rw [List.flatMap_singleton, List.filter_singleton, hplan]
    cases c.kind.isPagination <;> rfl
  · rw [hplan]
  · rw [List.filter_singleton]
    cases hf : c.kind.isFilter <;> rwa [hf] at hterms
  · rwa [List.flatMap_singleton]
  · rwa [List.flatMap_singleton]

-- Conditions that are no filters bring no term and have nothing to convert.
theorem fulfilled_of_not_isFilter {t u : Session} {columns : List Column}
    (hfilter : c.kind.isFilter = false) (hstep : InStep before u)
    (htree : t.tree.Reaches c.chains u.tree)
    (hplan : u.plan = { t.plan with
      joins := u.plan.joins
      orders := t.plan.orders ++ c.orders u.tree
      page := if c.kind.isPagination then Spec.turnPage t.plan.page c else t.plan.page })
    (hcolumns : columns = c.columns schema u.tree) :
    Fulfilled before schema [c] t u ⟨[], columns⟩ := by
  refine fulfilled_singleton hstep htree hplan ?_ hcolumns ?_
  · rw [hfilter]
    exact .nil
  · rw [Condition.checks_eq_nil hfilter]
    exact List.forall_mem_nil _

/-- The step carries out the condition, or it fails where an alias or the first operand that cannot
be converted is in the way. -/
def CarriesOut (before : Plan) (schema : Schema) (c : Condition) (s : Logged Session)
    (a : Action Session Contribution) : Prop :=
  a.Ensures s (fun out t => Fulfilled before schema [c] s.state t.state out)
    (fun e _ => Clear before s.state.tree → FirstRefusal c.checks e)

theorem exists_path (husable : c.Usable schema) (hpage : c.kind.isPagination = false) :
    ∃ path, c.path = some path ∧ c.requirePath = .ok path := by
  have hsome := husable.path
  rw [hpage] at hsome
  rcases Option.isSome_iff_exists.1 (Option.isNone_eq_false_iff.1 hsome) with ⟨path, hpath⟩
  exact ⟨path, hpath, by rw [Condition.requirePath, hpath]⟩

-- All filters are carried out in one and the same way.
theorem condition_of_isFilter (hf : c.kind.isFilter = true) :
    condition schema c = do
      return ⟨[← filter c (← Action.ofExcept c.requirePath)], []⟩ := by
  unfold condition
  split
  case h_7 => rfl
  all_goals
    rename_i hkind
    rw [hkind] at hf
    cases hf

theorem fulfilled_of_isFilter (h : InStep before s.state) (husable : c.Usable schema)
    (hf : c.kind.isFilter = true) :
    CarriesOut before schema c s (condition schema c) := by
  have hother : c.kind.isPagination = false ∧ c.kind.isOrdering = false ∧ c.kind ≠ .select ∧
      c.kind ≠ .fetch := by
    revert hf
    cases c.kind <;> decide
  rcases hother with ⟨hpage, horder, hselect, hfetch⟩
  rcases exists_path husable hpage with ⟨path, hpath, hrequire⟩
  rw [CarriesOut, condition_of_isFilter hf, hrequire, Action.ensures_bind,
    Action.ensures_ofExcept_ok, Action.ensures_bind]
  refine (ensures_filter h husable hpath hf).imp ?_ fun _ _ => id
  intro term t hdone
  rcases hdone with ⟨hwalk, himage, hpasses⟩
  refine fulfilled_singleton hwalk.inStep ?_ ?_ ?_ ?_ hpasses
  · rw [Condition.chains_of_ne hpath hfetch hselect]
    exact hwalk.tree
  · rw [hpage, Condition.orders_eq_nil horder, List.append_nil, hwalk.plan]
    rfl
  · rw [if_pos hf]
    exact .cons ⟨path, hpath, himage⟩ .nil
  · exact (Condition.columns_eq_nil hselect).symm

-- Both ordering kinds order by the end of the path.
theorem fulfilled_of_order {direction : Direction} (h : InStep before s.state)
    (husable : c.Usable schema) (hordering : c.kind.isOrdering = true)
    (hbrings : ∀ path, c.path = some path → ∀ t, c.orders t =
      [⟨t.reference path.way path.terminal.name, direction⟩]) :
    CarriesOut before schema c s (do
      order (← Action.ofExcept c.requirePath) direction
      return Contribution.nothing) := by
  have hother : c.kind.isPagination = false ∧ c.kind.isFilter = false ∧ c.kind ≠ .select ∧
      c.kind ≠ .fetch := by
    revert hordering
    cases c.kind <;> decide
  rcases hother with ⟨hpage, hfilter, hselect, hfetch⟩
  rcases exists_path husable hpage with ⟨path, hpath, hrequire⟩
  rw [CarriesOut, hrequire, Action.ensures_bind, Action.ensures_ofExcept_ok, Action.ensures_bind]
  refine (ensures_order h direction).imp ?_ fun _ _ hfail hclear => absurd hclear hfail
  intro _ t hdone
  rcases hdone with ⟨hstep, htree, hplan⟩
  apply fulfilled_of_not_isFilter hfilter hstep
  · rw [Condition.chains_of_ne hpath hfetch hselect]
    exact htree
  · rw [hpage, hbrings path hpath, hplan]
    rfl
  · exact (Condition.columns_eq_nil hselect).symm

theorem fulfilled_of_fetch (h : InStep before s.state) (husable : c.Usable schema)
    (hkind : c.kind = .fetch) :
    CarriesOut before schema c s (do
      fetch (← Action.ofExcept c.requirePath)
      return Contribution.nothing) := by
  rcases exists_path husable (by rw [hkind]; rfl) with ⟨path, hpath, hrequire⟩
  rw [CarriesOut, hrequire, Action.ensures_bind, Action.ensures_ofExcept_ok, Action.ensures_bind]
  refine (ensures_fetch h).imp ?_ fun _ _ hfail hclear => absurd hclear hfail
  intro _ t hwalk
  apply fulfilled_of_not_isFilter (by rw [hkind]; rfl) hwalk.inStep
  · rw [Condition.chains_of_path hpath, Condition.joinsEnd_of_fetch hkind]
    exact hwalk.tree
  · rw [Condition.orders_eq_nil (by rw [hkind]; rfl), List.append_nil, hkind, hwalk.plan]
    rfl
  · exact (Condition.columns_eq_nil (by rw [hkind]; decide)).symm

theorem fulfilled_of_select (h : InStep before s.state) (husable : c.Usable schema)
    (hkind : c.kind = .select) :
    CarriesOut before schema c s (do
      return ⟨[], ← select schema (← Action.ofExcept c.requirePath)⟩) := by
  rcases exists_path husable (by rw [hkind]; rfl) with ⟨path, hpath, hrequire⟩
  rw [CarriesOut, hrequire, Action.ensures_bind, Action.ensures_ofExcept_ok, Action.ensures_bind]
  refine (ensures_select h (husable.select path hpath hkind)).imp ?_
    fun _ _ hfail hclear => absurd hclear hfail
  intro columns t hdone
  rcases hdone with ⟨hwalk, rfl⟩
  apply fulfilled_of_not_isFilter (by rw [hkind]; rfl) hwalk.inStep
  · rw [Condition.chains_of_path hpath, Condition.joinsEnd_of_select hkind]
    exact hwalk.tree
  · rw [Condition.orders_eq_nil (by rw [hkind]; rfl), List.append_nil, hkind, hwalk.plan]
    rfl
  · rw [Condition.columns, hpath, hkind]

-- A page takes the count that its condition names.
theorem fulfilled_of_page {i : Nat → Instruction} (h : InStep before s.state)
    (husable : c.Usable schema) (hpage : c.kind.isPagination = true)
    (htake : ∀ (p : Plan) n, c.count = .ok n →
      p.apply (i n) = .ok { p with page := Spec.turnPage p.page c }) :
    CarriesOut before schema c s (do
      issue (i (← Action.ofExcept c.count))
      return Contribution.nothing) := by
  have hother : c.kind.isOrdering = false ∧ c.kind.isFilter = false ∧ c.kind ≠ .select := by
    revert hpage
    cases c.kind <;> decide
  rcases hother with ⟨horder, hfilter, hselect⟩
  have hpath : c.path = none := Option.isNone_iff_eq_none.1 (husable.path.trans hpage)
  obtain ⟨n, hcount⟩ := husable.exists_count hpage
  rw [CarriesOut, hcount, Action.ensures_bind, Action.ensures_ofExcept_ok, Action.ensures_bind]
  apply ensures_issue (htake _ _ hcount)
  refine fulfilled_of_not_isFilter hfilter (h.congr rfl rfl) ?_ ?_ ?_
  · rw [Condition.chains, hpath]
    exact .refl h.closed
  · rw [Condition.orders_eq_nil horder, List.append_nil, hpage]
    rfl
  · exact (Condition.columns_eq_nil hselect).symm

/-- A usable condition is carried out, or fails where an alias or its first bad operand is in the
way. -/
theorem fulfilled_condition (h : InStep before s.state) (husable : c.Usable schema) :
    CarriesOut before schema c s (condition schema c) := by
  -- one case for each kind that is carried out in its own way; the rest are filters
  cases hkind : c.kind
  case skip =>
    rw [condition, hkind]
    refine fulfilled_of_page h husable (by rw [hkind]; rfl) fun p n hn => ?_
    rw [Spec.turnPage, hkind, hn]
    rfl
  case take =>
    rw [condition, hkind]
    refine fulfilled_of_page h husable (by rw [hkind]; rfl) fun p n hn => ?_
    rw [Spec.turnPage, hkind, hn]
    rfl
  case orderAsc =>
    rw [condition, hkind]
    refine fulfilled_of_order h husable (by rw [hkind]; rfl) fun path hpath t => ?_
    rw [Condition.orders, hpath, hkind]
  case orderDesc =>
    rw [condition, hkind]
    refine fulfilled_of_order h husable (by rw [hkind]; rfl) fun path hpath t => ?_
    rw [Condition.orders, hpath, hkind]
  case select =>
    rw [condition, hkind]
    exact fulfilled_of_select h husable hkind
  case fetch =>
    rw [condition, hkind]
    exact fulfilled_of_fetch h husable hkind
  all_goals exact fulfilled_of_isFilter h husable (by rw [hkind]; rfl)

/-! ## Conditions in a row -/

variable {t u : Session} {cs ds : List Condition}

theorem Carried.refl (h : InStep before t) : Carried before [] t t :=
  ⟨h, .refl h.closed, by rw [List.flatMap_nil, List.append_nil]; rfl⟩

theorem Carried.mem_chains (h : Carried before cs t u) (hc : c ∈ cs) :
    ∀ chain ∈ c.chains, chain ∈ u.tree.chains :=
  fun _ hchain => h.tree.mem_chains.2 (.inr (List.mem_flatMap.2 ⟨c, hc, hchain⟩))

theorem Carried.orders_eq {v : Session} (h : Carried before cs t u) (h' : Carried before ds u v) :
    cs.flatMap (Condition.orders v.tree) = cs.flatMap (Condition.orders u.tree) :=
  List.flatMap_congr fun _ hc => Condition.orders_eq h'.tree h.inStep.closed (h.mem_chains hc)

theorem Carried.columns_eq {v : Session} (h : Carried before cs t u) (h' : Carried before ds u v) :
    cs.flatMap (Condition.columns schema v.tree) = cs.flatMap (Condition.columns schema u.tree) :=
  List.flatMap_congr fun _ hc => Condition.columns_eq h'.tree h.inStep.closed (h.mem_chains hc)

theorem Carried.trans {v : Session} (h : Carried before cs t u) (h' : Carried before ds u v) :
    Carried before (cs ++ ds) t v := by
  refine ⟨h'.inStep, ?_, ?_⟩
  · rw [List.flatMap_append]
    exact h.tree.trans h'.tree
  · rw [h'.plan, h.plan, List.flatMap_append, List.filter_append, List.foldl_append,
      h.orders_eq h', List.append_assoc]

-- The terms of conditions stay what they are while later conditions are carried out.
theorem Carried.becomes {v : Session} {es : List Condition} {terms : List Predicate}
    (h : Carried before cs t u) (h' : Carried before ds u v) (hes : ∀ c ∈ es, c ∈ cs)
    (hterms : List.Forall₂ (Condition.Becomes u.tree) es terms) :
    List.Forall₂ (Condition.Becomes v.tree) es terms := by
  have hboth := (List.forall₂_and_left es terms).2 ⟨hes, hterms⟩
  refine hboth.imp fun c term => ?_
  intro hpair
  rcases hpair with ⟨hc, hterm⟩
  exact hterm.reaches h'.tree h.inStep.closed (h.mem_chains hc)

theorem Fulfilled.trans {v : Session} {out more : Contribution}
    (h : Fulfilled before schema cs t u out) (h' : Fulfilled before schema ds u v more) :
    Fulfilled before schema (cs ++ ds) t v
      ⟨out.terms ++ more.terms, out.columns ++ more.columns⟩ := by
  refine ⟨h.carried.trans h'.carried, h'.predicates.trans h.predicates, ⟨?_, ?_⟩, ?_⟩
  · rw [List.filter_append]
    refine List.rel_append ?_ h'.contributes.terms
    exact h.carried.becomes h'.carried (fun _ hc => (List.mem_filter.1 hc).1) h.contributes.terms
  · rw [List.flatMap_append, h.carried.columns_eq h'.carried, h.contributes.columns,
      h'.contributes.columns]
  · intro k hk
    rw [List.flatMap_append] at hk
    exact (List.mem_append.1 hk).elim (h.passes k) (h'.passes k)

-- Conditions are carried out one after the other.
theorem fulfilled_conditions (cs : List Condition) (h : InStep before s.state)
    (husable : ∀ c ∈ cs, c.Usable schema) :
    (conditions schema cs).Ensures s
      (fun out t => Fulfilled before schema cs s.state t.state out)
      (fun e _ => Clear before s.state.tree → FirstRefusal (cs.flatMap Condition.checks) e) := by
  -- the plan before stays the same while the session goes on from condition to condition
  induction cs generalizing s with
  | nil =>
    refine ⟨.refl h, rfl, ⟨.nil, rfl⟩, ?_⟩
    exact List.forall_mem_nil _
  | cons c cs ih =>
    rw [conditions, Action.ensures_bind]
    apply (fulfilled_condition h (husable c List.mem_cons_self)).imp
    · intro first t hfirst
      rw [Action.ensures_bind]
      refine (ih hfirst.carried.inStep fun d hd => husable d (List.mem_cons_of_mem c hd)).imp ?_ ?_
      · intro rest u hrest
        exact hfirst.trans hrest
      · intro e u hrefused hclear
        rw [List.flatMap_cons]
        -- all operands of the first condition were converted
        apply (hrefused (hclear.reaches hfirst.carried.tree)).append_left
        rw [← List.flatMap_singleton Condition.checks c]
        exact hfirst.passes
    · intro e t hrefused hclear
      rw [List.flatMap_cons]
      exact (hrefused hclear).append_right

end Session

end PathQuery
