import PathQuery.Proofs.Clauses
import PathQuery.Proofs.Views

/-!
# The order of groups

Aliases are numbered as chains are first used, so they depend on the order of the groups. Nothing
else of a plan does: with the chains spelled in the places of their aliases, specifications with the
same groups have the same joins, clauses, orders and columns, each of them in another order.
-/

namespace PathQuery

open Condition (Kind Group)

/-! ## Renamed properties -/

namespace Predicate

mutual

/-- The term about other properties. -/
def rename (f : String → String) : Predicate → Predicate
  | .equal property value => .equal (f property) value
  | .not term => .not (rename f term)
  | .oneOf property values => .oneOf (f property) values
  | .between property low high => .between (f property) low high
  | .isNull property => .isNull (f property)
  | .isNotNull property => .isNotNull (f property)
  | .like property pattern => .like (f property) pattern
  | .compare property op value => .compare (f property) op value
  | .and terms => .and (renameAll f terms)
  | .or terms => .or (renameAll f terms)

/-- The terms about other properties, one by one. -/
def renameAll (f : String → String) : List Predicate → List Predicate
  | [] => []
  | t :: ts => rename f t :: renameAll f ts

end

variable {f : String → String}

theorem renameAll_eq (ts : List Predicate) : renameAll f ts = ts.map (rename f) := by
  induction ts with
  | nil => rfl
  | cons t ts ih => rw [renameAll, ih, List.map_cons]

theorem rename_or (ts : List Predicate) : (or ts).rename f = .or (ts.map (rename f)) := by
  rw [rename, renameAll_eq]

end Predicate

namespace Condition

variable {c : Condition} {f : String → String} {property : String} {kind : Kind} {vs : List Value}
  {v w x : Value} {term other : Predicate}

theorem Shape.rename (h : Shape property kind vs term) :
    Shape (f property) kind vs (term.rename f) := by
  cases h <;> constructor

theorem Image.rename (h : c.Image property term) : c.Image (f property) (term.rename f) :=
  h.imp fun _ hvs => hvs.imp_right Shape.rename

theorem Arrives.unique (h : c.Arrives v w) (h' : c.Arrives v x) : w = x := by
  unfold Arrives at h h'
  split at h
  next hsome =>
    rw [hsome] at h'
    exact Option.some.inj (h.symm.trans h')
  next hnone =>
    rw [hnone] at h'
    exact h.trans h'.symm

theorem Shape.unique (h : Shape property kind vs term) (h' : Shape property kind vs other) :
    term = other := by
  cases h <;> cases h' <;> rfl

/-- A filter has one image. -/
theorem Image.unique (h : c.Image property term) (h' : c.Image property other) : term = other := by
  obtain ⟨vs, hvs, hshape⟩ := h
  obtain ⟨ws, hws, hshape'⟩ := h'
  have harrives : Relator.RightUnique c.Arrives := fun _ _ _ => Arrives.unique
  rw [harrives.forall₂ hvs hws] at hshape
  exact hshape.unique hshape'

end Condition

/-! ## Labels in the places of aliases -/

namespace Plan

variable {p q : Plan} {label : List String → String} {a : String}

/-- The label of the chain that an alias stands for. -/
def labelOf (p : Plan) (label : List String → String) (a : String) : String :=
  ((p.trail? p.joins.length a).map label).getD a

/-- The text with a label in the place of its alias, which goes up to the first point. -/
def respell (p : Plan) (label : List String → String) (text : String) : String :=
  p.labelOf label (.ofList (text.toList.takeWhile (· != '.'))) ++
    .ofList (text.toList.dropWhile (· != '.'))

/-- The plan with labels in the places of all aliases of joins. -/
def relabelled (p : Plan) (label : List String → String) : Plan :=
  { p with
    joins := p.joins.map fun j =>
      ⟨p.labelOf label j.parent, j.property, p.labelOf label j.ownAlias, j.kind⟩
    predicates := p.predicates.map (Predicate.rename (p.respell label))
    orders := p.orders.map fun o => { o with property := p.respell label o.property }
    columns := p.columns.map fun c => { c with property := p.respell label c.property } }

/-- The chains of relationships that the joins stand for. -/
def trails (p : Plan) : List (Option (List String)) :=
  p.joins.map fun j => p.trail? p.joins.length j.ownAlias

/-- The plan has the joins, clauses, orders and columns of another one, in another order. -/
structure Rearranges (p q : Plan) : Prop where
  joins : p.joins.Perm q.joins
  predicates : p.predicates.Perm q.predicates
  orders : p.orders.Perm q.orders
  columns : p.columns.Perm q.columns

theorem labelOf_eq {chain : List String} (h : p.trail? p.joins.length a = some chain) :
    p.labelOf label a = label chain := by
  rw [labelOf, h]
  rfl

theorem respell_point (h : '.' ∉ a.toList) (name : String) :
    p.respell label (a ++ "." ++ name) = p.labelOf label a ++ "." ++ name := by
  have hsplit := List.takeWhile_append_dropWhile (p := (· != '.')) (l := (a ++ "." ++ name).toList)
  rw [takeWhile_point h] at hsplit
  have hrest : (a ++ "." ++ name).toList.dropWhile (· != '.') = ("." ++ name).toList := by
    rw [← List.append_cancel_left_eq a.toList, hsplit, ← String.toList_append, String.append_assoc]
  rw [respell, takeWhile_point h, hrest, String.ofList_toList, String.ofList_toList,
    String.append_assoc]

end Plan

/-! ## What references stand for -/

section StandsFor

variable {schema : Schema} {named : List String → String → Prop} {label : List String → String}
  {f : String → String} {p : Path} {columns : List Column}

theorem Order.StandsFor.rename {x : Path × Kind} {o : Order} (h : Order.StandsFor named x o)
    (hf : ∀ chain a name, named chain a → f (a ++ "." ++ name) = label chain ++ "." ++ name) :
    Order.StandsFor (fun chain a => a = label chain) x { o with property := f o.property } := by
  cases h with
  | ascending ha =>
    rw [hf _ _ _ ha]
    exact .ascending rfl
  | descending ha =>
    rw [hf _ _ _ ha]
    exact .descending rfl

theorem Order.StandsFor.unique :
    Relator.RightUnique (Order.StandsFor fun chain a => a = label chain) := by
  intro x o o' h h'
  cases h with
  | ascending ha => cases h' with | ascending ha' => rw [ha, ha']
  | descending ha => cases h' with | descending ha' => rw [ha, ha']

theorem Path.StandsFor.rename (h : p.StandsFor schema named columns)
    (hf : ∀ chain a name, named chain a → f (a ++ "." ++ name) = label chain ++ "." ++ name) :
    p.StandsFor schema (fun chain a => a = label chain)
      (columns.map fun c => { c with property := f c.property }) := by
  cases h with
  | column ha hplain =>
    rw [List.map_singleton, hf _ _ _ ha]
    exact .column rfl hplain
  | relationship ha hdeclared hentity =>
    rw [List.map_map]
    simp only [Function.comp_def, hf _ _ _ ha]
    exact .relationship rfl hdeclared hentity

/-- A selected path stands for one list of columns. -/
theorem Path.StandsFor.unique :
    Relator.RightUnique (Path.StandsFor schema fun chain a => a = label chain) := by
  intro p columns columns' h h'
  cases h with
  | column ha hplain =>
    cases h' with
    | column ha' => rw [ha, ha']
    | relationship _ hdeclared =>
      rcases hdeclared with hdeclared | hdeclared <;> (rw [hdeclared] at hplain; cases hplain)
  | relationship ha hdeclared hentity =>
    cases h' with
    | column _ hplain =>
      rcases hdeclared with hdeclared | hdeclared <;> (rw [hdeclared] at hplain; cases hplain)
    | relationship ha' hdeclared' hentity' =>
      -- what a relationship leads to is settled by its declaration
      obtain rfl := Option.some.inj ((Declared.target?_eq_some_iff.2 hdeclared).symm.trans
        (Declared.target?_eq_some_iff.2 hdeclared'))
      obtain rfl := Option.some.inj (hentity.symm.trans hentity')
      rw [ha, ha']

end StandsFor

/-! ## Plans with labels -/

namespace Spec

/-- The parts of a plan are those of the specification, with a label in the place of every alias. -/
structure Labelled (spec : Spec) (label : List String → String) (p : Plan) : Prop where
  joins : p.joins = spec.chains.map fun chain =>
    ⟨label chain.dropLast, (chain.getLast?).getD "", label chain, spec.joinKind⟩
  predicates : spec.Clauses label p.predicates
  orders : List.Forall₂ (Order.StandsFor fun chain a => a = label chain) spec.orderings p.orders
  columns : spec.Selects (fun chain a => a = label chain) p.columns

variable {settings : Settings} {spec other : Spec} {label aliases : List String → String}
  {f : String → String} {p q plan : Plan} {c : Compilation} {clauses : List Predicate}
  {columns : List Column} {named : List String → String → Prop}

theorem mem_conditions_of_mem_filters {g : Group} {d : Condition}
    (hg : g ∈ spec.groups.filter Group.hasFilter) (hd : d ∈ g.filters) : d ∈ spec.conditions :=
  List.mem_flatMap.2 ⟨g, (List.mem_filter.1 hg).1, (List.mem_filter.1 hd).1⟩

-- Only the aliases of chains in use come up in clauses.
theorem Clauses.rename (h : spec.Clauses aliases clauses)
    (hf : ∀ chain name, chain = [] ∨ chain ∈ spec.chains →
      f (aliases chain ++ "." ++ name) = label chain ++ "." ++ name) :
    spec.Clauses label (clauses.map (Predicate.rename f)) := by
  rw [Clauses, List.forall₂_map_right_iff]
  refine ((List.forall₂_and_left _ _).2 ⟨fun _ => id, h⟩).imp ?_
  rintro g _ ⟨hg, terms, rfl, hterms⟩
  refine ⟨terms.map (Predicate.rename f), Predicate.rename_or terms, ?_⟩
  rw [List.forall₂_map_right_iff]
  refine ((List.forall₂_and_left _ _).2 ⟨fun _ => id, hterms⟩).imp ?_
  rintro d term ⟨hd, path, hpath, himage⟩
  have hway := (Condition.mem_chains_of_path hpath).imp_right
    (mem_chains_of_mem (mem_conditions_of_mem_filters hg hd))
  refine ⟨path, hpath, ?_⟩
  rw [← hf path.way path.terminal.name hway]
  exact himage.rename

theorem Selects.rename (h : spec.Selects named columns)
    (hf : ∀ chain a name, named chain a → f (a ++ "." ++ name) = label chain ++ "." ++ name) :
    spec.Selects (fun chain a => a = label chain)
      (columns.map fun c => { c with property := f c.property }) := by
  obtain ⟨parts, hparts, rfl⟩ := h
  refine ⟨parts.map (List.map _), ?_, List.map_flatten⟩
  rw [List.forall₂_map_right_iff]
  exact hparts.imp fun _ _ hpart => hpart.rename hf

-- The aliases of a plan tell their chains.
theorem AliasIn.respell (hvalid : settings.validate = .ok ()) (chain : List String)
    (a name : String) (h : AliasIn settings spec plan chain a) :
    plan.respell label (a ++ "." ++ name) = label chain ++ "." ++ name := by
  obtain ⟨rfl, htrail⟩ := h
  have hpoint : '.' ∉ (aliasOf settings spec chain).toList := by
    rw [aliasOf]
    cases chain with
    | nil => exact Settings.point_notMem_rootAlias hvalid
    | cons => exact Settings.point_notMem_generatedAlias hvalid _
  rw [Plan.respell_point hpoint, Plan.labelOf_eq htrail]

namespace Compiled

-- The joins of a plan, told by their chains.
theorem joins_eq_map
    (h : Compiled settings spec (.start spec.root settings.rootAlias) c clauses plan) :
    plan.joins = spec.chains.map fun chain =>
      ⟨aliasOf settings spec chain.dropLast, (chain.getLast?).getD "",
        aliasOf settings spec chain, spec.joinKind⟩ := by
  rw [h.joins_of_start]
  exact chainJoins_eq_map h.closedChains

-- The joins of a plan stand for the chains in use.
theorem trails (h : Compiled settings spec (.start spec.root settings.rootAlias) c clauses plan) :
    plan.trails = spec.chains.map some := by
  rw [Plan.trails]
  conv_lhs => arg 2; rw [h.joins_eq_map]
  rw [List.map_map]
  exact List.map_congr_left fun chain hc => h.trail?_aliasOf (.inr hc)

/-- With labels in the places of its aliases a plan is settled by the specification. -/
theorem labelled (h : Compiled settings spec (.start spec.root settings.rootAlias) c clauses plan)
    (hspec : spec.Reachable) (hvalid : settings.validate = .ok ()) (label : List String → String) :
    Labelled spec label (plan.relabelled label) := by
  have hlabel : ∀ chain, chain = [] ∨ chain ∈ spec.chains →
      plan.labelOf label (aliasOf settings spec chain) = label chain :=
    fun chain hc => Plan.labelOf_eq (h.trail?_aliasOf hc)
  refine ⟨?_, ?_, ?_, ?_⟩
  · change plan.joins.map _ = _
    rw [h.joins_eq_map, List.map_map]
    refine List.map_congr_left fun chain hc => ?_
    dsimp only [Function.comp_apply]
    rw [hlabel _ (h.closedChains.dropLast_mem hc), hlabel _ (.inr hc)]
  · change spec.Clauses label (plan.predicates.map _)
    rw [h.predicates_of_start]
    exact h.clauses_of.rename fun chain name hc => (h.aliasIn hc).respell hvalid chain _ name
  · change List.Forall₂ _ _ (plan.orders.map _)
    rw [List.forall₂_map_right_iff, h.orders_of_start]
    refine (standsFor_orders fun d hd chain hchain =>
      h.aliasIn_aliasAt chain (hchain.imp_right (mem_chains_of_mem hd))).imp fun _ _ ho => ?_
    exact ho.rename (AliasIn.respell hvalid)
  · change spec.Selects _ (plan.columns.map _)
    rw [h.columns_of_start.1]
    exact (selects_columns hspec.usable h.aliasIn_aliasAt).rename (AliasIn.respell hvalid)

end Compiled

/-! ## Groups in another order -/

section Groups

variable (hperm : spec.groups.Perm other.groups)

include hperm

theorem conditions_perm : spec.conditions.Perm other.conditions :=
  hperm.flatMap_right _

theorem pathsOf_perm (kind : Kind) : (spec.pathsOf kind).Perm (other.pathsOf kind) :=
  ((conditions_perm hperm).filter _).filterMap _

theorem orderings_perm : spec.orderings.Perm other.orderings :=
  ((conditions_perm hperm).filter _).filterMap _

-- The same chains are in use, first used in another order.
theorem chains_perm : spec.chains.Perm other.chains := by
  refine (List.perm_ext_iff_of_nodup (nodup_eraseDups _) (nodup_eraseDups _)).2 fun chain => ?_
  rw [List.mem_eraseDups, List.mem_eraseDups]
  exact ((conditions_perm hperm).flatMap_right _).mem_iff

theorem Clauses.perm {clauses' : List Predicate} (h : spec.Clauses label clauses)
    (h' : other.Clauses label clauses') : clauses.Perm clauses' := by
  refine List.rel_perm_imp ?_ h h' (hperm.filter _)
  -- a group has one clause, since each of its filters has one image
  rintro g _ _ ⟨terms, rfl, hterms⟩ ⟨terms', rfl, hterms'⟩
  refine congrArg Predicate.or (Relator.RightUnique.forall₂ ?_ hterms hterms')
  rintro d _ _ ⟨path, hpath, himage⟩ ⟨path', hpath', himage'⟩
  obtain rfl := Option.some.inj (hpath.symm.trans hpath')
  exact himage.unique himage'

theorem Selects.perm {columns' : List Column} (hschema : spec.schema = other.schema)
    (h : spec.Selects (fun chain a => a = label chain) columns)
    (h' : other.Selects (fun chain a => a = label chain) columns') : columns.Perm columns' := by
  obtain ⟨parts, hparts, rfl⟩ := h
  obtain ⟨parts', hparts', rfl⟩ := h'
  rw [hschema] at hparts
  exact (List.rel_perm_imp Path.StandsFor.unique hparts hparts' (pathsOf_perm hperm _)).flatten

/-- With labels in the places of aliases only the order of a plan depends on that of the groups. -/
theorem Labelled.rearranges (hschema : spec.schema = other.schema)
    (hkind : spec.joinKind = other.joinKind) (h : Labelled spec label p)
    (h' : Labelled other label q) : p.Rearranges q where
  joins := by
    rw [h.joins, h'.joins, hkind]
    exact (chains_perm hperm).map _
  predicates := h.predicates.perm hperm h'.predicates
  orders := List.rel_perm_imp Order.StandsFor.unique h.orders h'.orders (orderings_perm hperm)
  columns := h.columns.perm hperm hschema h'.columns

end Groups

/-- The order of groups changes names only. Under valid settings, of two specifications with the
same groups in different orders either both have a plan or none has. The plans join the same chains,
each of them once, and with any labels for chains in the places of the aliases they have the same
joins, clauses, orders and columns, as often as each of them occurs. -/
theorem toPlan_permuted (hvalid : settings.validate = .ok ()) (h : spec.Reachable)
    (h' : other.Reachable) (hschema : spec.schema = other.schema) (hroot : spec.root = other.root)
    (hkind : spec.joinKind = other.joinKind) (hperm : spec.groups.Perm other.groups) :
    ((∃ p, spec.toPlan settings = .ok p) ↔ ∃ q, other.toPlan settings = .ok q) ∧
    ∀ p q, spec.toPlan settings = .ok p → other.toPlan settings = .ok q →
      p.entity = q.entity ∧ p.rootAlias = q.rootAlias ∧
      (∃ chains chains' : List (List String), p.trails = chains.map some ∧
        q.trails = chains'.map some ∧ chains.Nodup ∧ chains.Perm chains') ∧
      ∀ label, (p.relabelled label).Rearranges (q.relabelled label) := by
  refine ⟨?_, fun p q hp hq => ?_⟩
  · have hchecks : spec.checks.Perm other.checks := (conditions_perm hperm).flatMap_right _
    rw [exists_toPlan_iff hvalid h, exists_toPlan_iff hvalid h']
    simp only [hchecks.mem_iff]
  · obtain ⟨c, clauses, hcompiled⟩ := (toPlan_outcomes settings h).1 p hp
    obtain ⟨c', clauses', hcompiled'⟩ := (toPlan_outcomes settings h').1 q hq
    refine ⟨?_, ?_, ⟨spec.chains, other.chains, hcompiled.trails, hcompiled'.trails,
      nodup_eraseDups _, chains_perm hperm⟩, fun label => ?_⟩
    · rw [hcompiled.plan, hcompiled'.plan]
      exact hroot
    · rw [hcompiled.plan, hcompiled'.plan]
      rfl
    · exact Labelled.rearranges hperm hschema hkind (hcompiled.labelled h hvalid label)
        (hcompiled'.labelled h' hvalid label)

/-- Ships with their captains and pilots. -/
def crewSchema : Schema :=
  ⟨[⟨"Ship", [⟨"name", .scalar .string⟩, ⟨"captain", .reference "Person"⟩,
      ⟨"pilot", .reference "Person"⟩]⟩,
    ⟨"Person", [⟨"name", .scalar .string⟩]⟩]⟩

def crewStart : Spec :=
  ⟨crewSchema, "Ship", .inner, [], none⟩

theorem reachable_crewStart : crewStart.Reachable :=
  .start (show start crewSchema "Ship" = .ok crewStart by rfl)

/-- Captains before pilots. -/
def captainsFirst : Spec :=
  (chain
    [⟨.isNull (.chain ["captain", "name"]), false⟩,
     ⟨.isNotNull (.chain ["pilot", "name"]), false⟩,
     ⟨.orderByAscending (.chain ["captain", "name"]), false⟩]
    ⟨crewStart, []⟩).2.state

/-- Pilots before captains. -/
def pilotsFirst : Spec :=
  (chain
    [⟨.isNotNull (.chain ["pilot", "name"]), false⟩,
     ⟨.isNull (.chain ["captain", "name"]), false⟩,
     ⟨.orderByAscending (.chain ["captain", "name"]), false⟩]
    ⟨crewStart, []⟩).2.state

def captainsFirstPlan : Plan where
  entity := "Ship"
  rootAlias := "this"
  joins := [⟨"this", "captain", "alias_1", .inner⟩, ⟨"this", "pilot", "alias_2", .inner⟩]
  predicates := [.or [.isNull "alias_1.name"], .or [.isNotNull "alias_2.name"]]
  orders := [⟨"alias_1.name", .ascending⟩]
  columns := []
  page := .unset
  resultType := none

def pilotsFirstPlan : Plan where
  entity := "Ship"
  rootAlias := "this"
  joins := [⟨"this", "pilot", "alias_1", .inner⟩, ⟨"this", "captain", "alias_2", .inner⟩]
  predicates := [.or [.isNotNull "alias_1.name"], .or [.isNull "alias_2.name"]]
  orders := [⟨"alias_2.name", .ascending⟩]
  columns := []
  page := .unset
  resultType := none

-- The captains have another alias as soon as the pilots come first.
theorem toPlan_permuted_crew :
    Settings.standard.validate = .ok () ∧ captainsFirst.Reachable ∧ pilotsFirst.Reachable ∧
      captainsFirst.groups.Perm pilotsFirst.groups ∧
      captainsFirst.toPlan .standard = .ok captainsFirstPlan ∧
      pilotsFirst.toPlan .standard = .ok pilotsFirstPlan ∧
      (captainsFirstPlan.relabelled "/".intercalate).Rearranges
        (pilotsFirstPlan.relabelled "/".intercalate) ∧
      (pilotsFirstPlan.relabelled "/".intercalate).orders = [⟨"captain.name", .ascending⟩] := by
  have hvalid : Settings.standard.validate = .ok () := by decide
  have hcaptains : captainsFirst.Reachable := .chain reachable_crewStart _
  have hpilots : pilotsFirst.Reachable := .chain reachable_crewStart _
  have hperm : captainsFirst.groups.Perm pilotsFirst.groups := by decide
  have hrun : captainsFirst.toPlan .standard = .ok captainsFirstPlan := by cbv
  have hrun' : pilotsFirst.toPlan .standard = .ok pilotsFirstPlan := by cbv
  obtain ⟨-, hplans⟩ := toPlan_permuted hvalid hcaptains hpilots rfl rfl rfl hperm
  obtain ⟨-, -, -, hsame⟩ := hplans _ _ hrun hrun'
  exact ⟨hvalid, hcaptains, hpilots, hperm, hrun, hrun', hsame _, by cbv⟩

end Spec

end PathQuery
