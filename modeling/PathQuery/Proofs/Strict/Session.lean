import PathQuery.Compile
import PathQuery.Proofs.Strict.Spec

/-!
# Compilations of strict specifications

A compilation reads the declared types of the properties on its way. It takes the strict forms for
the same: the handle receives the same instructions, and the trees differ in nothing but the types
that their nodes remember.
-/

namespace PathQuery

open Condition (Kind Group)

/-! ## Terms -/

namespace Condition

variable (c : Condition)

theorem requirePath_strict : c.strict.requirePath = Path.strict <$> c.requirePath := by
  have hpath : c.strict.path = c.path.map Path.strict := rfl
  rw [requirePath, requirePath, hpath]
  cases c.path <;> rfl

-- Operands are converted to the same type.
theorem operand_strict (path : Path) : c.strict.operand path.strict = c.operand path := by
  funext v
  have hcomparison : path.strict.terminal.declared.comparison? =
      path.terminal.declared.comparison? :=
    Declared.comparison?_strict _
  simp only [operand, hcomparison, Path.dotted_strict]
  rfl

theorem term_strict (path : Path) (property : String) :
    c.strict.term path.strict property = c.term path property := by
  simp only [term, operand_strict, Path.dotted_strict]
  rfl

end Condition

/-! ## Joins -/

def JoinNode.strict (n : JoinNode) : JoinNode :=
  { n with declared := n.declared.strict }

namespace JoinTree

def strict (t : JoinTree) : JoinTree :=
  { t with nodes := t.nodes.map JoinNode.strict }

variable (t : JoinTree)

@[simp]
theorem size_strict : t.strict.size = t.size :=
  List.length_map _

@[simp]
theorem joinCount_strict : t.strict.joinCount = t.joinCount := by
  rw [joinCount, joinCount, size_strict]

theorem node_strict (id : Nat) : t.strict.node id = (t.node id).strict := by
  rw [node, node, strict, List.getD_eq_getElem?_getD, List.getElem?_map,
    List.getD_eq_getElem?_getD]
  cases t.nodes[id]? <;> rfl

@[simp]
theorem aliasOf_strict (id : Nat) : t.strict.aliasOf id = t.aliasOf id := by
  rw [aliasOf, node_strict]
  rfl

@[simp]
theorem kind_strict : t.strict.kind = t.kind := by
  rw [kind, node_strict]
  rfl

@[simp]
theorem nextAlias_strict : t.strict.nextAlias = t.nextAlias :=
  rfl

@[simp]
theorem child?_strict (parent : Nat) (name : String) :
    t.strict.child? parent name = t.child? parent name := by
  rw [child?, node_strict]
  rfl

-- What a parent remembers of a child is not its type.
theorem map_strict_adopt (nodes : List JoinNode) (parent : Nat) (name : String) (id : Nat) :
    (nodes.modify parent (·.adopt name id)).map JoinNode.strict =
      (nodes.map JoinNode.strict).modify parent (·.adopt name id) := by
  refine List.ext_getElem? fun i => ?_
  rw [List.getElem?_map, List.getElem?_modify, List.getElem?_modify, List.getElem?_map]
  cases nodes[i]? with
  | none => rfl
  | some n =>
    dsimp only [Option.map_eq_map, Option.map_some]
    split <;> rfl

theorem grow_strict (parent : Nat) (segment : Segment) :
    (t.grow parent segment).strict =
      t.strict.grow parent ⟨segment.name, segment.declared.strict⟩ := by
  unfold grow
  rw [size_strict, kind_strict, nextAlias_strict]
  simp only [strict, map_strict_adopt, List.map_append, List.map_singleton]
  rfl

end JoinTree

namespace Session

def strict (s : Session) : Session :=
  { s with tree := s.tree.strict }

open PathQuery.Action (Mirrors mirrors_pure mirrors_current mirrors_put mirrors_report
  mirrors_ofExcept mirrors_ofExcept_self)

theorem issue_strict (i : Instruction) : (issue i).Mirrors strict id (issue i) :=
  Action.mirrors_focus (fun _ => rfl) (fun _ _ => rfl) _

theorem aliasOf_strict (node : Nat) : (aliasOf node).Mirrors strict id (aliasOf node) := by
  apply mirrors_current.bind
  intro s
  rw [strict, JoinTree.aliasOf_strict]
  exact mirrors_pure id _

/-- A relationship is joined under the same alias. -/
theorem join_strict (parent : Nat) (segment : Segment) :
    (join parent segment).Mirrors strict id (join parent segment.strict) := by
  apply mirrors_current.bind
  intro s
  simp only [strict, Property.strict, JoinTree.child?_strict, JoinTree.size_strict,
    JoinTree.aliasOf_strict, JoinTree.nextAlias_strict, JoinTree.kind_strict]
  cases s.tree.child? parent segment.name with
  | some node => exact mirrors_pure id node
  | none =>
    apply (issue_strict _).bind
    intro _
    apply mirrors_current.bind
    intro now
    rw [← JoinTree.grow_strict]
    apply (mirrors_put _).bind
    intro _
    apply (mirrors_report _).bind
    intro _
    exact mirrors_pure id _

theorem owner_strict (path : Path) : (owner path).Mirrors strict id (owner path.strict) :=
  Action.mirrors_foldlM join_strict path.navigation 0

theorem qualify_strict (path : Path) : (qualify path).Mirrors strict id (qualify path.strict) := by
  apply (owner_strict path).bind
  intro owner
  apply (aliasOf_strict owner).bind
  intro qualifier
  exact mirrors_pure id _

/-! ## Conditions and groups -/

theorem order_strict (path : Path) (direction : Direction) :
    (order path direction).Mirrors strict id (order path.strict direction) := by
  apply (qualify_strict path).bind
  intro property
  exact issue_strict _

theorem select_strict (schema : Schema) (path : Path) :
    (select schema path).Mirrors strict id (select schema.strict path.strict) := by
  apply (owner_strict path).bind
  intro parent
  rw [Path.selectedEntity_strict]
  apply (mirrors_ofExcept_self path.selectedEntity).bind
  intro target
  cases target with
  | none =>
    apply (aliasOf_strict parent).bind
    intro qualifier
    exact mirrors_pure id _
  | some target =>
    simp only [id, Schema.entity_strict]
    apply (mirrors_ofExcept Entity.strict (schema.entity target)).bind
    intro entity
    apply (join_strict parent path.terminal).bind
    intro child
    apply (aliasOf_strict child).bind
    intro qualifier
    simp only [Entity.columns_strict, List.map_map]
    exact mirrors_pure id _

theorem fetch_strict (path : Path) : (fetch path).Mirrors strict id (fetch path.strict) := by
  apply (owner_strict path).bind
  intro parent
  apply (join_strict parent path.terminal).bind
  intro _
  exact mirrors_pure id ()

theorem filter_strict (c : Condition) (path : Path) :
    (filter c path).Mirrors strict id (filter c.strict path.strict) := by
  apply (qualify_strict path).bind
  intro property
  rw [Condition.term_strict]
  apply (mirrors_ofExcept_self _).bind
  intro term
  apply (mirrors_report _).bind
  intro _
  exact mirrors_pure id term

-- What is done with the path of a condition needs to mirror only for paths.
theorem requirePath_strict {α : Type} (c : Condition) {next next' : Path → Action Session α}
    (h : ∀ path, (next path).Mirrors strict id (next' path.strict)) :
    (Action.ofExcept c.requirePath >>= next).Mirrors strict id
      (Action.ofExcept c.strict.requirePath >>= next') := by
  rw [Condition.requirePath_strict]
  exact (mirrors_ofExcept Path.strict c.requirePath).bind h

theorem condition_strict (schema : Schema) (c : Condition) :
    (condition schema c).Mirrors strict id (condition schema.strict c.strict) := by
  -- most kinds contribute nothing after what they do
  have hdone {a b : Action Session Unit} (h : a.Mirrors strict id b) :
      Mirrors strict id (a >>= fun _ => pure Contribution.nothing)
        (b >>= fun _ => pure Contribution.nothing) :=
    h.bind fun _ => mirrors_pure id Contribution.nothing
  unfold condition
  rw [show c.strict.kind = c.kind from rfl]
  cases c.kind with
  | skip | take =>
    apply (mirrors_ofExcept_self c.count).bind
    intro n
    exact hdone (issue_strict _)
  | orderAsc | orderDesc =>
    apply requirePath_strict
    intro path
    exact hdone (order_strict path _)
  | fetch =>
    apply requirePath_strict
    intro path
    exact hdone (fetch_strict path)
  | select =>
    apply requirePath_strict
    intro path
    apply (select_strict schema path).bind
    intro columns
    exact mirrors_pure id _
  | _ =>
    apply requirePath_strict
    intro path
    apply (filter_strict c path).bind
    intro term
    exact mirrors_pure id _

theorem conditions_strict (schema : Schema) (cs : List Condition) :
    (conditions schema cs).Mirrors strict id
      (conditions schema.strict (cs.map Condition.strict)) := by
  induction cs with
  | nil => exact mirrors_pure id _
  | cons c cs ih =>
    apply (condition_strict schema c).bind
    intro first
    apply ih.bind
    intro rest
    exact mirrors_pure id _

theorem group_strict (schema : Schema) (g : Group) :
    (group schema g).Mirrors strict id (group schema.strict g.strict) := by
  apply (conditions_strict schema g.conditions).bind
  intro c
  simp only [id]
  split
  · exact mirrors_pure id _
  · apply (issue_strict _).bind
    intro _
    exact mirrors_pure id _

theorem groups_strict (schema : Schema) (gs : List Group) :
    (groups schema gs).Mirrors strict id (groups schema.strict (gs.map Group.strict)) := by
  induction gs with
  | nil => exact mirrors_pure id _
  | cons g gs ih =>
    apply (group_strict schema g).bind
    intro first
    apply ih.bind
    intro rest
    exact mirrors_pure id _

theorem project_strict (columns : List Column) (resultType : Option String) :
    (project columns resultType).Mirrors strict id (project columns resultType) := by
  unfold project
  split
  · exact mirrors_pure id ()
  · apply (issue_strict _).bind
    intro _
    cases resultType with
    | none => exact mirrors_pure id ()
    | some target => exact issue_strict _

/-- The handle receives the same instructions. -/
theorem spec_strict (spec : Spec) :
    (Session.spec spec).Mirrors strict id (Session.spec spec.strict) := by
  apply (groups_strict spec.schema spec.groups).bind
  intro found
  apply (project_strict found.2 spec.resultType).bind
  intro _
  exact mirrors_pure id _

end Session

/-! ## Whole compilations -/

def Compilation.strict (c : Compilation) : Compilation :=
  { c with tree := c.tree.strict }

namespace Spec

variable (settings : Settings) (spec : Spec)

theorem compile_strict :
    (compile settings spec).Mirrors id Compilation.strict (compile settings spec.strict) := by
  intro s
  let begun : Logged Session :=
    ⟨⟨JoinTree.start spec.root s.state.rootAlias settings.stem spec.joinKind, s.state⟩, s.events⟩
  have hrun : Session.spec spec.strict (begun.map Session.strict) = _ :=
    Session.spec_strict spec begun
  have hgroups : spec.strict.groups.length = spec.groups.length := List.length_map _
  -- nothing is joined yet, so both compilations begin with the same tree
  have hbegun : begun.map Session.strict = ⟨⟨JoinTree.start spec.strict.root
      (s.map id).state.rootAlias settings.stem spec.strict.joinKind, (s.map id).state⟩,
      (s.map id).events⟩ :=
    rfl
  unfold compile
  dsimp only
  rw [← hbegun, hrun, hgroups]
  cases Session.spec spec begun with
  | ok counts t =>
    dsimp only [id, Logged.map, Session.strict]
    rw [JoinTree.joinCount_strict]
    rfl
  | error e t =>
    dsimp only [Logged.map, Session.strict]
    rw [JoinTree.joinCount_strict]
    rfl

/-- The strict form has the same plan, or fails to compile with the same error. -/
theorem toPlan_strict : spec.strict.toPlan settings = spec.toPlan settings := by
  have hplan : Action.Mirrors id id (spec.plan settings : Action Unit Plan)
      (spec.strict.plan settings) := by
    apply ((compile_strict settings spec).within _).bind
    intro compiled
    dsimp only [Prod.map, id]
    split
    · apply (Action.mirrors_report _).bind
      intro _
      exact Action.mirrors_pure id _
    · exact Action.mirrors_pure id _
  exact (hplan.result ()).trans (id_map _)

end Spec

end PathQuery
